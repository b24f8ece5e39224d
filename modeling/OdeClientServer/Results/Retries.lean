/-
When the retries inside one call of `Step` of RK2 and DISPF come to an end, with a positive tolerance.

Each retry loop is left with an accepted attempt or by an exception. With a positive tolerance every retry shrinks h to
at most nine tenths, and the estimates of a field that is bounded near the point of the step go to 0 with h.

- `rk2_ends_iff`, `rk2_stops`: the retries of RK2.
- `approach_ends_iff`, `approachC_ends_iff`: the nested loops of DISPF are one search over the multiples of the first
  stage and h. `scaled_stops`: when such a search stops.
- `nextAB_small`, `nextC_small`: a short attempt needs no retry.
-/
import OdeClientServer.Core.Retry
import OdeClientServer.Solvers.Tableaux
import OdeClientServer.Results.Repeatability

namespace OdeClientServer.Retries

open Retry RungeKutta Tableaux Repeatability

variable {n : ℕ} {F : ℝ → (Fin n → ℝ) → Fin n → ℝ} {f : Rhs ℝ} {tolerance t h : ℝ} {y : Vec ℝ} {u : Fin n → ℝ}

/-- the field is bounded on a neighbourhood of (t, u) -/
def BoundedNear (F : ℝ → (Fin n → ℝ) → Fin n → ℝ) (t : ℝ) (u : Fin n → ℝ) : Prop :=
  ∃ M, ∀ᶠ p in nhds (t, u), ‖F p.1 p.2‖ ≤ M

theorem boundedNear_of_continuous (hF : Continuous fun p : ℝ × (Fin n → ℝ) => F p.1 p.2) (t : ℝ) (u : Fin n → ℝ) :
    BoundedNear F t u := by
  have hnorm : Filter.Tendsto (fun p : ℝ × (Fin n → ℝ) => ‖F p.1 p.2‖) (nhds (t, u)) (nhds ‖F t u‖) :=
    hF.norm.continuousAt
  exact ⟨‖F t u‖ + 1, (hnorm.eventually_lt_const (lt_add_one _)).mono fun p hp => hp.le⟩

/-- a bound on a ball around (t, u) -/
theorem BoundedNear.ball (hF : BoundedNear F t u) :
    ∃ r M, 0 < r ∧ 0 ≤ M ∧ ∀ τ x, |τ - t| ≤ r → ‖x - u‖ ≤ r → ‖F τ x‖ ≤ M := by
  obtain ⟨M, hM⟩ := hF
  obtain ⟨r, hr, hball⟩ := Metric.nhds_basis_closedBall.eventually_iff.1 hM
  refine ⟨r, max M 0, hr, le_max_right _ _, fun τ x hτ hx => (hball (x := (τ, x)) ?_).trans (le_max_left _ _)⟩
  rw [Metric.mem_closedBall, Prod.dist_eq, max_le_iff, Real.dist_eq, dist_eq_norm]
  exact ⟨hτ, hx⟩

/-! ## RK2 -/

section RK2

open RK2Solver

/-- the retry of `RK2Solver::Step` after the attempt with step h -/
noncomputable def nextRK2 (f : Rhs ℝ) (tolerance t : ℝ) (y : Vec ℝ) (h : ℝ) : Option ℝ :=
  match attempt f t y h with
  | .error _ => none
  | .ok (_, error) =>
    if error ≤ tolerance then none
    else some (h * maxTop minFactor (mulTop safetyFactor (powTop (quot tolerance error) (1.0 / 3.0))))

theorem rk2_ends_iff :
    (∃ fuel, ∀ m, RK2Solver.step f tolerance t y fuel h ≠ .starved m) ↔ Stops (nextRK2 f tolerance t y) h := by
  refine stops_iff_fuel (p := id) (D := fun fuel h => ∀ m, RK2Solver.step f tolerance t y fuel h ≠ .starved m)
    (fun _ hd => hd () rfl) ?_ ?_ h
  · intro fuel h hnext m hm
    rw [id, nextRK2] at hnext
    unfold RK2Solver.step at hm
    cases ha : attempt f t y h with
    | error e =>
      rw [ha] at hm
      cases hm
    | ok r =>
      obtain ⟨y', e⟩ := r
      simp only [ha] at hnext hm
      split_ifs at hnext with he
      rw [if_pos he] at hm
      cases hm
  · intro h h' hnext
    refine ⟨h', rfl, fun fuel => ?_⟩
    rw [id, nextRK2] at hnext
    rw [RK2Solver.step]
    cases ha : attempt f t y h with
    | error e =>
      rw [ha] at hnext
      cases hnext
    | ok r =>
      obtain ⟨y', e⟩ := r
      simp only [ha] at hnext
      split_ifs at hnext with he
      cases hnext
      simp only [if_neg he]

/-- `||k2 - k1|| / 4` of an attempt -/
noncomputable def error1 (F : ℝ → (Fin n → ℝ) → Fin n → ℝ) (t : ℝ) (u : Fin n → ℝ) (h : ℝ) : ℝ :=
  norm (List.ofFn (h • F t (u + (b21 : ℝ) • h • F t u) - h • F t u)) / 4.0

/-- `||h f(t + h, y_{n+1}) - k1|| / 6` of an attempt -/
noncomputable def error2 (F : ℝ → (Fin n → ℝ) → Fin n → ℝ) (t : ℝ) (u : Fin n → ℝ) (h : ℝ) : ℝ :=
  norm (List.ofFn (h • F (t + h) (u + ((p1 : ℝ) • h • F t u + (p2 : ℝ) • h • F t (u + (b21 : ℝ) • h • F t u))) -
    h • F t u)) / 6.0

/-- the error of an attempt on a field -/
noncomputable def errorRK2 (F : ℝ → (Fin n → ℝ) → Fin n → ℝ) (t : ℝ) (u : Fin n → ℝ) (h : ℝ) : ℝ :=
  max (error1 F t u h) (error2 F t u h)

theorem attempt_ofFn (hf : Computes F f) (t : ℝ) (u : Fin n → ℝ) (h : ℝ) :
    ∃ next, attempt f t (List.ofFn u) h = .ok (next, errorRK2 F t u h) := by
  have hfield : ∀ τ v, f τ (List.ofFn v) = .ok (List.ofFn (F τ v)) := hf
  simp only [attempt, stages, nextValue, hfield, ok_bind, multiplyScalarByVector_ofFn, addVectors_ofFn,
    subtractVectors_ofFn, except_pure, errorRK2, error1, error2]
  exact ⟨_, rfl⟩

theorem nextRK2_ofFn (hf : Computes F f) (h : ℝ) :
    nextRK2 f tolerance t (List.ofFn u) h =
      if errorRK2 F t u h ≤ tolerance then none
      else some (h * maxTop minFactor
        (mulTop safetyFactor (powTop (quot tolerance (errorRK2 F t u h)) (1.0 / 3.0)))) := by
  obtain ⟨next, ha⟩ := attempt_ofFn hf t u h
  rw [nextRK2, ha]

theorem errorRK2_nonneg (h : ℝ) : 0 ≤ errorRK2 F t u h :=
  le_max_of_le_left (div_nonneg (norm_nonneg' _) (by norm_num))

/-- the error of a short step is within a positive tolerance -/
theorem errorRK2_small (hF : BoundedNear F t u) (htol : 0 < tolerance) :
    ∃ b, 0 < b ∧ ∀ h, 0 < h → h ≤ b → errorRK2 F t u h ≤ tolerance := by
  obtain ⟨r, M, hr, hM0, hM⟩ := hF.ball
  have hC : 0 < (Real.sqrt n + 1) * (M + 1) := by positivity
  refine ⟨min r (min r tolerance / ((Real.sqrt n + 1) * (M + 1))), by positivity, fun h hh hhb => ?_⟩
  have hhr : h ≤ r := hhb.trans (min_le_left _ _)
  have hscaled : h * ((Real.sqrt n + 1) * (M + 1)) ≤ min r tolerance :=
    (le_div_iff₀ hC).1 (hhb.trans (min_le_right _ _))
  have hsqrt : 0 ≤ Real.sqrt n := Real.sqrt_nonneg _
  have hhM : 0 ≤ h * M := mul_nonneg hh.le hM0
  have hroot : 0 ≤ h * M * Real.sqrt n := mul_nonneg hhM hsqrt
  have hbound : Real.sqrt n * (h * M) + h * M ≤ min r tolerance := by
    nlinarith
  have hrM : h * M ≤ r := by linarith [min_le_left r tolerance]
  have htolb : Real.sqrt n * (h * M) ≤ tolerance := by linarith [min_le_right r tolerance]
  -- the points stay in the ball, so the stages stay below h M
  have hstage : ∀ τ x, |τ - t| ≤ r → ‖x - u‖ ≤ r → ‖h • F τ x‖ ≤ h * M := by
    intro τ x hτ hx
    rw [norm_smul, Real.norm_eq_abs, abs_of_pos hh]
    exact mul_le_mul_of_nonneg_left (hM τ x hτ hx) hh.le
  have hsame : |t - t| ≤ r := by rw [sub_self, abs_zero]; exact hr.le
  have hk1 : ‖h • F t u‖ ≤ h * M := hstage t u hsame (by rw [sub_self, norm_zero]; exact hr.le)
  have hk2 : ‖h • F t (u + (b21 : ℝ) • h • F t u)‖ ≤ h * M := by
    refine hstage _ _ hsame ?_
    rw [add_sub_cancel_left, norm_smul, Real.norm_eq_abs, abs_of_pos (show (0 : ℝ) < b21 by norm_num [b21])]
    have hb21 : (b21 : ℝ) ≤ 1 := by norm_num [b21]
    linarith [mul_le_of_le_one_left (norm_nonneg (h • F t u)) hb21]
  have hnext : ‖u + ((p1 : ℝ) • h • F t u + (p2 : ℝ) • h • F t (u + (b21 : ℝ) • h • F t u)) - u‖ ≤ r := by
    rw [add_sub_cancel_left]
    refine (norm_add_le _ _).trans ?_
    have hp1 : ‖(p1 : ℝ) • h • F t u‖ = 1 / 4 * ‖h • F t u‖ := by
      rw [show (p1 : ℝ) = 1 / 4 by norm_num [p1], norm_smul_of_nonneg (by norm_num)]
    have hp2 : ‖(p2 : ℝ) • h • F t (u + (b21 : ℝ) • h • F t u)‖ =
        3 / 4 * ‖h • F t (u + (b21 : ℝ) • h • F t u)‖ := by
      rw [show (p2 : ℝ) = 3 / 4 by norm_num [p2], norm_smul_of_nonneg (by norm_num)]
    linarith
  have hend := hstage (t + h) _ (by rw [add_sub_cancel_left, abs_of_pos hh]; exact hhr) hnext
  -- a difference of two stages
  have hdiff : ∀ a b : Fin n → ℝ, ‖a‖ ≤ h * M → ‖b‖ ≤ h * M → norm (List.ofFn (a - b)) ≤ 2 * tolerance := by
    intro a b ha hb
    refine (norm_ofFn_le (b := 2 * (h * M)) (by linarith) fun i => ?_).trans (by linarith)
    have hi := (norm_le_pi_norm (a - b) i).trans (norm_sub_le a b)
    rw [Real.norm_eq_abs] at hi
    linarith
  refine max_le ?_ ?_
  · rw [error1, div_le_iff₀ (by norm_num)]
    linarith [hdiff _ _ hk2 hk1]
  · rw [error2, div_le_iff₀ (by norm_num)]
    linarith [hdiff _ _ hend hk1]

/-- a retry with a positive tolerance shrinks h to at most nine tenths -/
theorem nextRK2_shrinks (hf : Computes F f) (htol : 0 < tolerance) (hh : 0 < h) {h' : ℝ}
    (hnext : nextRK2 f tolerance t (List.ofFn u) h = some h') : 0 < h' ∧ h' ≤ 0.9 * h := by
  rw [nextRK2_ofFn hf] at hnext
  split_ifs at hnext with he
  cases hnext
  rw [not_le] at he
  have hpos : 0 < errorRK2 F t u h := htol.trans he
  have hroot : (tolerance / errorRK2 F t u h) ^ ((1.0 : ℝ) / 3.0) ≤ 1 :=
    Real.rpow_le_one (by positivity) ((div_le_one hpos).2 he.le) (by norm_num)
  rw [quot_of_ne hpos.ne', powTop_coe, mulTop_coe, maxTop_coe, minFactor, safetyFactor]
  have hc0 : (0 : ℝ) < max 0.2 (0.9 * (tolerance / errorRK2 F t u h) ^ ((1.0 : ℝ) / 3.0)) :=
    lt_max_of_lt_left (by norm_num)
  have hc1 : max 0.2 (0.9 * (tolerance / errorRK2 F t u h) ^ ((1.0 : ℝ) / 3.0)) ≤ (0.9 : ℝ) :=
    max_le (by norm_num) (by linarith)
  refine ⟨mul_pos hh hc0, ?_⟩
  rw [mul_comm]
  exact mul_le_mul_of_nonneg_right hc1 hh.le

/-- with a positive tolerance the retries stop on every locally bounded field -/
theorem rk2_stops (hF : BoundedNear F t u) (hf : Computes F f) (htol : 0 < tolerance) (hh : 0 < h) :
    Stops (nextRK2 f tolerance t (List.ofFn u)) h := by
  obtain ⟨b, hb0, hb⟩ := errorRK2_small hF htol
  refine stops_of_shrinking (I := fun s => 0 < s) id (by norm_num : (0 : ℝ) ≤ 0.9) (by norm_num) hb0 hh
    (fun s s' hs hnext => nextRK2_shrinks hf htol hs hnext) fun s hs hsb => ?_
  rw [nextRK2_ofFn hf, if_pos (hb s hs hsb)]

end RK2

/-! ## StepDISPFA and StepDISPFB

The state of the search is the first stage with h. The loop 1a-2a and the recursive call are one search: both go on with
the two multiplied by the same factor. -/

section AB

open DISPFSolver

/-- first stage and h, multiplied by c -/
noncomputable def scale (s : Vec ℝ × ℝ) (c : ℝ) : Vec ℝ × ℝ := (s.1.map (· * c), s.2 * c)

/-- a matrix that holds the first stage only -/
def base (first : Vec ℝ) : Stages ℝ := setStage (fun _ => []) 0 first

theorem base_zero (first : Vec ℝ) : base first 0 = first := setStage_same (fun _ => []) 0 first

/-- An of an attempt -/
noncomputable def early (G : Formula ℝ) (f : Rhs ℝ) (t : ℝ) (y : Vec ℝ) (s : Vec ℝ × ℝ) : Except Exn ℝ := do
  let col ← secondStage G f t y s.2 (base s.1)
  let d ← maxOver y.length fun i => do return |(← read col i) - (← read s.1 i)|
  return d * G.coef

/-- the retry of an attempt, after An or after An1 -/
noncomputable def nextAB (G : Formula ℝ) (f : Rhs ℝ) (tolerance t : ℝ) (y : Vec ℝ) (s : Vec ℝ × ℝ) :
    Option (Vec ℝ × ℝ) :=
  match early G f t y s with
  | .error _ => none
  | .ok an =>
    if an > tolerance then some (scale s (retryFactor tolerance an))
    else
      match trial G f t y s.2 s.1 with
      | .error _ => none
      | .ok (_, _, an1) => if an1 > tolerance then some (scale s (retryFactor tolerance an1)) else none

variable {G : Formula ℝ} {k : Stages ℝ}

theorem early_error (hG : G.Valid) (tolerance : ℝ) {e : Exn} (he : early G f t y (k 0, h) = .error e) (fuel : ℕ) :
    ∃ r, predictor G f tolerance t y (fuel + 1) k h = some (.error r) := by
  have hsecond : secondStage G f t y h (base (k 0)) = secondStage G f t y h k := secondStage_congr hG (base_zero (k 0))
  unfold early at he
  dsimp only at he
  rw [hsecond] at he
  unfold predictor
  cases hc : secondStage G f t y h k with
  | error e1 => exact ⟨_, rfl⟩
  | ok col =>
    rw [hc, ok_bind] at he
    dsimp only
    cases hd : maxOver y.length fun i => do return |(← read col i) - (← read (k 0) i)| with
    | error e1 => exact ⟨_, rfl⟩
    | ok d =>
      rw [hd] at he
      cases he

/-- the loop goes on with a larger An, and hands the second stage on with a smaller one -/
theorem early_ok (hG : G.Valid) (tolerance : ℝ) {an : ℝ} (he : early G f t y (k 0, h) = .ok an) :
    (an > tolerance → ∃ k1, k1 0 = (k 0).map (· * retryFactor tolerance an) ∧ ∀ fuel,
      predictor G f tolerance t y (fuel + 1) k h =
        predictor G f tolerance t y fuel k1 (h * retryFactor tolerance an)) ∧
    (¬ an > tolerance → ∃ k1, k1 0 = k 0 ∧ secondStage G f t y h k1 = .ok (k1 1) ∧ ∀ fuel,
      predictor G f tolerance t y (fuel + 1) k h = some (.ok (k1, h))) := by
  have hsecond : secondStage G f t y h (base (k 0)) = secondStage G f t y h k := secondStage_congr hG (base_zero (k 0))
  unfold early at he
  dsimp only at he
  rw [hsecond] at he
  obtain ⟨col, hc, he⟩ := bind_eq_ok.1 he
  obtain ⟨d, hd, he⟩ := bind_eq_ok.1 he
  cases he
  have hsame : setStage k 1 col 0 = k 0 := setStage_of_ne k (by decide) col
  constructor
  · intro hgt
    refine ⟨scaleFirst (setStage k 1 col) (retryFactor tolerance (d * G.coef)), ?_, fun fuel => ?_⟩
    · rw [scaleFirst_zero, hsame]
    · simp only [predictor, hc, hd]
      rw [if_pos hgt]
  · intro hle
    refine ⟨setStage k 1 col, hsame, ?_, fun fuel => ?_⟩
    · rw [secondStage_congr hG hsame, hc]
      exact congrArg _ (setStage_same k 1 col).symm
    · simp only [predictor, hc, hd]
      rw [if_neg hle]

/-- the attempt from a matrix with its second stage, and the attempt from its first column -/
theorem stageLoop_base (k1 k2 : Stages ℝ) :
    stageLoop f t y h [2, 3, 4, 5] k1 = .ok k2 ↔
      stageLoop f t y h [2, 3, 4, 5] (setStage (base (k1 0)) 1 (k1 1)) = .ok k2 := by
  have hk : ∀ j : Fin 6, j.val < 2 → k1 j = setStage (base (k1 0)) 1 (k1 1) j := by
    intro j hj
    rcases Nat.lt_succ_iff_lt_or_eq.1 hj with hlt | hj1
    · rw [show j = 0 from Fin.ext (Nat.lt_one_iff.1 hlt), setStage_of_ne _ (by decide), base_zero]
    · rw [show j = 1 from Fin.ext hj1]
      exact (setStage_same _ 1 _).symm
  exact ⟨stageLoop_full (m := 2) (r := 4) rfl hk, stageLoop_full (m := 2) (r := 4) rfl fun j hj => (hk j hj).symm⟩

theorem late_iff (hG : G.Valid) {k1 : Stages ℝ} {r : Vec ℝ × Vec ℝ × ℝ}
    (hsecond : secondStage G f t y h k1 = .ok (k1 1)) :
    trial G f t y h (k1 0) = .ok r ↔
      ∃ k2, stageLoop f t y h [2, 3, 4, 5] k1 = .ok k2 ∧ k2 0 = k1 0 ∧ endPoint G f t y h k2 = .ok r := by
  rw [trial, show setStage (fun _ => []) 0 (k1 0) = base (k1 0) from rfl, secondStage_congr hG (base_zero (k1 0)),
    hsecond, ok_bind]
  simp only [stageLoop_base k1]
  cases hl : stageLoop f t y h [2, 3, 4, 5] (setStage (base (k1 0)) 1 (k1 1)) with
  | error e =>
    refine iff_of_false (fun h => ?_) ?_
    · cases h
    · rintro ⟨k2, h, -⟩
      cases h
  | ok k2 =>
    have hfirst : k2 0 = k1 0 := stageLoop_before (m := 2) (r := 4) ((stageLoop_base k1 k2).2 hl) (by decide)
    constructor
    · exact fun hr => ⟨k2, rfl, hfirst, hr⟩
    · rintro ⟨k3, h3, -, hr⟩
      cases h3
      exact hr

/-- the call ends with the given fuel -/
def Done (G : Formula ℝ) (f : Rhs ℝ) (tolerance t : ℝ) (y : Vec ℝ) (fuel : ℕ) (m : Members ℝ) (h : ℝ) : Prop :=
  ∀ m', approach G f tolerance t y fuel m h ≠ .starved m'

theorem done_congr (hG : G.Valid) {fuel : ℕ} {m m' : Members ℝ} (hm : SameMembers 1 m m')
    (hd : Done G f tolerance t y fuel m h) : Done G f tolerance t y fuel m' h := by
  intro m1 h1
  have hrel : ApproachRel (approach G f tolerance t y fuel m h) (approach G f tolerance t y fuel m' h) :=
    approach_rel hG fuel h hm
  rw [h1] at hrel
  generalize ha : approach G f tolerance t y fuel m h = a at hrel
  cases hrel
  exact hd _ ha

theorem predictor_mono {fuel : ℕ} {r : LoopEnd} (hp : predictor G f tolerance t y fuel k h = some r) :
    predictor G f tolerance t y (fuel + 1) k h = some r := by
  induction fuel generalizing k h with
  | zero => cases hp
  | succ fuel ih =>
    rw [predictor] at hp ⊢
    cases hc : secondStage G f t y h k with
    | error e => rw [hc] at hp; exact hp
    | ok col =>
      rw [hc] at hp
      dsimp only at hp ⊢
      generalize (maxOver y.length fun i => do return |(← read col i) - (← read (k 0) i)|) = d at hp ⊢
      cases d with
      | error e => exact hp
      | ok d =>
        dsimp only at hp ⊢
        split_ifs at hp ⊢
        · exact ih hp
        · exact hp

/-- the retries of the loop 1a-2a are retries of the search -/
theorem predictor_stops (hG : G.Valid) {fuel : ℕ} (hne : predictor G f tolerance t y fuel k h ≠ none)
    (hok : ∀ k1 h1 an, predictor G f tolerance t y fuel k h = some (.ok (k1, h1)) →
      secondStage G f t y h1 k1 = .ok (k1 1) → early G f t y (k1 0, h1) = .ok an → ¬ an > tolerance →
      Stops (nextAB G f tolerance t y) (k1 0, h1)) : Stops (nextAB G f tolerance t y) (k 0, h) := by
  induction fuel generalizing k h with
  | zero => exact absurd rfl hne
  | succ fuel ih =>
    cases he : early G f t y (k 0, h) with
    | error e => exact .here (by rw [nextAB, he])
    | ok an =>
      obtain ⟨hgt, hle⟩ := early_ok hG tolerance he
      by_cases ha : an > tolerance
      · obtain ⟨k1, hk1, hp⟩ := hgt ha
        have hnext : nextAB G f tolerance t y (k 0, h) = some (k1 0, h * retryFactor tolerance an) := by
          simp only [nextAB, he, if_pos ha, scale, hk1]
        rw [hp fuel] at hne hok
        exact .again hnext (ih hne hok)
      · obtain ⟨k1, hk1, hsecond, hp⟩ := hle ha
        rw [← hk1] at he ⊢
        exact hok k1 h an (hp fuel) hsecond he ha

/-- what the rest of a call does when An is within the tolerance -/
theorem next_late {k1 : Stages ℝ} {an : ℝ} (he : early G f t y (k1 0, h) = .ok an)
    (ha : ¬ an > tolerance) :
    nextAB G f tolerance t y (k1 0, h) =
      match trial G f t y h (k1 0) with
      | .error _ => none
      | .ok (_, _, an1) => if an1 > tolerance then some (scale (k1 0, h) (retryFactor tolerance an1)) else none := by
  simp only [nextAB, he, if_neg ha]

/-- a call that ends has come out of its loop 1a-2a -/
theorem Done.predictor_ne {fuel : ℕ} {m : Members ℝ} (hd : Done G f tolerance t y (fuel + 1) m h) :
    predictor G f tolerance t y (fuel + 1) m.k h ≠ none := by
  intro hnone
  refine hd (m.enter t y h) ?_
  rw [approach]
  dsimp only [Members.enter]
  rw [hnone]

theorem approach_stops (hG : G.Valid) {fuel : ℕ} {m : Members ℝ} (hd : Done G f tolerance t y fuel m h) :
    Stops (nextAB G f tolerance t y) (m.k 0, h) := by
  induction fuel generalizing m h with
  | zero => exact absurd rfl (hd m)
  | succ fuel ih =>
    refine predictor_stops hG hd.predictor_ne fun k1 h1 an hp hsecond he ha => ?_
    · -- the predictor has handed over k1 and h1
      cases ht : trial G f t y h1 (k1 0) with
      | error e => exact .here (by rw [next_late he ha, ht])
      | ok r =>
        obtain ⟨y0, fEnd, an1⟩ := r
        obtain ⟨k2, hl, hfirst, hr⟩ := (late_iff hG hsecond).1 ht
        by_cases ha1 : an1 > tolerance
        · have hnext : nextAB G f tolerance t y (k1 0, h1) =
              some (scaleFirst k2 (retryFactor tolerance an1) 0, h1 * retryFactor tolerance an1) := by
            rw [next_late he ha, ht, scaleFirst_zero, hfirst]
            exact if_pos ha1
          refine .again hnext (ih (m := { m.enter t y h with k := scaleFirst k2 (retryFactor tolerance an1) }) ?_)
          intro m' hm'
          refine hd m' ?_
          rw [approach]
          dsimp only [Members.enter] at hm' ⊢
          rw [hp]
          dsimp only
          rw [hl]
          dsimp only
          rw [hr]
          dsimp only
          rw [if_pos ha1]
          exact hm'
        · refine .here ?_
          rw [next_late he ha, ht]
          exact if_neg ha1

/-- two calls that come out of the loop 1a-2a alike end alike -/
theorem done_of_predictor (hG : G.Valid) {fuel : ℕ} {m m' : Members ℝ} {h' : ℝ}
    (hm : m.currentMethod = m'.currentMethod)
    (hcount : m.vnBreakCount = m'.vnBreakCount) (hjump : m.jumpToRadau5 = m'.jumpToRadau5)
    (hp : predictor G f tolerance t y (fuel + 1) m.k h = predictor G f tolerance t y (fuel + 1) m'.k h')
    (hd : Done G f tolerance t y (fuel + 1) m h) : Done G f tolerance t y (fuel + 1) m' h' := by
  unfold Done at hd ⊢
  rw [approach] at hd ⊢
  dsimp only [Members.enter] at hd ⊢
  rw [← hp]
  cases hr : predictor G f tolerance t y (fuel + 1) m.k h with
  | none =>
    rw [hr] at hd
    exact absurd rfl (hd _)
  | some r =>
    cases r with
    | error e =>
      intro m1 h1
      cases h1
    | ok r =>
      obtain ⟨k1, h1⟩ := r
      rw [hr] at hd
      dsimp only at hd ⊢
      cases hl : stageLoop f t y h1 [2, 3, 4, 5] k1 with
      | error e =>
        intro m1 h2
        cases h2
      | ok k2 =>
        rw [hl] at hd
        dsimp only at hd ⊢
        cases he : endPoint G f t y h1 k2 with
        | error e =>
          intro m1 h2
          cases h2
        | ok r =>
          obtain ⟨y0, fEnd, an1⟩ := r
          rw [he] at hd
          dsimp only at hd ⊢
          by_cases ha : an1 > tolerance
          · rw [if_pos ha] at hd ⊢
            have hsame : SameMembers 1
                { m with k := scaleFirst k2 (retryFactor tolerance an1), calls := m.calls ++ [⟨t, y, h, m.k 0⟩] }
                { m' with k := scaleFirst k2 (retryFactor tolerance an1), calls := m'.calls ++ [⟨t, y, h', m'.k 0⟩] } :=
              ⟨hm, hcount, hjump, fun _ _ => rfl⟩
            exact done_congr hG hsame hd
          · rw [if_neg ha]
            intro m1 h2
            cases h2

/-- a call whose An is within the tolerance ends when its recursive call, if it makes one, ends -/
theorem done_late (hG : G.Valid) {m : Members ℝ} {an : ℝ} (he : early G f t y (m.k 0, h) = .ok an)
    (ha : ¬ an > tolerance) {fuel : ℕ}
    (hrec : ∀ y0 fEnd an1, trial G f t y h (m.k 0) = .ok (y0, fEnd, an1) → an1 > tolerance →
      Done G f tolerance t y fuel { m with k := base ((m.k 0).map (· * retryFactor tolerance an1)) }
        (h * retryFactor tolerance an1)) : Done G f tolerance t y (fuel + 1) m h := by
  obtain ⟨k1, hk1, hsecond, hp⟩ := (early_ok hG tolerance he).2 ha
  unfold Done
  rw [approach]
  dsimp only [Members.enter]
  rw [hp fuel]
  dsimp only
  cases hl : stageLoop f t y h [2, 3, 4, 5] k1 with
  | error e =>
    intro m' h
    cases h
  | ok k2 =>
    dsimp only
    cases hr : endPoint G f t y h k2 with
    | error e =>
      intro m' h
      cases h
    | ok r =>
      obtain ⟨y0, fEnd, an1⟩ := r
      dsimp only
      have hfirst : k2 0 = k1 0 := stageLoop_before (m := 2) (r := 4) hl (by decide)
      by_cases ha1 : an1 > tolerance
      · rw [if_pos ha1]
        have ht : trial G f t y h (m.k 0) = .ok (y0, fEnd, an1) := hk1 ▸ (late_iff hG hsecond).2 ⟨k2, hl, hfirst, hr⟩
        have hsame : SameMembers 1 { m with k := base ((m.k 0).map (· * retryFactor tolerance an1)) }
            { m with k := scaleFirst k2 (retryFactor tolerance an1), calls := m.calls ++ [⟨t, y, h, m.k 0⟩] } := by
          refine ⟨rfl, rfl, rfl, sameBefore_one.2 ?_⟩
          dsimp only
          rw [base_zero, scaleFirst_zero, hfirst, hk1]
        exact done_congr hG hsame (hrec y0 fEnd an1 ht ha1)
      · rw [if_neg ha1]
        intro m' h
        cases h

theorem done_of_error (hG : G.Valid) {m : Members ℝ} {e : Exn} (he : early G f t y (m.k 0, h) = .error e) (fuel : ℕ) :
    Done G f tolerance t y (fuel + 1) m h := by
  obtain ⟨r, hp⟩ := early_error hG tolerance he fuel
  unfold Done
  rw [approach]
  dsimp only [Members.enter]
  rw [hp]
  intro m' h
  cases h

/-- a call whose An is above the tolerance ends when the call from the state of the retry does, with the same fuel and
with one unit less -/
theorem done_retry (hG : G.Valid) {m : Members ℝ} {an : ℝ} (he : early G f t y (m.k 0, h) = .ok an)
    (ha : an > tolerance) :
    ∃ k1, k1 0 = (m.k 0).map (· * retryFactor tolerance an) ∧ ∀ fuel,
      Done G f tolerance t y (fuel + 1) { m with k := k1 } (h * retryFactor tolerance an) →
      Done G f tolerance t y (fuel + 2) { m with k := k1 } (h * retryFactor tolerance an) →
      Done G f tolerance t y (fuel + 2) m h := by
  obtain ⟨k1, hk1, hp⟩ := (early_ok hG tolerance he).1 ha
  refine ⟨k1, hk1, fun fuel hless hdone => ?_⟩
  obtain ⟨r, hr⟩ := Option.ne_none_iff_exists'.1 hless.predictor_ne
  have hsame : predictor G f tolerance t y (fuel + 1 + 1) k1 (h * retryFactor tolerance an) =
      predictor G f tolerance t y (fuel + 1 + 1) m.k h := by
    rw [hp, hr]
    exact predictor_mono hr
  exact done_of_predictor (m := { m with k := k1 }) hG rfl rfl rfl hsame hdone

theorem done_of_stops (hG : G.Valid) {s : Vec ℝ × ℝ} (hs : Stops (nextAB G f tolerance t y) s) {m : Members ℝ}
    (hm : m.k 0 = s.1) : ∃ least, ∀ fuel, least ≤ fuel → Done G f tolerance t y fuel m s.2 := by
  induction hs generalizing m with
  | @here s hnext =>
    refine ⟨1, fun fuel hfuel => ?_⟩
    obtain ⟨fuel, rfl⟩ := Nat.exists_eq_add_of_le' hfuel
    obtain ⟨first, h⟩ := s
    dsimp only at hm ⊢
    subst hm
    cases he : early G f t y (m.k 0, h) with
    | error e => exact done_of_error hG he fuel
    | ok an =>
      by_cases ha : an > tolerance
      · simp only [nextAB, he, if_pos ha] at hnext
        cases hnext
      · refine done_late hG he ha fun y0 fEnd an1 ht ha1 => ?_
        rw [next_late he ha, ht] at hnext
        simp only [if_pos ha1] at hnext
        cases hnext
  | @again s s' hnext _ ih =>
    obtain ⟨first, h⟩ := s
    dsimp only at hm ⊢
    subst hm
    cases he : early G f t y (m.k 0, h) with
    | error e =>
      rw [nextAB, he] at hnext
      cases hnext
    | ok an =>
      by_cases ha : an > tolerance
      · -- a retry of the loop 1a-2a
        simp only [nextAB, he, if_pos ha, scale] at hnext
        cases hnext
        obtain ⟨k1, hk1, hretry⟩ := done_retry hG he ha
        obtain ⟨least, hleast⟩ := ih (m := { m with k := k1 }) hk1
        refine ⟨least + 2, fun fuel hfuel => ?_⟩
        obtain ⟨fuel, rfl⟩ := Nat.exists_eq_add_of_le' hfuel
        exact hretry (fuel + least) (hleast _ (by omega)) (hleast _ (by omega))
      · -- a recursive call
        rw [next_late he ha] at hnext
        cases ht : trial G f t y h (m.k 0) with
        | error e => rw [ht] at hnext; cases hnext
        | ok r =>
          obtain ⟨y0, fEnd, an1⟩ := r
          rw [ht] at hnext
          dsimp only at hnext
          split_ifs at hnext with ha1
          cases hnext
          obtain ⟨least, hleast⟩ := ih (m := { m with k := base ((m.k 0).map (· * retryFactor tolerance an1)) })
            (base_zero _)
          refine ⟨least + 1, fun fuel hfuel => ?_⟩
          obtain ⟨fuel, rfl⟩ := Nat.exists_eq_add_of_le' hfuel
          refine done_late hG he ha fun y1 f1 a1 ht1 _ => ?_
          rw [ht] at ht1
          cases ht1
          exact hleast (fuel + least) (by omega)

/-- **One search.** A call of StepDISPFA or StepDISPFB ends exactly when the retries from its first stage and h stop. -/
theorem approach_ends_iff (hG : G.Valid) (m : Members ℝ) (h : ℝ) :
    (∃ fuel, Done G f tolerance t y fuel m h) ↔ Stops (nextAB G f tolerance t y) (m.k 0, h) := by
  constructor
  · rintro ⟨fuel, hd⟩
    exact approach_stops hG hd
  · intro hs
    obtain ⟨least, hleast⟩ := done_of_stops hG hs rfl
    exact ⟨least, hleast least le_rfl⟩

end AB

/-! ## StepDISPFC -/

section C

open DISPFSolver

/-- Cn1 of an attempt -/
noncomputable def errorC (f : Rhs ℝ) (t : ℝ) (y : Vec ℝ) (s : Vec ℝ × ℝ) : Except Exn ℝ :=
  match stageLoop f t y s.2 [1, 2, 3, 4, 5] (base s.1) with
  | .error (e, _) => .error e
  | .ok k => do return (← embeddedDifference y.length k) * (17.0 / 24.0)

noncomputable def nextC (f : Rhs ℝ) (tolerance t : ℝ) (y : Vec ℝ) (s : Vec ℝ × ℝ) : Option (Vec ℝ × ℝ) :=
  match errorC f t y s with
  | .error _ => none
  | .ok cn1 => if cn1 > tolerance then some (scale s (retryFactor tolerance cn1)) else none

variable {k : Stages ℝ}

theorem stageLoopC_base (k k1 : Stages ℝ) :
    stageLoop f t y h [1, 2, 3, 4, 5] k = .ok k1 ↔ stageLoop f t y h [1, 2, 3, 4, 5] (base (k 0)) = .ok k1 := by
  have hk : ∀ j : Fin 6, j.val < 1 → k j = base (k 0) j := by
    intro j hj
    rw [show j = 0 from Fin.ext (Nat.lt_one_iff.1 hj), base_zero]
  exact ⟨stageLoop_full (m := 1) (r := 5) rfl hk, stageLoop_full (m := 1) (r := 5) rfl fun j hj => (hk j hj).symm⟩

theorem errorC_error (tolerance : ℝ) {e : Exn} (he : errorC f t y (k 0, h) = .error e) (fuel : ℕ) :
    ∃ r, approachC f tolerance t y (fuel + 1) k h = some (.error r) := by
  unfold errorC at he
  dsimp only at he
  unfold approachC
  cases hl : stageLoop f t y h [1, 2, 3, 4, 5] k with
  | error r => exact ⟨_, rfl⟩
  | ok k1 =>
    rw [(stageLoopC_base k k1).1 hl] at he
    dsimp only at he ⊢
    cases hd : embeddedDifference y.length k1 with
    | error e => exact ⟨_, rfl⟩
    | ok d => rw [hd] at he; cases he

theorem errorC_ok (tolerance : ℝ) {cn1 : ℝ} (he : errorC f t y (k 0, h) = .ok cn1) :
    ∃ k1, k1 0 = k 0 ∧ ∀ fuel, approachC f tolerance t y (fuel + 1) k h =
      if cn1 > tolerance then
        approachC f tolerance t y fuel (scaleFirst k1 (retryFactor tolerance cn1)) (h * retryFactor tolerance cn1)
      else some (.ok (k1, h)) := by
  unfold errorC at he
  dsimp only at he
  cases hl : stageLoop f t y h [1, 2, 3, 4, 5] (base (k 0)) with
  | error r => rw [hl] at he; cases he
  | ok k1 =>
    rw [hl] at he
    dsimp only at he
    obtain ⟨d, hd, he⟩ := bind_eq_ok.1 he
    cases he
    have hloop := (stageLoopC_base k k1).2 hl
    refine ⟨k1, stageLoop_before (m := 1) (r := 5) hloop (by decide), fun fuel => ?_⟩
    simp only [approachC, hloop, hd]

/-- **One search.** The loop of StepDISPFC ends exactly when the retries from its first stage and h stop. -/
theorem approachC_ends_iff (k : Stages ℝ) (h : ℝ) :
    (∃ fuel, approachC f tolerance t y fuel k h ≠ none) ↔ Stops (nextC f tolerance t y) (k 0, h) := by
  refine stops_iff_fuel (p := fun x : Stages ℝ × ℝ => (x.1 0, x.2))
    (D := fun fuel x => approachC f tolerance t y fuel x.1 x.2 ≠ none) (fun _ hd => hd rfl) ?_ ?_ (k, h)
  · rintro fuel ⟨k, h⟩ hnext
    dsimp only at hnext ⊢
    cases he : errorC f t y (k 0, h) with
    | error e =>
      obtain ⟨r, hr⟩ := errorC_error tolerance he fuel
      rw [hr]
      exact Option.some_ne_none _
    | ok cn1 =>
      obtain ⟨k1, -, hp⟩ := errorC_ok tolerance he
      rw [nextC, he] at hnext
      dsimp only at hnext
      split_ifs at hnext with ha
      rw [hp fuel, if_neg ha]
      exact Option.some_ne_none _
  · rintro ⟨k, h⟩ s' hnext
    dsimp only at hnext
    cases he : errorC f t y (k 0, h) with
    | error e =>
      rw [nextC, he] at hnext
      cases hnext
    | ok cn1 =>
      obtain ⟨k1, hk1, hp⟩ := errorC_ok tolerance he
      rw [nextC, he] at hnext
      dsimp only at hnext
      split_ifs at hnext with ha
      cases hnext
      refine ⟨(scaleFirst k1 (retryFactor tolerance cn1), h * retryFactor tolerance cn1), ?_, fun fuel => ?_⟩
      · dsimp only
        rw [scaleFirst_zero, hk1]
        rfl
      · dsimp only
        rw [hp fuel, if_pos ha]

end C

/-! ## DISPF on fields -/

section Field

open DISPFSolver

variable {G : Formula ℝ} {v v0 : Fin n → ℝ} {h0 : ℝ}

theorem scale_ofFn (v : Fin n → ℝ) (h c : ℝ) : scale (List.ofFn v, h) c = (List.ofFn (c • v), c * h) := by
  rw [scale, List.map_ofFn, mul_comm]
  refine congrArg (·, c * h) (congrArg List.ofFn (funext fun i => ?_))
  rw [Function.comp_apply, Pi.smul_apply, smul_eq_mul, mul_comm]

theorem retryFactor_le (tolerance error : ℝ) : retryFactor tolerance error ≤ 0.9 := min_le_left _ _

/-- a search whose retries multiply the first stage and h by a retry factor stops when small multiples need no retry -/
theorem scaled_stops {next : Vec ℝ × ℝ → Option (Vec ℝ × ℝ)}
    (hnext : ∀ s s', next s = some s' → ∃ e, s' = scale s (retryFactor tolerance e))
    (hsmall : ∃ b, 0 < b ∧ ∀ c, 0 < c → c ≤ b → next (List.ofFn (c • v0), c * h0) = none) (hh0 : 0 < h0) :
    Stops next (List.ofFn v0, h0) := by
  obtain ⟨b, hb0, hb⟩ := hsmall
  refine stops_of_shrinking (I := fun s => ∃ c, 0 < c ∧ s = (List.ofFn (c • v0), c * h0)) Prod.snd
    (by norm_num : (0 : ℝ) ≤ 0.9) (by norm_num) (mul_pos hb0 hh0) ⟨1, one_pos, by rw [one_smul, one_mul]⟩ ?_ ?_
  · rintro s s' ⟨c, hc, rfl⟩ hs'
    obtain ⟨e, rfl⟩ := hnext _ _ hs'
    rw [scale_ofFn, smul_smul, ← mul_assoc]
    refine ⟨⟨_, mul_pos (retryFactor_pos tolerance e) hc, rfl⟩, ?_⟩
    rw [mul_assoc]
    exact mul_le_mul_of_nonneg_right (retryFactor_le tolerance e) (mul_pos hc hh0).le
  · rintro s ⟨c, hc, rfl⟩ hs
    exact hb c hc (le_of_mul_le_mul_right hs hh0)

/-- the attempt with h and first stage multiplied by a small c: all it computes has a bound q, as small as wanted, and
its points stay within r of (t, u) -/
theorem small_attempt {t : ℝ} {u : Fin n → ℝ} (hF : BoundedNear F t u) (v0 : Fin n → ℝ) (hh0 : 0 < h0)
    (p : List ℝ) {S : ℝ} (hS : 0 ≤ S) (htol : 0 < tolerance) :
    ∃ r b, 0 < r ∧ 0 < b ∧ ∀ c, 0 < c → c ≤ b →
      ∃ q, 0 ≤ q ∧ q ≤ r ∧ q * S ≤ min r tolerance ∧ ‖c • v0‖ ≤ q ∧ c * h0 ≤ q ∧
      (∀ τ x, |τ - t| ≤ r → ‖x - u‖ ≤ r → ‖(c * h0) • F τ x‖ ≤ q) ∧
      ∀ K : Fin 6 → Fin n → ℝ, K 0 = c • v0 →
        (∀ j : Fin 6, 1 ≤ j.val → K j = (c * h0) •
          F (t + (tableauDISPF p).c j * (c * h0)) (u + ∑ l, (tableauDISPF p).a j l • K l)) → ∀ j, ‖K j‖ ≤ q := by
  obtain ⟨r, M, hr, hM0, hM⟩ := hF.ball
  let Sc := ∑ i, |(tableauDISPF p).c i|
  let Sa := ∑ i, ∑ j, |(tableauDISPF p).a i j|
  have hSc : 0 ≤ Sc := Finset.sum_nonneg fun i _ => abs_nonneg _
  have hSa : 0 ≤ Sa := Finset.sum_nonneg fun i _ => Finset.sum_nonneg fun j _ => abs_nonneg _
  let B := ‖v0‖ + h0 * (M + 1)
  have hB : 0 < B := by positivity
  have hSum : 0 < S + Sc + Sa + 1 := by positivity
  refine ⟨r, min r tolerance / (B * (S + Sc + Sa + 1)), hr, by positivity, fun c hc hcb => ?_⟩
  have hq0 : 0 ≤ c * B := by positivity
  have hq : c * B * (S + Sc + Sa + 1) ≤ min r tolerance := by
    rw [mul_assoc]
    exact (le_div_iff₀ (by positivity)).1 hcb
  have hqS : 0 ≤ c * B * S := mul_nonneg hq0 hS
  have hqc : 0 ≤ c * B * Sc := mul_nonneg hq0 hSc
  have hqa : 0 ≤ c * B * Sa := mul_nonneg hq0 hSa
  have hsplit : c * B * S + c * B * Sc + c * B * Sa + c * B ≤ min r tolerance := by linarith
  have hle : min r tolerance ≤ r := min_le_left _ _
  have hv : ‖c • v0‖ ≤ c * B := by
    rw [norm_smul_of_nonneg hc.le]
    exact mul_le_mul_of_nonneg_left (le_add_of_nonneg_right (by positivity)) hc.le
  have hchM : c * h0 * M ≤ c * B := by
    rw [mul_assoc]
    refine mul_le_mul_of_nonneg_left ?_ hc.le
    have : 0 ≤ ‖v0‖ := norm_nonneg v0
    linarith
  have hch : c * h0 ≤ c * B := by
    refine mul_le_mul_of_nonneg_left ?_ hc.le
    have h1 : 0 ≤ h0 * M := mul_nonneg hh0.le hM0
    have h2 : 0 ≤ ‖v0‖ := norm_nonneg v0
    linarith
  have hch0 : 0 ≤ c * h0 := by positivity
  refine ⟨c * B, hq0, by linarith, by linarith, hv, hch, fun τ x hτ hx => ?_, fun K hK0 hK => ?_⟩
  · rw [norm_smul_of_nonneg hch0]
    exact (mul_le_mul_of_nonneg_left (hM τ x hτ hx) hch0).trans hchM
  · refine stages_le (t := t) (y := u) (tableauDISPF_explicit p) hM hch0 ?_ ?_ hq0 hchM fun i => ?_
    · have hcle : Sc * (c * h0) ≤ c * B * Sc := by
        rw [mul_comm]
        exact mul_le_mul_of_nonneg_right hch hSc
      linarith
    · have hcle : Sa * (c * B) = c * B * Sa := mul_comm _ _
      linarith
    · rcases Nat.eq_zero_or_pos i.val with hi | hi
      · rw [show i = 0 from Fin.ext hi, hK0]
        exact Or.inl hv
      · exact Or.inr (hK i hi)

theorem coef_pos (hG : G = formulaA ∨ G = formulaB) : 0 < G.coef := by
  rcases hG with rfl | rfl
  · norm_num [formulaA, CA1A]
  · norm_num [formulaB, CA1B, dCoef]

theorem early_ofFn (hf : Computes F f) (hG : G = formulaA ∨ G = formulaB) (v : Fin n → ℝ) (h : ℝ) :
    early G f t (List.ofFn u) (List.ofFn v, h) =
      .ok (‖h • F (t + 0.25 * h) (u + (1.0 / 4.0 : ℝ) • v) - v‖ * G.coef) := by
  have hsecond := secondStage_ofFn (t := t) (y := u) (h := h) (K := fun _ => v) hf G.p hG (base_zero (List.ofFn v))
  rw [tableauDISPF_c_one, tableauDISPF_second] at hsecond
  have hd : (maxOver n fun i => do
      return |(← read (List.ofFn (h • F (t + 0.25 * h) (u + (1.0 / 4.0 : ℝ) • v))) i) - (← read (List.ofFn v) i)|) =
      .ok ‖h • F (t + 0.25 * h) (u + (1.0 / 4.0 : ℝ) • v) - v‖ := by
    refine maxOver_ofFn fun i => ?_
    rw [read_ofFn, ok_bind, read_ofFn, ok_bind, except_pure, Pi.sub_apply]
  unfold early
  dsimp only
  rw [hsecond, ok_bind, List.length_ofFn, hd, ok_bind, except_pure]

/-- the stages K of DISPF with step h from (t, u), where the first one is given -/
def IsStages (F : ℝ → (Fin n → ℝ) → Fin n → ℝ) (t : ℝ) (u : Fin n → ℝ) (h : ℝ) (K : Fin 6 → Fin n → ℝ) : Prop :=
  ∀ j : Fin 6, 1 ≤ j.val →
    K j = h • F (t + (tableauDISPF []).c j * h) (u + ∑ l, (tableauDISPF []).a j l • K l)

/-- An and An1 of an attempt on a field -/
theorem estimatesAB (hf : Computes F f) (hG : G = formulaA ∨ G = formulaB) (t : ℝ) (u v : Fin n → ℝ) (h : ℝ) :
    ∃ K, K 0 = v ∧ IsStages F t u h K ∧
      early G f t (List.ofFn u) (List.ofFn v, h) = .ok (‖K 1 - K 0‖ * G.coef) ∧
      ∃ y0 fEnd, trial G f t (List.ofFn u) h (List.ofFn v) =
        .ok (y0, fEnd, ‖h • F (t + h) (u + ∑ j, (tableauDISPF G.p).p j • K j) - K 0‖ * G.coef) := by
  obtain ⟨K, hK0, hK, htrial⟩ := trial_ofFn (t := t) (y := u) (h := h) hf hG v
  refine ⟨K, hK0, hK, ?_, _, _, by rw [hK0]; exact htrial⟩
  have h1 : K 1 = _ := hK 1 le_rfl
  rw [tableauDISPF_c_one, tableauDISPF_second, hK0] at h1
  rw [early_ofFn hf hG, h1, hK0]

theorem nextAB_scale {s s' : Vec ℝ × ℝ} (hs : nextAB G f tolerance t y s = some s') :
    ∃ e, s' = scale s (retryFactor tolerance e) := by
  unfold nextAB at hs
  split at hs
  · cases hs
  · split_ifs at hs
    · cases hs
      exact ⟨_, rfl⟩
    · split at hs
      · cases hs
      · split_ifs at hs
        cases hs
        exact ⟨_, rfl⟩

/-- with a positive tolerance a short attempt needs no retry -/
theorem nextAB_small (hF : BoundedNear F t u) (hf : Computes F f)
    (hG : G = formulaA ∨ G = formulaB) (v0 : Fin n → ℝ) (hh0 : 0 < h0) (htol : 0 < tolerance) :
    ∃ b, 0 < b ∧ ∀ c, 0 < c → c ≤ b →
      nextAB G f tolerance t (List.ofFn u) (List.ofFn (c • v0), c * h0) = none := by
  have hcoef := coef_pos hG
  have hSp : 0 ≤ ∑ j, |(tableauDISPF G.p).p j| := Finset.sum_nonneg fun i _ => abs_nonneg _
  obtain ⟨r, b, hr, hb, hsmall⟩ := small_attempt hF v0 hh0 G.p
    (S := 2 * G.coef + ∑ j, |(tableauDISPF G.p).p j|) (by positivity) htol
  refine ⟨b, hb, fun c hc hcb => ?_⟩
  obtain ⟨q, hq0, hqr, hqS, hv, hch, hstage, hK⟩ := hsmall c hc hcb
  have hch0 : 0 < c * h0 := mul_pos hc hh0
  have hqcoef : q * (2 * G.coef) ≤ tolerance := by
    have h1 : 0 ≤ q * ∑ j, |(tableauDISPF G.p).p j| := mul_nonneg hq0 hSp
    linarith [min_le_right r tolerance]
  have hqp : q * ∑ j, |(tableauDISPF G.p).p j| ≤ r := by
    have h1 : 0 ≤ q * (2 * G.coef) := by positivity
    linarith [min_le_left r tolerance]
  -- both estimates compare two vectors below q
  have hestimate : ∀ τ x, |τ - t| ≤ r → ‖x - u‖ ≤ r → ‖(c * h0) • F τ x - c • v0‖ * G.coef ≤ tolerance := by
    intro τ x hτ hx
    have hle : ‖(c * h0) • F τ x - c • v0‖ ≤ 2 * q := (norm_sub_le _ _).trans (by linarith [hstage τ x hτ hx])
    calc ‖(c * h0) • F τ x - c • v0‖ * G.coef ≤ 2 * q * G.coef := mul_le_mul_of_nonneg_right hle hcoef.le
      _ = q * (2 * G.coef) := by ring
      _ ≤ tolerance := hqcoef
  have htime : ∀ a : ℝ, 0 ≤ a → a ≤ 1 → |t + a * (c * h0) - t| ≤ r := by
    intro a ha0 ha1
    rw [add_sub_cancel_left, abs_of_nonneg (by positivity)]
    exact (mul_le_of_le_one_left hch0.le ha1).trans (hch.trans hqr)
  have hearly := early_ofFn (t := t) (u := u) hf hG (c • v0) (c * h0)
  have han : ¬ ‖(c * h0) • F (t + 0.25 * (c * h0)) (u + (1.0 / 4.0 : ℝ) • c • v0) - c • v0‖ * G.coef > tolerance := by
    refine not_lt.2 (hestimate _ _ (htime 0.25 (by norm_num) (by norm_num)) ?_)
    rw [add_sub_cancel_left, norm_smul_of_nonneg (by norm_num)]
    norm_num
    linarith [norm_nonneg (c • v0)]
  obtain ⟨K, hK0, hKj, htrial⟩ := trial_ofFn (t := t) (y := u) (h := c * h0) hf hG (c • v0)
  have hKq := hK K hK0 hKj
  have han1 : ¬ ‖(c * h0) • F (t + c * h0) (u + ∑ j, (tableauDISPF G.p).p j • K j) - c • v0‖ * G.coef > tolerance := by
    have ht := htime 1 zero_le_one le_rfl
    rw [one_mul] at ht
    refine not_lt.2 (hestimate _ _ ht ?_)
    rw [add_sub_cancel_left]
    refine (norm_sum_smul_le fun j => Or.inr (hKq j)).trans ?_
    rw [mul_comm]
    exact hqp
  unfold nextAB
  rw [hearly]
  dsimp only
  rw [if_neg han, htrial]
  exact if_neg han1

/-! ## StepDISPFC on fields -/

/-- the weights of the difference of the embedded formulas -/
noncomputable def embedded (j : Fin 6) : ℝ := (P36 : List ℝ).getD j 0 - P4.getD j 0

theorem errorC_ofFn (hf : Computes F f) (t : ℝ) (u v : Fin n → ℝ) (h : ℝ) :
    ∃ K, K 0 = v ∧ IsStages F t u h K ∧
      errorC f t (List.ofFn u) (List.ofFn v, h) = .ok (‖∑ j, embedded j • K j‖ * (17.0 / 24.0)) := by
  have hk : ∀ j : Fin 6, j.val < 1 → base (List.ofFn v) j = List.ofFn v := by
    intro j hj
    rw [show j = 0 from Fin.ext (Nat.lt_one_iff.1 hj), base_zero]
  obtain ⟨k, K, hloop, hold, hnew, hcols⟩ :=
    stageLoop_ofFn (t := t) (y := u) (h := h) (K := fun _ => v) hf [] (m := 1) (r := 5) le_rfl (by norm_num) hk
  refine ⟨K, hold 0 (by decide), fun j hj => hnew j hj j.isLt, ?_⟩
  rw [show List.range' 1 5 = [1, 2, 3, 4, 5] from rfl] at hloop
  unfold errorC
  dsimp only
  rw [hloop]
  dsimp only
  rw [List.length_ofFn, embeddedDifference_ofFn fun j => hcols j j.isLt, ok_bind, except_pure]
  rfl

theorem nextC_scale {s s' : Vec ℝ × ℝ} (hs : nextC f tolerance t y s = some s') :
    ∃ e, s' = scale s (retryFactor tolerance e) := by
  unfold nextC at hs
  split at hs
  · cases hs
  · split_ifs at hs
    cases hs
    exact ⟨_, rfl⟩

theorem nextC_small (hF : BoundedNear F t u) (hf : Computes F f) (v0 : Fin n → ℝ) (hh0 : 0 < h0)
    (htol : 0 < tolerance) :
    ∃ b, 0 < b ∧ ∀ c, 0 < c → c ≤ b → nextC f tolerance t (List.ofFn u) (List.ofFn (c • v0), c * h0) = none := by
  have hSw : 0 ≤ ∑ j, |embedded j| := Finset.sum_nonneg fun j _ => abs_nonneg _
  obtain ⟨r, b, -, hb, hsmall⟩ := small_attempt hF v0 hh0 [] hSw htol
  refine ⟨b, hb, fun c hc hcb => ?_⟩
  obtain ⟨q, hq0, -, hqS, -, -, -, hq⟩ := hsmall c hc hcb
  obtain ⟨K, hK0, hK, herror⟩ := errorC_ofFn hf t u (c • v0) (c * h0)
  have hsum : ‖∑ j, embedded j • K j‖ ≤ tolerance := by
    refine (norm_sum_smul_le fun j => Or.inr (hq K hK0 hK j)).trans ?_
    rw [mul_comm]
    exact hqS.trans (min_le_right _ _)
  have hcn1 : ¬ ‖∑ j, embedded j • K j‖ * (17.0 / 24.0) > tolerance :=
    not_lt.2 ((mul_le_of_le_one_right (norm_nonneg _) (by norm_num)).trans hsum)
  unfold nextC
  rw [herror]
  exact if_neg hcn1

end Field

end OdeClientServer.Retries
