/-
What the retries of RK2 and DISPF return with a positive tolerance, when the field is bounded around the point that the
step starts from. `Retries` shows that the retries come to an end; on a field nothing in a step throws, so each routine
returns, and the attempt it returns has its estimates within the tolerance.

- `rk2_settles`: error1 and error2 of the returned attempt.
- `approach_within`: An and An1, also when the routine has called itself.
- `retries_settle`: RK2 and the three routines of DISPF, for every cached first stage.
-/
import OdeClientServer.Results.Retries

namespace OdeClientServer.Settling

open Retries Retry Tableaux

variable {n : ℕ} {F : ℝ → (Fin n → ℝ) → Fin n → ℝ} {f : Rhs ℝ} {tolerance t h : ℝ} {u : Fin n → ℝ}

/-! ## RK2 -/

section RK2

open RK2Solver

/-- an attempt on a field, with its two errors -/
theorem attempt_errors (hf : Computes F f) (t : ℝ) (u : Fin n → ℝ) (h : ℝ) :
    ∃ next, attempt f t (List.ofFn u) h = .ok (next, max (error1 F t u h) (error2 F t u h)) :=
  attempt_ofFn hf t u h

/-- `RK2Solver::Step` returns, and whatever it returns is an attempt with both errors within the tolerance -/
structure SettlesRK2 (F : ℝ → (Fin n → ℝ) → Fin n → ℝ) (f : Rhs ℝ) (tolerance t : ℝ) (u : Fin n → ℝ) (h : ℝ) :
    Prop where
  returns : ∃ fuel y' h' g, RK2Solver.step f tolerance t (List.ofFn u) fuel h = .returned () y' h' g
  within : ∀ fuel y' h' g, RK2Solver.step f tolerance t (List.ofFn u) fuel h = .returned () y' h' g →
    0 < g ∧ g ≤ h ∧ attempt f t (List.ofFn u) g = .ok (y', max (error1 F t u g) (error2 F t u g)) ∧
      error1 F t u g ≤ tolerance ∧ error2 F t u g ≤ tolerance

theorem step_retry {e : ℝ} {next : Vec ℝ} {fuel : ℕ}
    (ha : attempt f t (List.ofFn u) h = .ok (next, e)) (he : ¬ e ≤ tolerance) {h' : ℝ}
    (hnext : nextRK2 f tolerance t (List.ofFn u) h = some h') :
    RK2Solver.step f tolerance t (List.ofFn u) (fuel + 1) h = RK2Solver.step f tolerance t (List.ofFn u) fuel h' := by
  simp only [nextRK2, ha, if_neg he, Option.some.injEq] at hnext
  simp only [RK2Solver.step, ha, if_neg he, hnext]

theorem nextRK2_of_not_le {e : ℝ} {next : Vec ℝ} (ha : attempt f t (List.ofFn u) h = .ok (next, e))
    (he : ¬ e ≤ tolerance) : ∃ h', nextRK2 f tolerance t (List.ofFn u) h = some h' := by
  simp only [nextRK2, ha, if_neg he]
  exact ⟨_, rfl⟩

theorem rk2_returns (hf : Computes F f) (hs : Stops (nextRK2 f tolerance t (List.ofFn u)) h) :
    ∃ fuel y' h' g, RK2Solver.step f tolerance t (List.ofFn u) fuel h = .returned () y' h' g := by
  induction hs with
  | @here s hnext =>
    obtain ⟨next, ha⟩ := attempt_errors hf t u s
    have he : max (error1 F t u s) (error2 F t u s) ≤ tolerance := by
      by_contra he
      obtain ⟨h', h1⟩ := nextRK2_of_not_le ha he
      rw [hnext] at h1
      cases h1
    refine ⟨1, next, ?_⟩
    simp only [RK2Solver.step, ha, if_pos he]
    exact ⟨_, _, rfl⟩
  | @again s s' hnext _ ih =>
    obtain ⟨next, ha⟩ := attempt_errors hf t u s
    have he : ¬ max (error1 F t u s) (error2 F t u s) ≤ tolerance := by
      intro he
      simp only [nextRK2, ha, if_pos he] at hnext
      cases hnext
    obtain ⟨fuel, y', h', g, hstep⟩ := ih
    exact ⟨fuel + 1, y', h', g, (step_retry ha he hnext).trans hstep⟩

theorem rk2_within (hf : Computes F f) (htol : 0 < tolerance) {fuel : ℕ} {y' : Vec ℝ} {h' g : ℝ} (hh : 0 < h)
    (hstep : RK2Solver.step f tolerance t (List.ofFn u) fuel h = .returned () y' h' g) :
    0 < g ∧ g ≤ h ∧ attempt f t (List.ofFn u) g = .ok (y', max (error1 F t u g) (error2 F t u g)) ∧
      error1 F t u g ≤ tolerance ∧ error2 F t u g ≤ tolerance := by
  induction fuel generalizing h with
  | zero => cases hstep
  | succ fuel ih =>
    obtain ⟨next, ha⟩ := attempt_errors hf t u h
    by_cases he : max (error1 F t u h) (error2 F t u h) ≤ tolerance
    · simp only [RK2Solver.step, ha, if_pos he] at hstep
      cases hstep
      exact ⟨hh, le_rfl, ha, (le_max_left _ _).trans he, (le_max_right _ _).trans he⟩
    · obtain ⟨h1, hnext⟩ := nextRK2_of_not_le ha he
      obtain ⟨hpos, hle⟩ := nextRK2_shrinks hf htol hh hnext
      rw [step_retry ha he hnext] at hstep
      obtain ⟨i1, i2, irest⟩ := ih hpos hstep
      exact ⟨i1, by norm_num at hle; linarith, irest⟩

theorem rk2_settles (hF : BoundedNear F t u) (hf : Computes F f) (htol : 0 < tolerance) (hh : 0 < h) :
    SettlesRK2 F f tolerance t u h :=
  ⟨rk2_returns hf (rk2_stops hF hf htol hh), fun _ _ _ _ hstep => rk2_within hf htol hh hstep⟩

end RK2

/-! ## StepDISPFA and StepDISPFB -/

section AB

open DISPFSolver

variable {G : Formula ℝ} {y : Vec ℝ} {k : Stages ℝ} {v : Fin n → ℝ}

/-- the loop 1a-2a hands over a matrix whose An is within the tolerance -/
theorem predictor_within (hG : G.Valid) {fuel : ℕ} {k' : Stages ℝ} {h' : ℝ}
    (hp : predictor G f tolerance t y fuel k h = some (.ok (k', h'))) :
    ∃ an, early G f t y (k' 0, h') = .ok an ∧ an ≤ tolerance := by
  induction fuel generalizing k h with
  | zero => cases hp
  | succ fuel ih =>
    cases he : early G f t y (k 0, h) with
    | error e =>
      obtain ⟨r, hr⟩ := early_error hG tolerance he fuel
      rw [hr] at hp
      cases hp
    | ok an =>
      obtain ⟨hgt, hle⟩ := early_ok hG tolerance he
      by_cases ha : an > tolerance
      · obtain ⟨k1, -, hnext⟩ := hgt ha
        rw [hnext fuel] at hp
        exact ih hp
      · obtain ⟨k1, hk1, -, hend⟩ := hle ha
        rw [hend fuel] at hp
        cases hp
        exact ⟨an, by rw [hk1]; exact he, not_lt.1 ha⟩

/-- the accepted attempt of a call, late rejections and recursive calls included, has An within the tolerance -/
theorem approach_within (hG : G.Valid) {fuel : ℕ} {m : Members ℝ} {a : Accepted ℝ}
    (ha : approach G f tolerance t y fuel m h = .accepted a) :
    ∃ an, early G f t y (a.mem.k 0, a.h) = .ok an ∧ an ≤ tolerance := by
  induction fuel generalizing m h with
  | zero => cases ha
  | succ fuel ih =>
    unfold approach at ha
    dsimp only at ha
    split at ha
    · cases ha
    · cases ha
    · rename_i k1 h1 hp
      split at ha
      · cases ha
      · rename_i k2 hs
        have hfirst : k2 0 = k1 0 := stageLoop_before (m := 2) (r := 4) hs (by decide)
        split at ha
        · cases ha
        · split_ifs at ha
          · exact ih ha
          · cases ha
            dsimp only
            rw [hfirst]
            exact predictor_within hG hp

/-- on a field the loop 1a-2a does not throw -/
theorem predictor_field (tolerance t h : ℝ) (u : Fin n → ℝ) (hf : Computes F f) (hG : G = formulaA ∨ G = formulaB)
    (hV : G.Valid) (hk : k 0 = List.ofFn v) (fuel : ℕ) : predictor G f tolerance t (List.ofFn u) fuel k h = none ∨
      ∃ k' h', predictor G f tolerance t (List.ofFn u) fuel k h = some (.ok (k', h')) := by
  induction fuel generalizing h k v with
  | zero => exact Or.inl rfl
  | succ fuel ih =>
    have he := early_ofFn (t := t) (u := u) hf hG v h
    rw [← hk] at he
    obtain ⟨hgt, hle⟩ := early_ok hV tolerance he
    rcases lt_or_ge tolerance (‖h • F (t + 0.25 * h) (u + (1.0 / 4.0 : ℝ) • v) - v‖ * G.coef) with hlt | hge
    · obtain ⟨k1, hk1, hnext⟩ := hgt hlt
      rw [hnext fuel]
      have hscaled : k1 0 = List.ofFn (fun i => v i * retryFactor tolerance
          (‖h • F (t + 0.25 * h) (u + (1.0 / 4.0 : ℝ) • v) - v‖ * G.coef)) := by
        rw [hk1, hk, List.map_ofFn]
        rfl
      exact ih _ hscaled
    · obtain ⟨k1, -, -, hend⟩ := hle (not_lt.2 hge)
      exact Or.inr ⟨k1, h, hend fuel⟩

/-- the rest of an attempt on a field, from the second stage on -/
theorem attempt_field (hf : Computes F f) (hG : G = formulaA ∨ G = formulaB) {k1 : Stages ℝ}
    (hk : k1 0 = List.ofFn v) (hsecond : secondStage G f t (List.ofFn u) h k1 = .ok (k1 1)) :
    ∃ (k2 : Stages ℝ) (K : Fin 6 → Fin n → ℝ) (z w : Fin n → ℝ) (an1 : ℝ),
      stageLoop f t (List.ofFn u) h [2, 3, 4, 5] k1 = .ok k2 ∧ (∀ j, k2 j = List.ofFn (K j)) ∧
      endPoint G f t (List.ofFn u) h k2 = .ok (List.ofFn z, List.ofFn w, an1) := by
  let K0 : Fin 6 → Fin n → ℝ := fun _ => v
  let second := h • F (t + (tableauDISPF G.p).c 1 * h) (u + ∑ l, (tableauDISPF G.p).a 1 l • K0 l)
  have hk1 : k1 1 = List.ofFn second := by
    have hcol := secondStage_ofFn (t := t) (y := u) (h := h) (K := K0) hf G.p hG hk
    rw [hsecond, Except.ok.injEq] at hcol
    exact hcol
  have hcols : ∀ j : Fin 6, j.val < 2 → k1 j = List.ofFn (Function.update K0 1 second j) := by
    intro j hj
    rcases Nat.lt_succ_iff_lt_or_eq.1 hj with hlt | heq
    · have hj0 : j = 0 := Fin.ext (Nat.lt_one_iff.1 hlt)
      rw [hj0, Function.update_of_ne (by decide), hk]
    · rw [show j = 1 from Fin.ext heq, Function.update_self, hk1]
  obtain ⟨k2, K, hloop, -, -, hall⟩ :=
    stageLoop_ofFn (t := t) (y := u) (h := h) hf G.p (m := 2) (r := 4) (by norm_num) (by norm_num) hcols
  have hall' : ∀ j, k2 j = List.ofFn (K j) := fun j => hall j j.isLt
  refine ⟨k2, K, u + ∑ j, (tableauDISPF G.p).p j • K j, F (t + h) (u + ∑ j, (tableauDISPF G.p).p j • K j),
    ‖h • F (t + h) (u + ∑ j, (tableauDISPF G.p).p j • K j) - K 0‖ * G.coef, hloop, hall', ?_⟩
  rw [endPoint, newPoint_ofFn G.p hall', ok_bind, hf, ok_bind, List.length_ofFn, hall' 0, endDifference_ofFn, ok_bind,
    except_pure]

/-- **Search on a field.** A call does not throw, and what it accepts is a full matrix with vectors of the dimension. -/
theorem approach_field (tolerance t h : ℝ) (u : Fin n → ℝ) (hf : Computes F f) (hG : G = formulaA ∨ G = formulaB)
    (hV : G.Valid) {m : Members ℝ} (hm : m.k 0 = List.ofFn v) (fuel : ℕ) :
    (∃ m', approach G f tolerance t (List.ofFn u) fuel m h = .starved m') ∨
      ∃ (a : Accepted ℝ) (K : Fin 6 → Fin n → ℝ) (z w : Fin n → ℝ),
        approach G f tolerance t (List.ofFn u) fuel m h = .accepted a ∧ (∀ j, a.mem.k j = List.ofFn (K j)) ∧
        a.y0 = List.ofFn z ∧ a.fEnd = List.ofFn w := by
  induction fuel generalizing m h v with
  | zero => exact Or.inl ⟨m, rfl⟩
  | succ fuel ih =>
    rw [approach]
    dsimp only [Members.enter]
    rcases predictor_field tolerance t h u hf hG hV hm (fuel + 1) with hnone | ⟨k1, h1, hp⟩
    · rw [hnone]
      exact Or.inl ⟨_, rfl⟩
    · obtain ⟨⟨c, -, -, hk1, -⟩, hsecond⟩ := predictor_ok hV hp
      rw [hm, List.map_ofFn] at hk1
      obtain ⟨k2, K, z, w, an1, hloop, hall, hend⟩ := attempt_field hf hG hk1 hsecond
      rw [hp]
      dsimp only
      rw [hloop]
      dsimp only
      rw [hend]
      dsimp only
      split_ifs with hlate
      · refine ih (v := fun i => K 0 i * retryFactor tolerance an1) _ ?_
        dsimp only
        rw [scaleFirst_zero, hall 0, List.map_ofFn]
        rfl
      · exact Or.inr ⟨_, K, z, w, rfl, hall, rfl, rfl⟩

end AB

/-! ## The rest of the routines -/

section Routines

open DISPFSolver StabilityControl

variable {cfg : Config ℝ} {m : Members ℝ} {k : Stages ℝ} {v : Fin n → ℝ}

theorem isSystem_of_computes (hf : Computes F f) : IsSystem n f := by
  rintro t y hy
  obtain ⟨u, rfl⟩ : ∃ u : Fin n → ℝ, y = List.ofFn u := exists_ofFn hy
  exact ⟨_, hf t u, List.length_ofFn.ge⟩

theorem stabilityBlock_field (cfg : Config ℝ) (hf : Computes F f) (t : ℝ) (z : Fin n → ℝ) (h length : ℝ)
    (jump : ℕ → Bool) (m : Members ℝ) : ∃ m', stabilityBlock cfg f t (List.ofFn z) h length jump m = .ok m' := by
  unfold stabilityBlock
  by_cases hc : cfg.stabilityControlEnabled = true
  · rw [if_pos hc]
    obtain ⟨lambda, he, -⟩ := estimate_ok (isSystem_of_computes hf) cfg.jacobianMethod t (List.length_ofFn (f := z))
    rw [he, ok_bind]
    split_ifs
    all_goals exact ⟨_, rfl⟩
  · rw [if_neg hc]
    exact ⟨m, rfl⟩

theorem acceptA_field (hf : Computes F f) {a : Accepted ℝ} {K : Fin 6 → Fin n → ℝ} {z w : Fin n → ℝ}
    (hk : ∀ j, a.mem.k j = List.ofFn (K j)) (hz : a.y0 = List.ofFn z) (hw : a.fEnd = List.ofFn w) :
    ∃ m' y' h' g, acceptA cfg f tolerance t (List.ofFn u) a = .returned m' y' h' g := by
  obtain ⟨vn1, hvn⟩ := calcVn_ofFn hk
  unfold acceptA
  simp only [hvn, hw, hz, List.length_ofFn, column_ofFn, ok_bind, except_pure]
  obtain ⟨m1, hm1⟩ := stabilityBlock_field cfg hf (t + a.h) z (a.h * growthFactor tolerance a.an1) 72.0
    (fun count => count > 40)
    { a.mem with k := setStage a.mem.k 0 (List.ofFn ((a.h * growthFactor tolerance a.an1) • w)) }
  rw [hm1]
  exact ⟨_, _, _, _, rfl⟩

theorem acceptB_field (hf : Computes F f) {a : Accepted ℝ} {K : Fin 6 → Fin n → ℝ} {z w : Fin n → ℝ}
    (hk : ∀ j, a.mem.k j = List.ofFn (K j)) (hz : a.y0 = List.ofFn z) (hw : a.fEnd = List.ofFn w) :
    ∃ m' y' h' g, acceptB cfg f tolerance t (List.ofFn u) a = .returned m' y' h' g := by
  obtain ⟨vn1, hvn⟩ := calcVn_ofFn hk
  unfold acceptB
  simp only [embeddedDifference_ofFn hk, hvn, hw, hz, List.length_ofFn, column_ofFn, ok_bind, except_pure]
  have hblock := fun m => stabilityBlock_field cfg hf (t + a.h) z (a.h * growthFactor tolerance a.an1) 28.5
    (fun count => count > 40) m
  obtain ⟨m1, hm1⟩ :=
    hblock { a.mem with k := setStage a.mem.k 0 (List.ofFn ((a.h * growthFactor tolerance a.an1) • w)) }
  rw [hm1]
  dsimp only
  split
  · rename_i e he
    obtain ⟨m2, hm2⟩ := hblock _
    rw [hm2] at he
    cases he
  · exact ⟨_, _, _, _, rfl⟩

/-- a call on a field that ends, ends with an accepted attempt -/
theorem approach_accepts (hf : Computes F f) {G : Formula ℝ} (hG : G = formulaA ∨ G = formulaB) (hV : G.Valid)
    (hm : m.k 0 = List.ofFn v) (hs : Stops (nextAB G f tolerance t (List.ofFn u)) (List.ofFn v, h)) :
    ∃ (fuel : ℕ) (a : Accepted ℝ) (K : Fin 6 → Fin n → ℝ) (z w : Fin n → ℝ),
      approach G f tolerance t (List.ofFn u) fuel m h = .accepted a ∧ (∀ j, a.mem.k j = List.ofFn (K j)) ∧
      a.y0 = List.ofFn z ∧ a.fEnd = List.ofFn w := by
  rw [← hm] at hs
  obtain ⟨fuel, hdone⟩ := (approach_ends_iff hV m h).2 hs
  rcases approach_field tolerance t h u hf hG hV hm fuel with ⟨m', hm'⟩ | hacc
  · exact absurd hm' (hdone m')
  · exact ⟨fuel, hacc⟩

/-- a routine returns, and whatever it returns is an attempt with h and first stage scaled alike, whose estimates An and
An1 are within the tolerance -/
structure SettlesAB (G : Formula ℝ) (routine : ℕ → StepEnd (Members ℝ) (Attempt ℝ) ℝ) (f : Rhs ℝ) (tolerance t : ℝ)
    (y first : Vec ℝ) (h : ℝ) : Prop where
  returns : ∃ fuel m' y' h' g, routine fuel = .returned m' y' h' g
  within : ∀ fuel m' y' h' g, routine fuel = .returned m' y' h' g →
    0 < g.h ∧ Scaled first h g.first g.h ∧
      ∃ an fEnd an1, early G f t y (g.first, g.h) = .ok an ∧ trial G f t y g.h g.first = .ok (y', fEnd, an1) ∧
        an ≤ tolerance ∧ an1 ≤ tolerance

/-- a routine that searches for an attempt and then accepts it -/
theorem ab_settles (hF : BoundedNear F t u) (hf : Computes F f) (htol : 0 < tolerance) (hh : 0 < h)
    (hm : m.k 0 = List.ofFn v) {G : Formula ℝ} (hG : G = formulaA ∨ G = formulaB) (hV : G.Valid) {method : Method}
    {routine : ℕ → StepEnd (Members ℝ) (Attempt ℝ) ℝ} (accept : Accepted ℝ → StepEnd (Members ℝ) (Attempt ℝ) ℝ)
    (hroutine : ∀ fuel a, approach G f tolerance t (List.ofFn u) fuel m h = .accepted a → routine fuel = accept a)
    (haccept : ∀ (a : Accepted ℝ) (K : Fin 6 → Fin n → ℝ) (z w : Fin n → ℝ), (∀ j, a.mem.k j = List.ofFn (K j)) →
      a.y0 = List.ofFn z → a.fEnd = List.ofFn w → ∃ m' y' h' g, accept a = .returned m' y' h' g)
    (hreturned : ∀ fuel m' y' h' g, routine fuel = .returned m' y' h' g →
      ∃ a, approach G f tolerance t (List.ofFn u) fuel m h = .accepted a ∧
        ABStep G method f tolerance m t (List.ofFn u) h m' y' h' g a) :
    SettlesAB G routine f tolerance t (List.ofFn u) (List.ofFn v) h where
  returns := by
    obtain ⟨fuel, a, K, z, w, ha, hk, hz, hw⟩ := approach_accepts hf hG hV hm
      (scaled_stops (fun s s' hs => nextAB_scale hs) (nextAB_small hF hf hG v hh htol) hh)
    refine ⟨fuel, ?_⟩
    rw [hroutine fuel a ha]
    exact haccept a K z w hk hz hw
  within := by
    intro fuel m' y' h' g hs
    obtain ⟨a, ha, hstep⟩ := hreturned fuel m' y' h' g hs
    obtain ⟨an, han, hle⟩ := approach_within hV ha
    obtain ⟨-, hscaled, htrial, -, -⟩ := hstep.returned
    have hle1 := hstep.accepted.within
    rw [hm] at hscaled
    obtain ⟨-, rfl, -, rfl, -⟩ := hstep
    exact ⟨(hscaled.pos hh).1, hscaled, an, a.fEnd, a.an1, han, htrial, hle, hle1⟩

/-! ## StepDISPFC -/

/-- on a field the loop of StepDISPFC does not throw, and hands over a full matrix with Cn1 within the tolerance -/
theorem approachC_field (tolerance t h : ℝ) (u : Fin n → ℝ) (hf : Computes F f) (hk : k 0 = List.ofFn v) (fuel : ℕ) :
    approachC f tolerance t (List.ofFn u) fuel k h = none ∨
      ∃ (k' : Stages ℝ) (h' : ℝ) (K : Fin 6 → Fin n → ℝ) (cn1 : ℝ),
        approachC f tolerance t (List.ofFn u) fuel k h = some (.ok (k', h')) ∧ (∀ j, k' j = List.ofFn (K j)) ∧
        errorC f t (List.ofFn u) (k' 0, h') = .ok cn1 ∧ cn1 ≤ tolerance := by
  induction fuel generalizing k h v with
  | zero => exact Or.inl rfl
  | succ fuel ih =>
    have hcols : ∀ j : Fin 6, j.val < 1 → k j = List.ofFn v := by
      intro j hj
      rw [show j = 0 from Fin.ext (Nat.lt_one_iff.1 hj), hk]
    obtain ⟨k1, K, hloop, hold, -, hall⟩ :=
      stageLoop_ofFn (t := t) (y := u) (h := h) (K := fun _ => v) hf [] (m := 1) (r := 5) le_rfl (by norm_num) hcols
    have hall' : ∀ j, k1 j = List.ofFn (K j) := fun j => hall j j.isLt
    rw [show List.range' 1 5 = [1, 2, 3, 4, 5] from rfl] at hloop
    have hd := embeddedDifference_ofFn hall'
    have herror : errorC f t (List.ofFn u) (k 0, h) =
        .ok (‖∑ j : Fin 6, ((P36 : List ℝ).getD j 0 - P4.getD j 0) • K j‖ * (17.0 / 24.0)) := by
      rw [errorC, (stageLoopC_base k k1).1 hloop]
      dsimp only
      rw [List.length_ofFn, hd, ok_bind, except_pure]
    rw [approachC, hloop]
    dsimp only
    rw [List.length_ofFn, hd]
    dsimp only
    split_ifs with hgt
    · refine ih (v := fun i => K 0 i * retryFactor tolerance
        (‖∑ j : Fin 6, ((P36 : List ℝ).getD j 0 - P4.getD j 0) • K j‖ * (17.0 / 24.0))) _ ?_
      rw [scaleFirst_zero, hall' 0, List.map_ofFn]
      rfl
    · refine Or.inr ⟨k1, h, K, _, rfl, hall', ?_, not_lt.1 hgt⟩
      rw [← herror, hall' 0, hold 0 (by decide), hk]

/-- StepDISPFC returns, and whatever it returns is an attempt from the first stage h f(t, y), whose estimate Cn1 is
within the tolerance -/
structure SettlesC (F : ℝ → (Fin n → ℝ) → Fin n → ℝ) (routine : ℕ → StepEnd (Members ℝ) (Attempt ℝ) ℝ) (f : Rhs ℝ)
    (tolerance t : ℝ) (u : Fin n → ℝ) (h : ℝ) : Prop where
  returns : ∃ fuel m' y' h' g, routine fuel = .returned m' y' h' g
  within : ∀ fuel m' y' h' g, routine fuel = .returned m' y' h' g →
    0 < g.h ∧ g.h ≤ h ∧ g.first = List.ofFn (g.h • F t u) ∧
      ∃ cn1 an1, errorC f t (List.ofFn u) (g.first, g.h) = .ok cn1 ∧
        trialC f t (List.ofFn u) g.h g.first = .ok (y', an1) ∧ cn1 ≤ tolerance

theorem firstColumn (hf : Computes F f) (t h : ℝ) (u : Fin n → ℝ) :
    (do column (List.ofFn u).length (← f t (List.ofFn u)) h) = .ok (List.ofFn (h • F t u)) := by
  rw [hf, ok_bind, List.length_ofFn, column_ofFn]

/-- what StepDISPFC hands over from its loop is what it returns -/
theorem stepDISPFC_loop {fuel : ℕ} {m' : Members ℝ} {y y' first : Vec ℝ} {h' : ℝ} {g : Attempt ℝ}
    (hcol : (do column y.length (← f t y) h) = .ok first)
    (hs : stepDISPFC cfg f tolerance fuel m t y h = .returned m' y' h' g) :
    ∃ k', approachC f tolerance t y fuel (setStage m.k 0 first) h = some (.ok (k', g.h)) ∧ k' 0 = g.first := by
  obtain ⟨first', k', m1, method, an1, vn, hfirst, hk, -, -, -, hg, -, -, -⟩ := stepDISPFC_cases hs
  cases hcol.symm.trans hfirst
  exact ⟨k', hk, (congrArg Attempt.first hg).symm⟩

theorem dispfC_settles (hF : BoundedNear F t u) (hf : Computes F f) (htol : 0 < tolerance) (hh : 0 < h)
    (cfg : Config ℝ) (m : Members ℝ) :
    SettlesC F (fun fuel => stepDISPFC cfg f tolerance fuel m t (List.ofFn u) h) f tolerance t u h where
  returns := by
    have hcol := firstColumn hf t h u
    have hfirst : setStage m.k 0 (List.ofFn (h • F t u)) 0 = List.ofFn (h • F t u) := setStage_same m.k 0 _
    have hstops := scaled_stops (fun s s' hs => nextC_scale hs) (nextC_small hF hf (h • F t u) hh htol) hh
    rw [← hfirst] at hstops
    obtain ⟨fuel, hdone⟩ := (approachC_ends_iff _ h).2 hstops
    rcases approachC_field tolerance t h u hf hfirst fuel with
      hnone | ⟨k', h1, K, cn1, hk, hall, -, -⟩
    · exact absurd hnone hdone
    · obtain ⟨vn, hvn⟩ := calcVn_ofFn hall
      obtain ⟨z, hz⟩ : ∃ z : Fin n → ℝ, newPoint (List.ofFn u) k' P36 = .ok (List.ofFn z) := ⟨_, newPoint_ofFn P36 hall⟩
      have hend : endPointC f t (List.ofFn z) h1 k' =
          .ok (‖h1 • F (t + h1) z - K 0‖ * (CA1B * dCoef), vn) := by
        rw [endPointC, hf, ok_bind, List.length_ofFn, hall 0, endDifference_ofFn, ok_bind, hvn, ok_bind, except_pure]
      obtain ⟨m1, hm1⟩ := stabilityBlock_field cfg hf (t + h1) z h1 72.0 (fun count => count ≥ 35)
        { m with k := k' }
      refine ⟨fuel, ?_⟩
      simp only [stepDISPFC, hcol, hk, hz, hend, hm1]
      exact ⟨_, _, _, _, rfl⟩
  within := by
    intro fuel m' y' h' g hs
    have hcol := firstColumn hf t h u
    obtain ⟨-, -, -, first, an1, hfirst, hscaled, htrial, -, -⟩ := stepDISPFC_returned hs
    rw [hcol] at hfirst
    cases hfirst
    obtain ⟨k', hk, hk0⟩ := stepDISPFC_loop hcol hs
    have hset : setStage m.k 0 (List.ofFn (h • F t u)) 0 = List.ofFn (h • F t u) := setStage_same m.k 0 _
    rcases approachC_field tolerance t h u hf hset fuel with
      hnone | ⟨k1, h1, K, cn1, hk1, -, herror, hle⟩
    · rw [hk] at hnone
      cases hnone
    · cases hk.symm.trans hk1
      rw [hk0] at herror
      obtain ⟨hpos, hle1⟩ := hscaled.pos hh
      refine ⟨hpos, hle1, ?_, cn1, an1, herror, htrial, hle⟩
      obtain ⟨c, -, -, hc1, hc2⟩ := hscaled
      rw [hc1, hc2, List.map_ofFn]
      refine congrArg List.ofFn (funext fun i => ?_)
      rw [Function.comp_apply, Pi.smul_apply, Pi.smul_apply, smul_eq_mul, smul_eq_mul]
      ring

/-! ## All four routines -/

/-- **Retries settle.** With a positive tolerance and a field that is bounded around (t, u), RK2 and the three routines
of DISPF return, from any first column of the matrix, and what they return has its estimates within the tolerance. -/
theorem retries_settle (hF : BoundedNear F t u) (hf : Computes F f) (htol : 0 < tolerance) (hh : 0 < h) (cfg : Config ℝ)
    (hm : m.k 0 = List.ofFn v) :
    SettlesRK2 F f tolerance t u h ∧
      SettlesAB formulaA (fun fuel => stepDISPFA cfg f tolerance fuel m t (List.ofFn u) h) f tolerance t (List.ofFn u)
        (List.ofFn v) h ∧
      SettlesAB formulaB (fun fuel => stepDISPFB cfg f tolerance fuel m t (List.ofFn u) h) f tolerance t (List.ofFn u)
        (List.ofFn v) h ∧
      SettlesC F (fun fuel => stepDISPFC cfg f tolerance fuel m t (List.ofFn u) h) f tolerance t u h := by
  refine ⟨rk2_settles hF hf htol hh, ?_, ?_, dispfC_settles hF hf htol hh cfg m⟩
  · exact ab_settles hF hf htol hh hm (Or.inl rfl) formulaA_valid (acceptA cfg f tolerance t (List.ofFn u))
      (fun fuel a ha => by simp only [stepDISPFA, ha])
      (fun a K z w hk hz hw => acceptA_field hf hk hz hw) fun fuel m' y' h' g hs => stepDISPFA_returned hs
  · exact ab_settles hF hf htol hh hm (Or.inr rfl) formulaB_valid (acceptB cfg f tolerance t (List.ofFn u))
      (fun fuel a ha => by simp only [stepDISPFB, ha])
      (fun a K z w hk hz hw => acceptB_field hf hk hz hw) fun fuel m' y' h' g hs => stepDISPFB_returned hs

/-- y' = y with the first stage 0 left over in the matrix, as an instance of `retries_settle` -/
theorem retries_settle_growth :
    SettlesRK2 (fun _ (y : Fin 1 → ℝ) => y) (ofField fun _ (y : Fin 1 → ℝ) => y) 0.001 0 (fun _ => 1) 1 ∧
      SettlesAB formulaA (fun fuel => stepDISPFA (config 0 0 0 0) (ofField fun _ (y : Fin 1 → ℝ) => y) 0.001 fuel
        ((construct 0).reset 1) 0 [1] 1) (ofField fun _ (y : Fin 1 → ℝ) => y) 0.001 0 [1] [0] 1 := by
  have hcont : Continuous fun p : ℝ × (Fin 1 → ℝ) => (fun _ y => y : ℝ → (Fin 1 → ℝ) → Fin 1 → ℝ) p.1 p.2 :=
    continuous_snd
  have h := retries_settle (boundedNear_of_continuous hcont 0 fun _ => 1) (ofField_ofFn fun _ (y : Fin 1 → ℝ) => y)
    (show (0 : ℝ) < 0.001 by norm_num) one_pos (config 0 0 0 0)
    (show ((construct 0 : Members ℝ).reset 1).k 0 = List.ofFn fun _ : Fin 1 => (0 : ℝ) from rfl)
  exact ⟨h.1, h.2.1⟩

end Routines

end OdeClientServer.Settling
