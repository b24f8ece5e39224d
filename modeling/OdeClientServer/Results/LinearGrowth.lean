/-
Requests on systems whose right-hand side grows at most linearly with the state, such as the forced oscillator. The
computed states stay bounded on the interval of the request, so the step control has a floor and `Solve` returns.

- `euler_paced`, `rk2_paced`: the two loops are paced. Euler's needs a tolerance above 1e-12 / 0.81, below which
  no step grows.
-/
import OdeClientServer.Core.Growth
import OdeClientServer.Results.Answered
import OdeClientServer.Results.Retries

namespace OdeClientServer.LinearGrowth

open Loop Answered

variable {M G : Type} {n : ℕ} {F : ℝ → (Fin n → ℝ) → Fin n → ℝ} {f : Rhs ℝ} {L R : ℝ}

/-- the field grows at most linearly with the state -/
structure GrowsLinearly (F : ℝ → (Fin n → ℝ) → Fin n → ℝ) (L : ℝ) : Prop where
  pos : 0 < L
  bound : ∀ t u, ‖F t u‖ ≤ L * (1 + ‖u‖)

/-- a step along the field grows with the state -/
theorem GrowsLinearly.smul_le (hF : GrowsLinearly F L) {h : ℝ} (hh : 0 ≤ h) (t : ℝ) (u : Fin n → ℝ) :
    ‖h • F t u‖ ≤ L * h * (1 + ‖u‖) := by
  rw [norm_smul, Real.norm_eq_abs, abs_of_nonneg hh, mul_comm L, mul_assoc]
  exact mul_le_mul_of_nonneg_left (hF.bound t u) hh

/-- the vector that a list of n numbers holds -/
def coords (n : ℕ) (y : Vec ℝ) : Fin n → ℝ := fun i => y.getD i 0

@[simp] theorem coords_ofFn (u : Fin n → ℝ) : coords n (List.ofFn u) = u := by
  funext i
  simp [coords]

/-! ## Solvers with fuel -/

section Family

variable {D : ℕ → Driver M G ℝ} {tEnd : ℝ}

/-- the solvers differ in `Step` only, and more fuel does not change a call that has enough -/
structure StepStable (D : ℕ → Driver M G ℝ) : Prop where
  clip : ∀ fuel0 fuel, (D fuel).clip = (D fuel0).clip
  tiny : ∀ fuel0 fuel, (D fuel).tiny = (D fuel0).tiny
  stops : ∀ fuel0 fuel, (D fuel).stops = (D fuel0).stops
  catches : ∀ fuel0 fuel, (D fuel).catches = (D fuel0).catches
  rejected : ∀ fuel0 fuel, (D fuel).rejected = (D fuel0).rejected
  step : ∀ fuel0 m t y h, (∀ m', (D fuel0).step m t y h ≠ .starved m') →
    ∀ fuel ≥ fuel0, (D fuel).step m t y h = (D fuel0).step m t y h

theorem StepStable.body (hD : StepStable D) (tEnd : ℝ) : FuelStable fun fuel => (D fuel).body tEnd := by
  intro fuel0 s hfed fuel hfuel
  dsimp only
  by_cases hidle : tEnd ≤ s.t ∨ (D fuel0).tiny ((D fuel0).clip s.t s.h tEnd) = true
  · rw [body_idle hidle, body_idle]
    rw [hD.tiny fuel0 fuel, hD.clip fuel0 fuel]
    exact hidle
  · rw [not_or, not_le] at hidle
    obtain ⟨ht, htiny⟩ := hidle
    refine body_congr (hD.clip fuel0 fuel) (hD.tiny fuel0 fuel) (hD.stops fuel0 fuel) (hD.catches fuel0 fuel)
      (hD.rejected fuel0 fuel)
      fun _ => ?_
    rw [hD.clip fuel0 fuel]
    refine hD.step fuel0 _ _ _ _ (fun m hm => hfed { s with mem := m } ?_) fuel hfuel
    simp only [Driver.body, if_pos ht, if_neg htiny, hm]

/-- a pass is not cut off when its call of `Step` is not -/
theorem fed_of_step {fuel : ℕ} {s : RunState M G ℝ}
    (hstep : s.t < tEnd → ∀ m, (D fuel).step s.mem s.t s.y ((D fuel).clip s.t s.h tEnd) ≠ .starved m) :
    Fed (fun fuel => (D fuel).body tEnd) fuel s := by
  intro s' hb
  dsimp only at hb
  unfold Driver.body at hb
  split_ifs at hb with ht
  dsimp only at hb
  split_ifs at hb
  cases hs : (D fuel).step s.mem s.t s.y ((D fuel).clip s.t s.h tEnd) with
  | returned m y h g => rw [hs] at hb; dsimp only at hb; split_ifs at hb
  | threw e m y h => rw [hs] at hb; dsimp only at hb; split_ifs at hb
  | starved m => exact hstep ht m hs

/-- a pass of the limit comes from a call of `Step` that returned, or that threw an exception that is caught -/
theorem limit_cases {s s' : RunState M G ℝ} (hb : limit (fun fuel => (D fuel).body tEnd) s = .next s') :
    s.t < tEnd ∧ ∃ fuel, (∃ m y h g, (D fuel).step s.mem s.t s.y ((D fuel).clip s.t s.h tEnd) = .returned m y h g ∧
        s' = s.record m y h g) ∨
      (∃ e m y h, (D fuel).step s.mem s.t s.y ((D fuel).clip s.t s.h tEnd) = .threw e m y h ∧
        (D fuel).catches e = true ∧ s' = { (D fuel).rejected s y h with mem := m }) := by
  obtain ⟨fuel, hpass⟩ := limit_next hb
  obtain ⟨ht, hcases⟩ := body_next_cases hpass
  exact ⟨ht, fuel, hcases⟩

/-! ## Step control on a bounded state -/

/-- the step control of a solver without members: a state grows at most exponentially in the step that is left, a caught
rejection at least halves the step, and while the state is bounded no step up to η is lowered and no larger one
below c -/
structure Controls (D : ℕ → Driver Unit G ℝ) (n : ℕ) (K : ℝ) : Prop where
  clip : ∀ fuel t h tEnd, (D fuel).clip t h tEnd = min h (tEnd - t)
  returned : ∀ {fuel t h y' h' m g} {u : Fin n → ℝ}, 0 < h → (D fuel).step () t (List.ofFn u) h = .returned m y' h' g →
    0 < h' ∧ ∃ u' : Fin n → ℝ, y' = List.ofFn u' ∧ 1 + ‖u'‖ ≤ (1 + ‖u‖) * Real.exp (K * h')
  rejected : ∀ {fuel s h e m y' h'}, 0 < h → (D fuel).step s.mem s.t s.y h = .threw e m y' h' →
    (D fuel).catches e = true → ((D fuel).rejected s y' h').t = s.t ∧ ((D fuel).rejected s y' h').y = s.y ∧
      0 < ((D fuel).rejected s y' h').h ∧ ((D fuel).rejected s y' h').h ≤ h / 2
  floor : ∀ R, ∃ η > 0, ∃ c > 0, ∀ (fuel : ℕ) (t h : ℝ) (u : Fin n → ℝ), 0 < h → 1 + ‖u‖ ≤ R →
    (∀ m y' h' g, (D fuel).step () t (List.ofFn u) h = .returned m y' h' g →
      (h ≤ η → h ≤ h') ∧ (η < h → c ≤ h')) ∧
    ∀ e m y' h', (D fuel).step () t (List.ofFn u) h = .threw e m y' h' → (D fuel).catches e = true →
      η < h ∧ ∀ s : RunState Unit G ℝ, c ≤ ((D fuel).rejected s y' h').h

/-- a state of dimension n with a positive step -/
structure Positive (n : ℕ) (s : RunState M G ℝ) : Prop where
  step : 0 < s.h
  dim : ∃ u : Fin n → ℝ, s.y = List.ofFn u

theorem Controls.paced {D : ℕ → Driver Unit G ℝ} {K : ℝ} (hD : Controls D n K) (tEnd : ℝ) :
    Paced (limit fun fuel => (D fuel).body tEnd) (Positive n) RunState.t RunState.h (fun s => 1 + ‖coords n s.y‖) tEnd
      K where
  size_nonneg s := by positivity
  pos s hs := hs.step
  pass := by
    intro s s' hs hb
    obtain ⟨u, hu⟩ := hs.dim
    obtain ⟨ht, fuel, ⟨m, y, h, g, hstep, rfl⟩ | ⟨e, m, y, h, hstep, hc, rfl⟩⟩ := limit_cases hb
    · rw [hD.clip] at hstep
      have hattempt : 0 < min s.h (tEnd - s.t) := lt_min hs.step (sub_pos.2 ht)
      obtain ⟨hpos, u', rfl, hgrow⟩ := hD.returned hattempt (hu ▸ hstep)
      refine ⟨ht, ⟨hpos, u', rfl⟩, Or.inl ⟨rfl, hpos, ?_⟩⟩
      simpa only [RunState.record, hu, coords_ofFn] using hgrow
    · rw [hD.clip] at hstep
      have hattempt : 0 < min s.h (tEnd - s.t) := lt_min hs.step (sub_pos.2 ht)
      obtain ⟨htime, hy, hpos, hhalf⟩ := hD.rejected hattempt hstep hc
      refine ⟨ht, ⟨hpos, u, hy.trans hu⟩, Or.inr ⟨htime, ?_, ?_⟩⟩
      · dsimp only
        rw [hy]
      · exact hhalf.trans (by linarith [min_le_left s.h (tEnd - s.t)])
  floor := by
    intro R
    obtain ⟨η, hη, c, hc, hfloor⟩ := hD.floor R
    refine ⟨η, hη, c, hc, fun s s' hs hsize hb => ?_⟩
    obtain ⟨u, hu⟩ := hs.dim
    simp only [hu, coords_ofFn] at hsize
    obtain ⟨ht, fuel, ⟨m, y, h, g, hstep, rfl⟩ | ⟨e, m, y, h, hstep, hcaught, rfl⟩⟩ := limit_cases hb
    · rw [hD.clip, hu] at hstep
      have hattempt : 0 < min s.h (tEnd - s.t) := lt_min hs.step (sub_pos.2 ht)
      obtain ⟨hkept, hpart⟩ := (hfloor fuel s.t _ u hattempt hsize).1 m y h g hstep
      obtain ⟨hpos, u', rfl, hgrow⟩ := hD.returned hattempt hstep
      refine ⟨fun hshort => ⟨⟨rfl, hpos, ?_⟩, hkept ((min_le_left _ _).trans hshort)⟩,
        fun hlong hrest => hpart (lt_min hlong hrest)⟩
      simpa only [RunState.record, hu, coords_ofFn] using hgrow
    · rw [hD.clip, hu] at hstep
      have hattempt : 0 < min s.h (tEnd - s.t) := lt_min hs.step (sub_pos.2 ht)
      obtain ⟨hlong, hpart⟩ := (hfloor fuel s.t _ u hattempt hsize).2 e m y h hstep hcaught
      exact ⟨fun hshort => absurd ((min_le_left _ _).trans hshort) (not_le.2 hlong), fun _ _ => hpart s⟩

end Family

/-! ## Euler -/

section Euler

open EulerSolver

variable {tolerance t h : ℝ} {u : Fin n → ℝ}

/-- the local error of an attempt on a field -/
noncomputable def errorEuler (F : ℝ → (Fin n → ℝ) → Fin n → ℝ) (t : ℝ) (u : Fin n → ℝ) (h : ℝ) : ℝ :=
  ‖(0.5 * h) • (F (t + h) (u + h • F t u) - F t u)‖

theorem euler_attempt (hf : Computes F f) (t : ℝ) (u : Fin n → ℝ) (h : ℝ) :
    attempt f t (List.ofFn u) h = .ok (List.ofFn (u + h • F t u), errorEuler F t u h) := by
  have hfield : ∀ τ v, f τ (List.ofFn v) = .ok (List.ofFn (F τ v)) := hf
  have hmax : (maxOver n fun i => do
      return |0.5 * h * ((← read (List.ofFn (F (t + h) (u + h • F t u))) i) - (← read (List.ofFn (F t u)) i))|) =
      .ok (errorEuler F t u h) := by
    refine maxOver_ofFn fun i => ?_
    simp only [read_ofFn, ok_bind, except_pure, Pi.smul_apply, Pi.sub_apply, smul_eq_mul]
  simp only [attempt, update, hfield, ok_bind, multiplyScalarByVector_ofFn, addVectors_ofFn, List.length_ofFn]
  rw [hmax]
  rfl

theorem errorEuler_nonneg (h : ℝ) : 0 ≤ errorEuler F t u h := norm_nonneg _

/-- a step along the field grows by at most 1 + L h -/
theorem euler_growth (hF : GrowsLinearly F L) (hh : 0 ≤ h) : 1 + ‖u + h • F t u‖ ≤ (1 + L * h) * (1 + ‖u‖) := by
  have hstep := hF.smul_le hh t u
  linarith [norm_add_le u (h • F t u)]

/-- the error of a short step from a bounded state -/
theorem euler_error (hF : GrowsLinearly F L) (hh : 0 < h) (hx : L * h ≤ 1) (hu : 1 + ‖u‖ ≤ R) :
    errorEuler F t u h ≤ 2 * (L * h) * R := by
  have hL : 0 ≤ L * h := (mul_pos hF.pos hh).le
  have hR : 0 ≤ R := le_trans (by positivity) hu
  have hgrow := euler_growth hF hh.le (t := t) (u := u)
  have hnext : 1 + ‖u + h • F t u‖ ≤ 2 * R :=
    hgrow.trans (mul_le_mul (by linarith) hu (by positivity) (by norm_num))
  have hends : ‖F (t + h) (u + h • F t u) - F t u‖ ≤ L * (2 * R) + L * R :=
    (norm_sub_le _ _).trans (add_le_add
      ((hF.bound _ _).trans (mul_le_mul_of_nonneg_left hnext hF.pos.le))
      ((hF.bound _ _).trans (mul_le_mul_of_nonneg_left hu hF.pos.le)))
  rw [errorEuler, norm_smul, Real.norm_eq_abs, abs_of_pos (by linarith)]
  calc 0.5 * h * ‖F (t + h) (u + h • F t u) - F t u‖ ≤ 0.5 * h * (L * (2 * R) + L * R) :=
        mul_le_mul_of_nonneg_left hends (by linarith)
    _ = 1.5 * (L * h) * R := by ring
    _ ≤ 2 * (L * h) * R := mul_le_mul_of_nonneg_right (by linarith) hR

/-- the growth factor of an accepted step is above 1/2, and at least 1 for a small error -/
theorem euler_factor {e : ℝ} (htol : 1e-12 < 0.81 * tolerance) (he0 : 0 ≤ e) (he : e ≤ tolerance) :
    0.5 ≤ min (0.9 * Real.sqrt (tolerance / (e + 1e-12))) 2.0 ∧
      (e ≤ 0.81 * tolerance - 1e-12 → 1 ≤ min (0.9 * Real.sqrt (tolerance / (e + 1e-12))) 2.0) := by
  have hpos : 0 < e + 1e-12 := by linarith
  constructor
  · have hratio : (5 / 9 : ℝ) ^ 2 ≤ tolerance / (e + 1e-12) := by
      rw [le_div_iff₀ hpos]
      linarith
    have hroot := Real.le_sqrt_of_sq_le hratio
    exact le_min (by linarith) (by norm_num)
  · intro hsmall
    have hratio : (1 / 0.9 : ℝ) ^ 2 ≤ tolerance / (e + 1e-12) := by
      rw [le_div_iff₀ hpos]
      linarith
    have hroot := Real.le_sqrt_of_sq_le hratio
    exact le_min (by linarith) (by norm_num)

/-- a rejected step is shrunk to no less than a fifth -/
theorem euler_rejected (hf : Computes F f) {m' : Unit} {y' : Vec ℝ} {h' : ℝ} {e : Exn} (hh : 0 < h)
    (hs : step f tolerance t (List.ofFn u) h = .threw e m' y' h') :
    tolerance < errorEuler F t u h ∧ 0.2 * h ≤ h' := by
  unfold step at hs
  rw [euler_attempt hf] at hs
  dsimp only at hs
  split_ifs at hs with he
  cases hs
  refine ⟨he, ?_⟩
  rw [mul_comm]
  exact mul_le_mul_of_nonneg_left (le_max_right _ _) hh.le

theorem euler_controls (hf : Computes F f) (hF : GrowsLinearly F L) (htol : 1e-12 < 0.81 * tolerance) :
    Controls (fun _ => driver f tolerance) n (2 * L) where
  clip _ _ _ _ := rfl
  returned := by
    intro _ t h y' h' m g u hh hs
    obtain ⟨-, e, ha, he, rfl⟩ := step_returned hs
    rw [euler_attempt hf, Except.ok.injEq, Prod.mk.injEq] at ha
    obtain ⟨rfl, rfl⟩ := ha
    have hfactor := (euler_factor htol (errorEuler_nonneg h) he).1
    have hhalf : h ≤ 2 * (h * min (0.9 * Real.sqrt (tolerance / (errorEuler F t u h + 1e-12))) 2.0) := by
      nlinarith
    refine ⟨by linarith, _, rfl, ?_⟩
    calc 1 + ‖u + h • F t u‖ ≤ (1 + L * h) * (1 + ‖u‖) := euler_growth hF hh.le
      _ ≤ Real.exp (L * h) * (1 + ‖u‖) := by
        refine mul_le_mul_of_nonneg_right ?_ (by positivity)
        linarith [Real.add_one_le_exp (L * h)]
      _ = (1 + ‖u‖) * Real.exp (L * h) := mul_comm _ _
      _ ≤ _ := by
        refine mul_le_mul_of_nonneg_left (Real.exp_le_exp.2 ?_) (by positivity)
        linarith [mul_le_mul_of_nonneg_left hhalf hF.pos.le]
  rejected := by
    intro _ s h e m y' h' hh hs _
    have hle := step_threw_le (by linarith) hh hs
    obtain ⟨-, hpos⟩ := step_threw hh hs
    refine ⟨rfl, rfl, ?_⟩
    simp only [driver]
    constructor <;> linarith
  floor := by
    intro R
    let δ := 0.81 * tolerance - 1e-12
    have hδ : 0 < δ := sub_pos.2 htol
    have hL := hF.pos
    have hR : 0 < 2 * L * (|R| + 1) := by positivity
    let η := min (1 / L) (δ / (2 * L * (|R| + 1)))
    have hη : 0 < η := by positivity
    refine ⟨η, hη, 0.1 * η, by positivity, fun _ t h u hh hu => ?_⟩
    -- the error of a step up to the floor
    have hsmall : h ≤ η → errorEuler F t u h ≤ δ := by
      intro hshort
      obtain ⟨h1, h2⟩ := le_min_iff.1 hshort
      rw [le_div_iff₀ hL, mul_comm] at h1
      rw [le_div_iff₀ hR] at h2
      refine (euler_error hF hh h1 hu).trans (le_trans ?_ h2)
      have hle : R ≤ |R| + 1 := (le_abs_self R).trans (by linarith)
      nlinarith [mul_pos hL hh]
    constructor
    · intro m y' h' g hs
      obtain ⟨-, e, ha, he, rfl⟩ := step_returned hs
      rw [euler_attempt hf, Except.ok.injEq, Prod.mk.injEq] at ha
      obtain ⟨rfl, rfl⟩ := ha
      obtain ⟨hhalf, hone⟩ := euler_factor htol (errorEuler_nonneg h) he
      exact ⟨fun hshort => le_mul_of_one_le_right hh.le (hone (hsmall hshort)), fun hlong => by nlinarith⟩
    · intro e m y' h' hs _
      obtain ⟨he, hpart⟩ := euler_rejected hf hh hs
      have hlong : η < h := by
        by_contra hshort
        have hle := hsmall (not_lt.1 hshort)
        simp only [δ] at hle
        linarith
      refine ⟨hlong, fun s => ?_⟩
      simp only [driver]
      linarith

theorem euler_stable : StepStable fun _ => driver f tolerance where
  clip _ _ := rfl
  tiny _ _ := rfl
  stops _ _ := rfl
  catches _ _ := rfl
  rejected _ _ := rfl
  step _ _ _ _ _ _ _ _ := rfl

end Euler

/-! ## RK2 -/

section RK2

open RK2Solver Retries

variable {tolerance t h : ℝ} {u : Fin n → ℝ}

/-- the new value of an attempt on a field -/
noncomputable def rk2Next (F : ℝ → (Fin n → ℝ) → Fin n → ℝ) (t : ℝ) (u : Fin n → ℝ) (h : ℝ) : Fin n → ℝ :=
  u + ((p1 : ℝ) • h • F t u + (p2 : ℝ) • h • F t (u + (b21 : ℝ) • h • F t u))

theorem rk2_attempt (hf : Computes F f) (t : ℝ) (u : Fin n → ℝ) (h : ℝ) :
    attempt f t (List.ofFn u) h = .ok (List.ofFn (rk2Next F t u h), errorRK2 F t u h) := by
  have hfield : ∀ τ v, f τ (List.ofFn v) = .ok (List.ofFn (F τ v)) := hf
  simp only [attempt, stages, nextValue, hfield, ok_bind, multiplyScalarByVector_ofFn, addVectors_ofFn,
    subtractVectors_ofFn, except_pure, errorRK2, error1, error2, rk2Next]

/-- the second stage of a step -/
theorem rk2_second (hF : GrowsLinearly F L) (hh : 0 ≤ h) :
    ‖h • F t (u + (b21 : ℝ) • h • F t u)‖ ≤ L * h * (1 + 2 / 3 * (L * h)) * (1 + ‖u‖) := by
  have hfirst := hF.smul_le hh t u
  have hpoint : ‖u + (b21 : ℝ) • h • F t u‖ ≤ ‖u‖ + 2 / 3 * ‖h • F t u‖ := by
    refine (norm_add_le _ _).trans ?_
    rw [show (b21 : ℝ) = 2 / 3 by norm_num [b21], norm_smul_of_nonneg (by norm_num)]
  have hLh : 0 ≤ L * h := mul_nonneg hF.pos.le hh
  calc ‖h • F t (u + (b21 : ℝ) • h • F t u)‖ ≤ L * h * (1 + ‖u + (b21 : ℝ) • h • F t u‖) := hF.smul_le hh _ _
    _ ≤ L * h * (1 + (‖u‖ + 2 / 3 * (L * h * (1 + ‖u‖)))) := by
      refine mul_le_mul_of_nonneg_left ?_ hLh
      linarith
    _ = L * h * (1 + 2 / 3 * (L * h)) * (1 + ‖u‖) := by ring

/-- a step grows by at most the second-order part of exp (L h) -/
theorem rk2_growth (hF : GrowsLinearly F L) (hh : 0 ≤ h) :
    1 + ‖rk2Next F t u h‖ ≤ (1 + L * h + (L * h) ^ 2 / 2) * (1 + ‖u‖) := by
  have hfirst := hF.smul_le hh t u
  have hsecond := rk2_second hF hh (t := t) (u := u)
  have hsum : ‖rk2Next F t u h‖ ≤
      ‖u‖ + (1 / 4 * ‖h • F t u‖ + 3 / 4 * ‖h • F t (u + (b21 : ℝ) • h • F t u)‖) := by
    refine (norm_add_le _ _).trans (add_le_add_right ((norm_add_le _ _).trans ?_) _)
    rw [show (p1 : ℝ) = 1 / 4 by norm_num [p1], show (p2 : ℝ) = 3 / 4 by norm_num [p2],
      norm_smul_of_nonneg (by norm_num) (h • F t u), norm_smul_of_nonneg (by norm_num) (h • F t _)]
  linarith

/-- the error of a short step from a bounded state -/
theorem rk2_error (hF : GrowsLinearly F L) (hh : 0 < h) (hx : L * h ≤ 1) (hu : 1 + ‖u‖ ≤ R) :
    errorRK2 F t u h ≤ L * h * (Real.sqrt n * R) := by
  have hLh : 0 < L * h := mul_pos hF.pos hh
  have hS : 0 < 1 + ‖u‖ := by positivity
  have hfirst := hF.smul_le hh.le t u
  have hsecond : ‖h • F t (u + (b21 : ℝ) • h • F t u)‖ ≤ 5 / 3 * (L * h * (1 + ‖u‖)) := by
    refine (rk2_second hF hh.le).trans ?_
    nlinarith [mul_pos hLh hS]
  have hend : ‖h • F (t + h) (rk2Next F t u h)‖ ≤ 5 / 2 * (L * h * (1 + ‖u‖)) := by
    have hgrow : 1 + ‖rk2Next F t u h‖ ≤ 5 / 2 * (1 + ‖u‖) := by
      refine (rk2_growth hF hh.le).trans (mul_le_mul_of_nonneg_right ?_ hS.le)
      nlinarith
    refine (hF.smul_le hh.le _ _).trans ?_
    nlinarith
  -- a difference of two stages
  have hdiff : ∀ (a b : Fin n → ℝ) (c : ℝ), ‖a‖ + ‖b‖ ≤ c * (L * h * (1 + ‖u‖)) → 0 ≤ c →
      norm (List.ofFn (a - b)) ≤ c * (L * h * (Real.sqrt n * R)) := by
    intro a b c hab hc
    have hle : c * (L * h * (1 + ‖u‖)) ≤ c * (L * h * R) :=
      mul_le_mul_of_nonneg_left (mul_le_mul_of_nonneg_left hu hLh.le) hc
    have hnonneg : 0 ≤ c * (L * h * R) := le_trans (by positivity) hle
    refine (norm_ofFn_le hnonneg fun i => ?_).trans (le_of_eq (by ring))
    have hi := (norm_le_pi_norm (a - b) i).trans (norm_sub_le a b)
    rw [Real.norm_eq_abs] at hi
    linarith
  have h1 := hdiff _ _ (8 / 3) (show ‖h • F t (u + (b21 : ℝ) • h • F t u)‖ + ‖h • F t u‖ ≤ _ by linarith) (by norm_num)
  have h2 := hdiff _ _ (7 / 2) (show ‖h • F (t + h) (rk2Next F t u h)‖ + ‖h • F t u‖ ≤ _ by linarith) (by norm_num)
  have hnonneg : 0 ≤ L * h * (Real.sqrt n * R) := by
    have := (norm_nonneg' _).trans h1
    linarith
  refine max_le ?_ ?_
  · rw [error1, div_le_iff₀ (by norm_num)]
    linarith
  · rw [error2, div_le_iff₀ (by norm_num)]
    refine le_trans h2 ?_
    linarith

/-- when steps up to η pass with room to spare, the retries of a longer one do not shrink it below a fifth of η, and the
step that is left is at least a fifth of the accepted one -/
theorem rk2_floor (hf : Computes F f) (htol : 0 < tolerance) {η : ℝ} (hη : 0 < η)
    (hsmall : ∀ g, 0 < g → g ≤ η → errorRK2 F t u g ≤ 0.9 ^ 3 * tolerance) {fuel : ℕ} {m' : Unit} {y' : Vec ℝ}
    {h h' g : ℝ} (hh : 0 < h) (hs : step f tolerance t (List.ofFn u) fuel h = .returned m' y' h' g) :
    (h ≤ η → h ≤ h') ∧ (η < h → 0.04 * η ≤ h') := by
  induction fuel generalizing h with
  | zero => cases hs
  | succ fuel ih =>
    have he0 : 0 ≤ errorRK2 F t u h := errorRK2_nonneg h
    unfold step at hs
    rw [rk2_attempt hf] at hs
    dsimp only at hs
    generalize hfac : mulTop (safetyFactor : ℝ) (powTop (quot tolerance (errorRK2 F t u h)) (1.0 / 3.0)) = factor at hs
    split_ifs at hs with he
    · simp only [StepEnd.returned.injEq] at hs
      obtain ⟨-, -, rfl, -⟩ := hs
      constructor
      · intro hshort
        rw [← hfac]
        exact le_mul_of_one_le_right hh.le (one_le_clampTop_ratio (k := 3) (by norm_num [safetyFactor]) htol he0
          (by norm_num [maxFactor]) (by norm_num) (by norm_num) (hsmall h hh hshort))
      · intro hlong
        have hlow : 0.2 ≤ clampTop minFactor maxFactor factor := le_clampTop (by norm_num [minFactor, maxFactor])
        nlinarith
    · have hlong : η < h := by
        by_contra hshort
        have hle := hsmall h hh (not_lt.1 hshort)
        exact he (hle.trans (by linarith))
      obtain ⟨hc0, -⟩ := retry_factor htol (not_le.1 he)
      rw [show mulTop 0.9 (powTop (quot tolerance (errorRK2 F t u h)) (1.0 / 3.0)) = factor from hfac] at hc0
      have hfifth : 0.2 ≤ maxTop 0.2 factor := le_maxTop _ _
      obtain ⟨hkept, hpart⟩ := ih (mul_pos hh hc0) hs
      refine ⟨fun hshort => absurd hshort (not_le.2 hlong), fun _ => ?_⟩
      rcases le_or_gt (h * maxTop 0.2 factor) η with hle | hgt
      · refine le_trans ?_ (hkept hle)
        nlinarith
      · exact hpart hgt

/-- a field that grows linearly is bounded near every point -/
theorem GrowsLinearly.boundedNear (hF : GrowsLinearly F L) (t : ℝ) (u : Fin n → ℝ) : BoundedNear F t u := by
  have hnorm : Filter.Tendsto (fun p : ℝ × (Fin n → ℝ) => ‖p.2‖) (nhds (t, u)) (nhds ‖u‖) :=
    continuous_snd.norm.continuousAt
  refine ⟨L * (1 + (‖u‖ + 1)), (hnorm.eventually_lt_const (lt_add_one _)).mono fun p hp => ?_⟩
  exact (hF.bound p.1 p.2).trans (mul_le_mul_of_nonneg_left (add_le_add_right hp.le 1) hF.pos.le)

theorem rk2_controls (hf : Computes F f) (hF : GrowsLinearly F L) (htol : 0 < tolerance) :
    Controls (driver f tolerance) n (5 * L) where
  clip _ _ _ _ := rfl
  returned := by
    intro _ t h y' h' m g u hh hs
    obtain ⟨hg, -, e, ha, -, rfl⟩ := step_returned htol hh hs
    rw [rk2_attempt hf, Except.ok.injEq, Prod.mk.injEq] at ha
    obtain ⟨rfl, rfl⟩ := ha
    generalize mulTop (0.9 : ℝ) (powTop (quot tolerance (errorRK2 F t u g)) (1.0 / 3.0)) = factor
    have hlow : 0.2 ≤ clampTop 0.2 5.0 factor := le_clampTop (by norm_num)
    have hfifth : g ≤ 5 * (g * clampTop 0.2 5.0 factor) := by nlinarith
    have hLg : 0 ≤ L * g := (mul_pos hF.pos hg).le
    refine ⟨by linarith, _, rfl, ?_⟩
    calc 1 + ‖rk2Next F t u g‖ ≤ (1 + L * g + (L * g) ^ 2 / 2) * (1 + ‖u‖) := rk2_growth hF hg.le
      _ ≤ Real.exp (L * g) * (1 + ‖u‖) :=
        mul_le_mul_of_nonneg_right (Real.quadratic_le_exp_of_nonneg hLg) (by positivity)
      _ = (1 + ‖u‖) * Real.exp (L * g) := mul_comm _ _
      _ ≤ _ := by
        refine mul_le_mul_of_nonneg_left (Real.exp_le_exp.2 ?_) (by positivity)
        linarith [mul_le_mul_of_nonneg_left hfifth hF.pos.le]
  rejected := by
    intro _ s h e m y' h' _ _ hc
    cases hc
  floor := by
    intro R
    have hL := hF.pos
    have hC : 0 < L * (Real.sqrt n + 1) * (|R| + 1) := by positivity
    let η := min (1 / L) (0.9 ^ 3 * tolerance / (L * (Real.sqrt n + 1) * (|R| + 1)))
    have hη : 0 < η := by positivity
    refine ⟨η, hη, 0.04 * η, by positivity, fun fuel t h u hh hu => ⟨fun m y' h' g hs => ?_, fun e m y' h' _ hc => ?_⟩⟩
    · refine rk2_floor hf htol hη (fun g hg hshort => ?_) hh hs
      obtain ⟨h1, h2⟩ := le_min_iff.1 hshort
      rw [le_div_iff₀ hL, mul_comm] at h1
      rw [le_div_iff₀ hC] at h2
      refine (rk2_error hF hg h1 hu).trans (le_trans ?_ h2)
      have hroot : Real.sqrt n * R ≤ (Real.sqrt n + 1) * (|R| + 1) :=
        mul_le_mul (by linarith) ((le_abs_self R).trans (by linarith)) (le_trans (by positivity) hu) (by positivity)
      calc L * g * (Real.sqrt n * R) ≤ L * g * ((Real.sqrt n + 1) * (|R| + 1)) :=
            mul_le_mul_of_nonneg_left hroot (mul_pos hL hg).le
        _ = g * (L * (Real.sqrt n + 1) * (|R| + 1)) := by ring
    · cases hc

/-- more fuel does not change a call of `Step` that has enough -/
theorem rk2_step_stable {y : Vec ℝ} {fuel0 : ℕ} (hfed : ∀ m, step f tolerance t y fuel0 h ≠ .starved m) {fuel : ℕ}
    (hfuel : fuel ≥ fuel0) : step f tolerance t y fuel h = step f tolerance t y fuel0 h := by
  induction fuel0 generalizing h fuel with
  | zero => exact absurd rfl (hfed ())
  | succ fuel0 ih =>
    obtain ⟨fuel, rfl⟩ := Nat.exists_eq_add_of_le' (show 1 ≤ fuel by omega)
    unfold step at hfed ⊢
    split
    · rfl
    · rename_i y1 e ha
      rw [ha] at hfed
      dsimp only at hfed ⊢
      split_ifs at hfed ⊢
      · rfl
      · exact ih hfed (by omega)

theorem rk2_stable : StepStable (driver f tolerance) where
  clip _ _ := rfl
  tiny _ _ := rfl
  stops _ _ := rfl
  catches _ _ := rfl
  rejected _ _ := rfl
  step _ _ _ _ _ hfed _ hfuel := rk2_step_stable hfed hfuel

end RK2

end OdeClientServer.LinearGrowth
