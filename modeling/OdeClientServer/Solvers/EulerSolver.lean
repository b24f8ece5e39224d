/-
`EulerSolver`: the explicit Euler step with the trapezoidal error estimate.

`Step` throws a `std::runtime_error` for a rejected step, after it has shrunk the reference argument h; `Solve` catches
it and halves what `Step` left there.
-/
import OdeClientServer.Solvers.Solver

namespace OdeClientServer.EulerSolver

open Loop

section Model

variable {R : Type} [Field R] [LinearOrder R] [CMath R]

def safetyFactor : R := 0.9
def maxFactor : R := 2.0
def minFactor : R := 0.2

/-- the trial state `y + h f(t, y)` -/
def update (f : Rhs R) (t : R) (y : Vec R) (h : R) : Except Exn (Vec R) := do
  let k := multiplyScalarByVector h (← f t y)
  addVectors y k

/-- the trial state and its local error -/
def attempt (f : Rhs R) (t : R) (y : Vec R) (h : R) : Except Exn (Vec R × R) := do
  let yTemp ← update f t y h
  let fCurr ← f t y
  let fNext ← f (t + h) yTemp
  let error ← maxOver y.length fun i => do return |0.5 * h * ((← read fNext i) - (← read fCurr i))|
  return (yTemp, error)

def step (f : Rhs R) (tolerance t : R) (y : Vec R) (h : R) : StepEnd Unit R R :=
  match attempt f t y h with
  | .error e => .threw e () y h
  | .ok (yTemp, error) =>
    if error > tolerance then
      .threw (.runtimeError "Step rejected") () y
        (h * max (safetyFactor * CMath.sqrt (tolerance / error)) minFactor)
    else
      .returned () yTemp (h * min (safetyFactor * CMath.sqrt (tolerance / (error + 1e-12))) maxFactor) h

def driver (f : Rhs R) (tolerance : R) : Driver Unit R R where
  clip t h tEnd := min h (tEnd - t)
  tiny h := h ≤ 0
  step _ := step f tolerance
  stops _ _ _ := false
  catches := Exn.isRuntimeError
  rejected s _ h := { s with h := h * 0.5 }

/-- at most n passes of `Solve` -/
def solve (f : Rhs R) (stepSize t0 : R) (y0 : Vec R) (tEnd tolerance : R) (n : ℕ) : Pass Exn (RunState Unit R R) :=
  run ((driver f tolerance).body tEnd) n (start () t0 y0 stepSize)

end Model

variable {f : Rhs ℝ} {tolerance t h : ℝ} {y : Vec ℝ}

/-- the local error of the attempt from (t, y) with step h -/
noncomputable def localError (f : Rhs ℝ) (t : ℝ) (y : Vec ℝ) (h : ℝ) : Except Exn ℝ := (·.2) <$> attempt f t y h

theorem attempt_update {y' : Vec ℝ} {e : ℝ} (ha : attempt f t y h = .ok (y', e)) : update f t y h = .ok y' := by
  unfold attempt at ha
  obtain ⟨y1, h1, ha⟩ := bind_eq_ok.1 ha
  obtain ⟨_, -, ha⟩ := bind_eq_ok.1 ha
  obtain ⟨_, -, ha⟩ := bind_eq_ok.1 ha
  obtain ⟨_, -, ha⟩ := bind_eq_ok.1 ha
  cases ha
  exact h1

/-- an accepted step: its attempt is within the tolerance, and h is scaled for the next step -/
theorem step_returned {m' : Unit} {y' : Vec ℝ} {h' g : ℝ} (hs : step f tolerance t y h = .returned m' y' h' g) :
    g = h ∧ ∃ e, attempt f t y h = .ok (y', e) ∧ e ≤ tolerance ∧
      h' = h * min (0.9 * Real.sqrt (tolerance / (e + 1e-12))) 2.0 := by
  unfold step at hs
  split at hs
  · cases hs
  · rename_i y1 e ha
    split_ifs at hs with he
    cases hs
    exact ⟨rfl, e, ha, not_lt.1 he, rfl⟩

/-- a step that throws leaves y, and leaves h as it was or scaled by the error of the rejected attempt -/
theorem step_threw_cases {m' : Unit} {y' : Vec ℝ} {h' : ℝ} {e : Exn} (hs : step f tolerance t y h = .threw e m' y' h') :
    y' = y ∧ (h' = h ∨
      ∃ error, tolerance < error ∧ h' = h * max (safetyFactor * Real.sqrt (tolerance / error)) minFactor) := by
  unfold step at hs
  split at hs
  · cases hs; exact ⟨rfl, Or.inl rfl⟩
  · rename_i error _
    split_ifs at hs with he
    cases hs
    exact ⟨rfl, Or.inr ⟨error, he, rfl⟩⟩

/-- a step that throws leaves y, and leaves h positive -/
theorem step_threw {m' : Unit} {y' : Vec ℝ} {h' : ℝ} {e : Exn} (hh : 0 < h)
    (hs : step f tolerance t y h = .threw e m' y' h') : y' = y ∧ 0 < h' := by
  obtain ⟨hy, rfl | ⟨error, -, rfl⟩⟩ := step_threw_cases hs
  · exact ⟨hy, hh⟩
  · exact ⟨hy, mul_pos hh (lt_max_of_lt_right (by norm_num [minFactor]))⟩

/-- a step that throws does not leave a larger h -/
theorem step_threw_le {m' : Unit} {y' : Vec ℝ} {h' : ℝ} {e : Exn} (htol : 0 < tolerance) (hh : 0 < h)
    (hs : step f tolerance t y h = .threw e m' y' h') : h' ≤ h := by
  obtain ⟨-, rfl | ⟨error, he, rfl⟩⟩ := step_threw_cases hs
  · exact le_rfl
  · have hroot : Real.sqrt (tolerance / error) ≤ 1 :=
      Real.sqrt_le_one.2 ((div_le_one (htol.trans he)).2 he.le)
    refine mul_le_of_le_one_right hh.le (max_le ?_ (by norm_num [minFactor]))
    rw [safetyFactor]
    linarith

theorem attempt_nonneg {y' : Vec ℝ} {e : ℝ} (ha : attempt f t y h = .ok (y', e)) : 0 ≤ e := by
  unfold attempt at ha
  obtain ⟨_, -, ha⟩ := bind_eq_ok.1 ha
  obtain ⟨_, -, ha⟩ := bind_eq_ok.1 ha
  obtain ⟨_, -, ha⟩ := bind_eq_ok.1 ha
  obtain ⟨_, hm, ha⟩ := bind_eq_ok.1 ha
  cases ha
  exact maxOver_nonneg hm

theorem factor_pos {e : ℝ} (htol : 0 < tolerance) (he : 0 ≤ e) :
    0 < min (0.9 * Real.sqrt (tolerance / (e + 1e-12))) 2.0 := by
  have hroot : 0 < Real.sqrt (tolerance / (e + 1e-12)) := Real.sqrt_pos.2 (by positivity)
  exact lt_min (by positivity) (by norm_num)

/-- the growth factor is 1 for exactly one local error -/
theorem factor_eq_one {e : ℝ} (htol : 0 < tolerance) (he : 0 ≤ e) :
    min (0.9 * Real.sqrt (tolerance / (e + 1e-12))) 2.0 = 1 ↔ e = 0.81 * tolerance - 1e-12 := by
  rw [min_eq_one_iff (by norm_num), Real.sqrt_eq_rpow]
  have h : 0.9 * (tolerance / (e + 1e-12)) ^ (1 / ((2 : ℕ) : ℝ)) = 1 ↔ e + 1e-12 = 0.9 ^ 2 * tolerance :=
    mul_rpow_ratio_eq_one (by norm_num) htol (by positivity) two_ne_zero
  push_cast at h
  rw [h]
  constructor <;> intro h1 <;> linarith

/-- **Clock of a step.** The new h is the step length of the attempt for exactly one local error. -/
theorem step_clock {m' : Unit} {y' : Vec ℝ} {h' g : ℝ} (htol : 0 < tolerance) (hh : 0 < h)
    (hs : step f tolerance t y h = .returned m' y' h' g) :
    update f t y g = .ok y' ∧ g = h ∧ (h' = g ↔ localError f t y g = .ok (0.81 * tolerance - 1e-12)) := by
  obtain ⟨rfl, e, ha, -, rfl⟩ := step_returned hs
  refine ⟨attempt_update ha, rfl, ?_⟩
  rw [mul_eq_left₀ hh.ne', factor_eq_one htol (attempt_nonneg ha), localError, ha, except_map, Except.ok.injEq]

theorem driver_sound (htol : 0 < tolerance) : (driver f tolerance).Sound fun _ => True where
  clip_eq _ _ _ := rfl
  returned := by
    intro m t y h m' y' h' g _ hh hs
    obtain ⟨-, e, ha, -, rfl⟩ := step_returned hs
    exact ⟨trivial, mul_pos hh (factor_pos htol (attempt_nonneg ha))⟩
  threw := by
    intro s h e m' y' h' _ _ hh hs _
    obtain ⟨-, hh'⟩ := step_threw hh hs
    exact ⟨trivial, mul_pos hh' (by norm_num), rfl, rfl, rfl, rfl⟩

end OdeClientServer.EulerSolver
