/-
`RK2Solver`: the two-stage scheme with the two error estimates (3.50) and (3.51).

`Step` repeats the attempt with a smaller h until the error is within the tolerance. The loop has no other exit, so its
model takes fuel and `.starved` is the run that is cut off.
-/
import OdeClientServer.Solvers.Solver

namespace OdeClientServer.RK2Solver

open Loop

section Model

variable {R : Type} [Field R] [LinearOrder R] [CMath R]

def b21 : R := 2.0 / 3.0
def p1 : R := 1.0 / 4.0
def p2 : R := 3.0 / 4.0
def safetyFactor : R := 0.9
def maxFactor : R := 5.0
def minFactor : R := 0.2

/-- k1 and k2; both evaluate f at the time t -/
def stages (f : Rhs R) (t : R) (y : Vec R) (h : R) : Except Exn (Vec R × Vec R) := do
  let k1 := multiplyScalarByVector h (← f t y)
  let k2 := multiplyScalarByVector h (← f t (← addVectors y (multiplyScalarByVector b21 k1)))
  return (k1, k2)

def nextValue (y k1 k2 : Vec R) : Except Exn (Vec R) := do
  addVectors y (← addVectors (multiplyScalarByVector p1 k1) (multiplyScalarByVector p2 k2))

/-- the new value of an attempt -/
def update (f : Rhs R) (t : R) (y : Vec R) (h : R) : Except Exn (Vec R) := do
  let (k1, k2) ← stages f t y h
  nextValue y k1 k2

/-- one pass of the retry loop: the new value and its error -/
def attempt (f : Rhs R) (t : R) (y : Vec R) (h : R) : Except Exn (Vec R × R) := do
  let (k1, k2) ← stages f t y h
  let yNext ← nextValue y k1 k2
  let hfNext := multiplyScalarByVector h (← f (t + h) yNext)
  let error1 := norm (← subtractVectors k2 k1) / 4.0
  let error2 := norm (← subtractVectors hfNext k1) / 6.0
  return (yNext, max error1 error2)

def step (f : Rhs R) (tolerance t : R) (y : Vec R) : ℕ → R → StepEnd Unit R R
  | 0, _ => .starved ()
  | fuel + 1, h =>
    match attempt f t y h with
    | .error e => .threw e () y h
    | .ok (yNext, error) =>
      let factor := mulTop safetyFactor (powTop (quot tolerance error) (1.0 / 3.0))
      if error ≤ tolerance then .returned () yNext (h * clampTop minFactor maxFactor factor) h
      else step f tolerance t y fuel (h * maxTop minFactor factor)

def driver (f : Rhs R) (tolerance : R) (fuel : ℕ) : Driver Unit R R where
  clip t h tEnd := min h (tEnd - t)
  tiny _ := false
  step _ t y h := step f tolerance t y fuel h
  stops _ _ _ := false
  catches _ := false
  rejected s _ _ := s

/-- at most n passes of `Solve`, each with at most `fuel` attempts in `Step` -/
def solve (f : Rhs R) (stepSize t0 : R) (y0 : Vec R) (tEnd tolerance : R) (fuel n : ℕ) :
    Pass Exn (RunState Unit R R) :=
  run ((driver f tolerance fuel).body tEnd) n (start () t0 y0 stepSize)

end Model

variable {f : Rhs ℝ} {tolerance t h : ℝ} {y : Vec ℝ}

/-- the error of the attempt from (t, y) with step h -/
noncomputable def localError (f : Rhs ℝ) (t : ℝ) (y : Vec ℝ) (h : ℝ) : Except Exn ℝ := (·.2) <$> attempt f t y h

theorem attempt_update {y' : Vec ℝ} {e : ℝ} (ha : attempt f t y h = .ok (y', e)) : update f t y h = .ok y' := by
  unfold attempt at ha
  obtain ⟨k, hk, ha⟩ := bind_eq_ok.1 ha
  obtain ⟨y1, h1, ha⟩ := bind_eq_ok.1 ha
  obtain ⟨_, -, ha⟩ := bind_eq_ok.1 ha
  obtain ⟨_, -, ha⟩ := bind_eq_ok.1 ha
  obtain ⟨_, -, ha⟩ := bind_eq_ok.1 ha
  cases ha
  exact bind_eq_ok.2 ⟨k, hk, h1⟩

theorem attempt_nonneg {y' : Vec ℝ} {e : ℝ} (ha : attempt f t y h = .ok (y', e)) : 0 ≤ e := by
  unfold attempt at ha
  obtain ⟨_, -, ha⟩ := bind_eq_ok.1 ha
  obtain ⟨_, -, ha⟩ := bind_eq_ok.1 ha
  obtain ⟨_, -, ha⟩ := bind_eq_ok.1 ha
  obtain ⟨d, -, ha⟩ := bind_eq_ok.1 ha
  obtain ⟨_, -, ha⟩ := bind_eq_ok.1 ha
  cases ha
  exact le_max_of_le_left (div_nonneg (norm_nonneg' d) (by norm_num))

/-- a retry shrinks h -/
theorem retry_factor {e : ℝ} (htol : 0 < tolerance) (he : tolerance < e) :
    let c := maxTop 0.2 (mulTop 0.9 (powTop (quot tolerance e) (1.0 / 3.0)))
    0 < c ∧ c < 1 := by
  have hpos : 0 < e := htol.trans he
  have hroot : (tolerance / e) ^ ((1.0 : ℝ) / 3.0) ≤ 1 :=
    Real.rpow_le_one (by positivity) ((div_le_one hpos).2 he.le) (by norm_num)
  rw [quot_of_ne hpos.ne', powTop_coe, mulTop_coe, maxTop_coe]
  exact ⟨lt_max_of_lt_left (by norm_num), max_lt (by norm_num) (by linarith)⟩

/-- **Accepted step.** The retry loop returns from an attempt with a step length that is at most the first one, whose
error is within the tolerance, and h is scaled for the next step. -/
theorem step_returned {fuel : ℕ} {m' : Unit} {y' : Vec ℝ} {h' g : ℝ} (htol : 0 < tolerance) (hh : 0 < h)
    (hs : step f tolerance t y fuel h = .returned m' y' h' g) :
    0 < g ∧ g ≤ h ∧ ∃ e, attempt f t y g = .ok (y', e) ∧ e ≤ tolerance ∧
      h' = g * clampTop 0.2 5.0 (mulTop 0.9 (powTop (quot tolerance e) (1.0 / 3.0))) := by
  induction fuel generalizing h with
  | zero => cases hs
  | succ fuel ih =>
    unfold step at hs
    split at hs
    · cases hs
    · rename_i y1 e ha
      dsimp only at hs
      split_ifs at hs with he
      · cases hs
        exact ⟨hh, le_rfl, e, ha, he, rfl⟩
      · obtain ⟨hc0, hc1⟩ := retry_factor htol (not_le.1 he)
        obtain ⟨hg0, hg1, hrest⟩ := ih (mul_pos hh hc0) hs
        exact ⟨hg0, hg1.trans (mul_le_of_le_one_right hh.le hc1.le), hrest⟩

/-- **Clock of a step.** The new h is the step length of the accepted attempt for exactly one error estimate. -/
theorem step_clock {fuel : ℕ} {m' : Unit} {y' : Vec ℝ} {h' g : ℝ} (htol : 0 < tolerance) (hh : 0 < h)
    (hs : step f tolerance t y fuel h = .returned m' y' h' g) :
    update f t y g = .ok y' ∧ 0 < g ∧ g ≤ h ∧ (h' = g ↔ localError f t y g = .ok (0.729 * tolerance)) := by
  obtain ⟨hg0, hg1, e, ha, -, rfl⟩ := step_returned htol hh hs
  refine ⟨attempt_update ha, hg0, hg1, ?_⟩
  rw [mul_eq_left₀ hg0.ne', clampTop_ratio_eq_one (k := 3) (by norm_num) htol (attempt_nonneg ha) (by norm_num)
    (by norm_num) (by norm_num) (by norm_num), localError, ha, except_map, Except.ok.injEq]
  norm_num

theorem driver_sound (htol : 0 < tolerance) (fuel : ℕ) : (driver f tolerance fuel).Sound fun _ => True where
  clip_eq _ _ _ := rfl
  returned := by
    intro m t y h m' y' h' g _ hh hs
    obtain ⟨hg0, -, e, -, -, rfl⟩ := step_returned htol hh hs
    exact ⟨trivial, mul_pos hg0 (clampTop_pos (by norm_num) (by norm_num) _)⟩
  threw := by
    intro s h e m' y' h' _ _ _ _ hc
    cases hc

end OdeClientServer.RK2Solver
