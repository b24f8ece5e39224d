/-
`STEKSSolver`: the five-stage scheme of order four with an accuracy and a stability condition.

`Solve` leaves its loop when the attempted step is below 1e-12. The catch block halves the base step, not the clipped
attempt.
-/
import OdeClientServer.Solvers.Solver

namespace OdeClientServer.STEKSSolver

open Loop

/-- k1, ..., k5 -/
structure Stages (R : Type) where
  k1 : Vec R
  k2 : Vec R
  k3 : Vec R
  k4 : Vec R
  k5 : Vec R

section Model

variable {R : Type} [Field R] [LinearOrder R] [CMath R]

def safety : R := 0.9
def minScale : R := 0.2
def maxScale : R := 5.0

def stages (f : Rhs R) (t : R) (y : Vec R) (h : R) : Except Exn (Stages R) := do
  let k1 := multiplyScalarByVector h (← f t y)
  let y2 ← addVectors y (multiplyScalarByVector (1.0 / 3.0) k1)
  let k2 := multiplyScalarByVector h (← f (t + h / 3.0) y2)
  let y3 ← addVectors (← addVectors y (multiplyScalarByVector (1.0 / 6.0) k1))
    (multiplyScalarByVector (1.0 / 6.0) k2)
  let k3 := multiplyScalarByVector h (← f (t + h / 3.0) y3)
  let y4 ← addVectors (← addVectors y (multiplyScalarByVector (1.0 / 8.0) k1))
    (multiplyScalarByVector (3.0 / 8.0) k3)
  let k4 := multiplyScalarByVector h (← f (t + h / 2.0) y4)
  let y5 ← addVectors (← addVectors (← addVectors y (multiplyScalarByVector 0.5 k1))
    (multiplyScalarByVector (-1.5) k3)) (multiplyScalarByVector 2.0 k4)
  let k5 := multiplyScalarByVector h (← f (t + h) y5)
  return ⟨k1, k2, k3, k4, k5⟩

def nextValue (y : Vec R) (k : Stages R) : Except Exn (Vec R) := do
  addVectors (← addVectors y (multiplyScalarByVector (1.0 / 6.0) k.k1))
    (← addVectors (multiplyScalarByVector (2.0 / 3.0) k.k4) (multiplyScalarByVector (1.0 / 6.0) k.k5))

/-- the new value of an attempt -/
def update (f : Rhs R) (t : R) (y : Vec R) (h : R) : Except Exn (Vec R) := do
  nextValue y (← stages f t y h)

def computeError (k : Stages R) : Except Exn R := do
  let precisionTerm ← subtractVectors
    (← addVectors (multiplyScalarByVector 2.0 k.k1) (multiplyScalarByVector (-9.0) k.k3))
    (← addVectors (multiplyScalarByVector 8.0 k.k4) k.k5)
  let precisionError := (norm precisionTerm / 30.0) / (5.0 * CMath.exp (5.0 / 4.0))
  let stabilityError ← maxOver k.k1.length fun i => do
    let denominator := (← read k.k2 i) - (← read k.k1 i)
    let denominator := if |denominator| < 1e-12 then 1e-12 else denominator
    return |((← read k.k3 i) - (← read k.k2 i)) / denominator|
  return max precisionError (6.0 / 3.5 * stabilityError)

def step (f : Rhs R) (tolerance t : R) (y : Vec R) (h : R) : StepEnd Unit R R :=
  match (do
    let k ← stages f t y h
    return (k, ← computeError k)) with
  | .error e => .threw e () y h
  | .ok (k, error) =>
    let scale := clampTop minScale maxScale (mulTop safety (powTop (quot tolerance error) (1.0 / 4.0)))
    if error > tolerance then .threw (.runtimeError "Step rejected") () y (h * scale)
    else
      match nextValue y k with
      | .error e => .threw e () y h
      | .ok yTemp => .returned () yTemp (h * scale) h

def driver (f : Rhs R) (tolerance : R) : Driver Unit R R where
  clip t h tEnd := min h (tEnd - t)
  tiny h := h < 1e-12
  step _ := step f tolerance
  stops _ _ _ := false
  catches := Exn.isRuntimeError
  rejected s _ _ := { s with h := s.h * 0.5 }

/-- at most n passes of `Solve` -/
def solve (f : Rhs R) (stepSize t0 : R) (y0 : Vec R) (tEnd tolerance : R) (n : ℕ) : Pass Exn (RunState Unit R R) :=
  run ((driver f tolerance).body tEnd) n (start () t0 y0 stepSize)

end Model

variable {f : Rhs ℝ} {tolerance t h : ℝ} {y : Vec ℝ}

/-- the error `computeError` gives the attempt from (t, y) with step h -/
noncomputable def localError (f : Rhs ℝ) (t : ℝ) (y : Vec ℝ) (h : ℝ) : Except Exn ℝ := do
  computeError (← stages f t y h)

theorem computeError_nonneg {k : Stages ℝ} {e : ℝ} (he : computeError k = .ok e) : 0 ≤ e := by
  obtain ⟨_, -, h⟩ := bind_eq_ok.1 he
  obtain ⟨_, -, h⟩ := bind_eq_ok.1 h
  obtain ⟨_, -, h⟩ := bind_eq_ok.1 h
  obtain ⟨_, hs, h⟩ := bind_eq_ok.1 h
  cases h
  exact le_max_of_le_right (mul_nonneg (by norm_num) (maxOver_nonneg hs))

/-- an accepted step: its error is within the tolerance, and h is scaled for the next step -/
theorem step_returned {m' : Unit} {y' : Vec ℝ} {h' g : ℝ} (hs : step f tolerance t y h = .returned m' y' h' g) :
    g = h ∧ update f t y h = .ok y' ∧ ∃ e, localError f t y h = .ok e ∧ 0 ≤ e ∧ e ≤ tolerance ∧
      h' = h * clampTop 0.2 5.0 (mulTop 0.9 (powTop (quot tolerance e) (1.0 / 4.0))) := by
  unfold step at hs
  split at hs
  · cases hs
  · rename_i k e ha
    obtain ⟨k', hk, ha⟩ := bind_eq_ok.1 ha
    obtain ⟨e', hc, ha⟩ := bind_eq_ok.1 ha
    cases ha
    dsimp only at hs
    split_ifs at hs with he
    split at hs
    · cases hs
    · rename_i y1 hy
      cases hs
      exact ⟨rfl, bind_eq_ok.2 ⟨_, hk, hy⟩, e, bind_eq_ok.2 ⟨_, hk, hc⟩, computeError_nonneg hc, not_lt.1 he, rfl⟩

/-- a step that throws leaves y -/
theorem step_threw {m' : Unit} {y' : Vec ℝ} {h' : ℝ} {e : Exn} (hs : step f tolerance t y h = .threw e m' y' h') :
    y' = y := by
  unfold step at hs
  split at hs
  · cases hs; rfl
  · dsimp only at hs
    split_ifs at hs
    · cases hs; rfl
    · split at hs
      · cases hs; rfl
      · cases hs

/-- an attempt whose error is above the tolerance is rejected -/
theorem step_rejected {e : ℝ} (he : localError f t y h = .ok e) (hlarge : tolerance < e) :
    ∃ h', step f tolerance t y h = .threw (.runtimeError "Step rejected") () y h' := by
  obtain ⟨k, hk, hc⟩ := bind_eq_ok.1 he
  simp only [step, hk, ok_bind, hc, except_pure]
  rw [if_pos hlarge]
  exact ⟨_, rfl⟩

/-- **Clock of a step.** The new h is the step length of the attempt for exactly one error. -/
theorem step_clock {m' : Unit} {y' : Vec ℝ} {h' g : ℝ} (htol : 0 < tolerance) (hh : 0 < h)
    (hs : step f tolerance t y h = .returned m' y' h' g) :
    update f t y g = .ok y' ∧ g = h ∧ (h' = g ↔ localError f t y g = .ok (0.6561 * tolerance)) := by
  obtain ⟨rfl, hu, e, he, he0, -, rfl⟩ := step_returned hs
  refine ⟨hu, rfl, ?_⟩
  rw [mul_eq_left₀ hh.ne', clampTop_ratio_eq_one (k := 4) (by norm_num) htol he0 (by norm_num) (by norm_num)
    (by norm_num) (by norm_num), he, Except.ok.injEq]
  norm_num

theorem driver_sound : (driver f tolerance).Sound fun _ => True where
  clip_eq _ _ _ := rfl
  returned := by
    intro m t y h m' y' h' g _ hh hs
    obtain ⟨-, -, e, -, -, -, rfl⟩ := step_returned hs
    exact ⟨trivial, mul_pos hh (clampTop_pos (by norm_num) (by norm_num) _)⟩
  threw := by
    intro s h e m' y' h' _ hsh _ hs _
    exact ⟨trivial, mul_pos hsh (by norm_num), rfl, rfl, rfl, rfl⟩

end OdeClientServer.STEKSSolver
