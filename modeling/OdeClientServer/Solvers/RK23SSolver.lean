/-
`RK23SSolver`: the three-stage scheme with the accuracy condition (4.7) and the stability condition (4.14).

`Solve` leaves its loop when the attempted step is below 1e-12. A rejected attempt throws after h has been shrunk, and
the catch block halves what is left there.
-/
import OdeClientServer.Solvers.Solver

namespace OdeClientServer.RK23SSolver

open Loop

section Model

variable {R : Type} [Field R] [LinearOrder R] [CMath R]

def alpha2 : R := 2.0 / 3.0
def alpha3 : R := 2.0 / 3.0
def beta21 : R := 2.0 / 3.0
def beta31 : R := 1.0 / 3.0
def beta32 : R := 1.0 / 3.0
def p1 : R := 1.0 / 4.0
def p2 : R := 15.0 / 32.0
def p3 : R := 9.0 / 32.0
def g : R := 1.0 / 16.0
def safety : R := 0.9
def minScale : R := 0.2
def maxScale : R := 5.0

def stages (f : Rhs R) (t : R) (y : Vec R) (h : R) : Except Exn (Vec R × Vec R × Vec R) := do
  let k1 := multiplyScalarByVector h (← f t y)
  let y2 ← addVectors y (multiplyScalarByVector beta21 k1)
  let k2 := multiplyScalarByVector h (← f (t + alpha2 * h) y2)
  let y3 ← addVectors y (← addVectors (multiplyScalarByVector beta31 k1) (multiplyScalarByVector beta32 k2))
  let k3 := multiplyScalarByVector h (← f (t + alpha3 * h) y3)
  return (k1, k2, k3)

def nextValue (y k1 k2 k3 : Vec R) : Except Exn (Vec R) := do
  addVectors y (← addVectors (multiplyScalarByVector p1 k1)
    (← addVectors (multiplyScalarByVector p2 k2) (multiplyScalarByVector p3 k3)))

/-- the new value of an attempt -/
def update (f : Rhs R) (t : R) (y : Vec R) (h : R) : Except Exn (Vec R) := do
  let (k1, k2, k3) ← stages f t y h
  nextValue y k1 k2 k3

/-- the largest ratio `3 |(k3 - k2) / (k3 - k1)|` over the components -/
def stability (k1 k2 k3 : Vec R) : Except Exn R :=
  maxOver k1.length fun i => do
    let denominator := (← read k3 i) - (← read k1 i)
    let denominator := if |denominator| < 1e-12 then 1e-12 else denominator
    return 3.0 * |((← read k3 i) - (← read k2 i)) / denominator|

def computeError (k1 k2 k3 : Vec R) (tolerance : R) : Except Exn R := do
  let diffK2K1 ← subtractVectors k2 k1
  let errPrecision := (6.0 * alpha2 * tolerance) / (1.0 - 6.0 * g) * norm diffK2K1
  return max errPrecision (← stability k1 k2 k3)

def step (f : Rhs R) (tolerance t : R) (y : Vec R) (h : R) : StepEnd Unit R R :=
  match (do
    let (k1, k2, k3) ← stages f t y h
    return (k1, k2, k3, ← computeError k1 k2 k3 tolerance)) with
  | .error e => .threw e () y h
  | .ok (k1, k2, k3, error) =>
    let scale := mulTop safety (powTop (quot tolerance error) (1.0 / 3.0))
    if error > tolerance then .threw (.runtimeError "Step rejected") () y (h * maxTop minScale scale)
    else
      match nextValue y k1 k2 k3 with
      | .error e => .threw e () y h
      | .ok yTemp => .returned () yTemp (h * minTop scale maxScale) h

def driver (f : Rhs R) (tolerance : R) : Driver Unit R R where
  clip t h tEnd := min h (tEnd - t)
  tiny h := h < 1e-12
  step _ := step f tolerance
  stops _ _ _ := false
  catches := Exn.isRuntimeError
  rejected s _ h := { s with h := h * 0.5 }

/-- at most n passes of `Solve` -/
def solve (f : Rhs R) (stepSize t0 : R) (y0 : Vec R) (tEnd tolerance : R) (n : ℕ) : Pass Exn (RunState Unit R R) :=
  run ((driver f tolerance).body tEnd) n (start () t0 y0 stepSize)

end Model

variable {f : Rhs ℝ} {tolerance t h : ℝ} {y : Vec ℝ}

/-- the error `computeError` gives the attempt from (t, y) with step h -/
noncomputable def localError (f : Rhs ℝ) (tolerance t : ℝ) (y : Vec ℝ) (h : ℝ) : Except Exn ℝ := do
  let (k1, k2, k3) ← stages f t y h
  computeError k1 k2 k3 tolerance

theorem computeError_nonneg {k1 k2 k3 : Vec ℝ} {e : ℝ} (he : computeError k1 k2 k3 tolerance = .ok e) : 0 ≤ e := by
  obtain ⟨_, -, h⟩ := bind_eq_ok.1 he
  obtain ⟨_, hs, h⟩ := bind_eq_ok.1 h
  cases h
  exact le_max_of_le_right (maxOver_nonneg hs)

/-- an accepted step: its error is within the tolerance, and h is scaled for the next step -/
theorem step_returned {m' : Unit} {y' : Vec ℝ} {h' g' : ℝ} (hs : step f tolerance t y h = .returned m' y' h' g') :
    g' = h ∧ update f t y h = .ok y' ∧ ∃ e, localError f tolerance t y h = .ok e ∧ 0 ≤ e ∧ e ≤ tolerance ∧
      h' = h * minTop (mulTop 0.9 (powTop (quot tolerance e) (1.0 / 3.0))) 5.0 := by
  unfold step at hs
  split at hs
  · cases hs
  · rename_i k1 k2 k3 e ha
    obtain ⟨⟨k1', k2', k3'⟩, hk, ha⟩ := bind_eq_ok.1 ha
    obtain ⟨e', hc, ha⟩ := bind_eq_ok.1 ha
    cases ha
    dsimp only at hs
    split_ifs at hs with he
    split at hs
    · cases hs
    · rename_i y1 hy
      cases hs
      exact ⟨rfl, bind_eq_ok.2 ⟨_, hk, hy⟩, e, bind_eq_ok.2 ⟨_, hk, hc⟩, computeError_nonneg hc, not_lt.1 he, rfl⟩

/-- a step that throws leaves y, and leaves h as it was or scaled by the error of the rejected attempt -/
theorem step_threw_cases {m' : Unit} {y' : Vec ℝ} {h' : ℝ} {e : Exn} (htol : 0 < tolerance)
    (hs : step f tolerance t y h = .threw e m' y' h') :
    y' = y ∧ (h' = h ∨
      ∃ error, tolerance < error ∧ h' = h * max minScale (safety * (tolerance / error) ^ ((1.0 : ℝ) / 3.0))) := by
  unfold step at hs
  split at hs
  · cases hs; exact ⟨rfl, Or.inl rfl⟩
  · rename_i error _
    dsimp only at hs
    split_ifs at hs with he
    · cases hs
      rw [quot_of_ne (htol.trans he).ne', powTop_coe, mulTop_coe, maxTop_coe]
      exact ⟨rfl, Or.inr ⟨error, he, rfl⟩⟩
    · split at hs
      · cases hs; exact ⟨rfl, Or.inl rfl⟩
      · cases hs

/-- a step that throws leaves y, and leaves h positive -/
theorem step_threw {m' : Unit} {y' : Vec ℝ} {h' : ℝ} {e : Exn} (htol : 0 < tolerance) (hh : 0 < h)
    (hs : step f tolerance t y h = .threw e m' y' h') : y' = y ∧ 0 < h' := by
  obtain ⟨hy, rfl | ⟨error, -, rfl⟩⟩ := step_threw_cases htol hs
  · exact ⟨hy, hh⟩
  · exact ⟨hy, mul_pos hh (lt_max_of_lt_left (by norm_num [minScale]))⟩

/-- a step that throws does not leave a larger h -/
theorem step_threw_le {m' : Unit} {y' : Vec ℝ} {h' : ℝ} {e : Exn} (htol : 0 < tolerance) (hh : 0 < h)
    (hs : step f tolerance t y h = .threw e m' y' h') : h' ≤ h := by
  obtain ⟨-, rfl | ⟨error, he, rfl⟩⟩ := step_threw_cases htol hs
  · exact le_rfl
  · have hpos : 0 < error := htol.trans he
    have hroot : (tolerance / error) ^ ((1.0 : ℝ) / 3.0) ≤ 1 :=
      Real.rpow_le_one (by positivity) ((div_le_one hpos).2 he.le) (by norm_num)
    refine mul_le_of_le_one_right hh.le (max_le (by norm_num [minScale]) ?_)
    rw [safety]
    linarith

/-- an attempt whose error is 1000 times the tolerance is rejected with the smallest scale -/
theorem step_rejected {e : ℝ} (htol : 0 < tolerance) (he : localError f tolerance t y h = .ok e)
    (hlarge : tolerance * 1000 ≤ e) :
    step f tolerance t y h = .threw (.runtimeError "Step rejected") () y (h * 0.2) := by
  obtain ⟨⟨k1, k2, k3⟩, hk, hc⟩ := bind_eq_ok.1 he
  have hpos : 0 < e := by linarith
  have hroot : (tolerance / e) ^ ((1.0 : ℝ) / 3.0) ≤ 0.1 := by
    calc (tolerance / e) ^ ((1.0 : ℝ) / 3.0) ≤ ((0.1 : ℝ) ^ 3) ^ ((1.0 : ℝ) / 3.0) := by
          refine Real.rpow_le_rpow (by positivity) ?_ (by norm_num)
          rw [div_le_iff₀ hpos]
          norm_num
          linarith
      _ = 0.1 := by
          rw [← Real.rpow_natCast, ← Real.rpow_mul (by norm_num)]
          norm_num
  have hscale : maxTop minScale (mulTop safety (powTop (quot tolerance e) (1.0 / 3.0))) = 0.2 := by
    rw [quot_of_ne hpos.ne', powTop_coe, mulTop_coe, maxTop_coe]
    refine max_eq_left ?_
    norm_num [safety, minScale] at hroot ⊢
    linarith
  dsimp only at hc
  simp only [step, hk, ok_bind, hc, except_pure]
  rw [if_pos (by linarith), hscale]

/-- **Clock of a step.** The new h is the step length of the attempt for exactly one error. -/
theorem step_clock {m' : Unit} {y' : Vec ℝ} {h' g' : ℝ} (htol : 0 < tolerance) (hh : 0 < h)
    (hs : step f tolerance t y h = .returned m' y' h' g') :
    update f t y g' = .ok y' ∧ g' = h ∧ (h' = g' ↔ localError f tolerance t y g' = .ok (0.729 * tolerance)) := by
  obtain ⟨rfl, hu, e, he, he0, -, rfl⟩ := step_returned hs
  refine ⟨hu, rfl, ?_⟩
  rw [mul_eq_left₀ hh.ne', minTop_ratio_eq_one (k := 3) (by norm_num) htol he0 (by norm_num) (by norm_num)
    (by norm_num), he, Except.ok.injEq]
  norm_num

theorem driver_sound (htol : 0 < tolerance) : (driver f tolerance).Sound fun _ => True where
  clip_eq _ _ _ := rfl
  returned := by
    intro m t y h m' y' h' g' _ hh hs
    obtain ⟨-, -, e, -, he0, -, rfl⟩ := step_returned hs
    exact ⟨trivial, mul_pos hh (minTop_ratio_pos (by norm_num) htol he0 (by norm_num))⟩
  threw := by
    intro s h e m' y' h' _ _ hh hs _
    obtain ⟨-, hh'⟩ := step_threw htol hh hs
    exact ⟨trivial, mul_pos hh' (by norm_num), rfl, rfl, rfl, rfl⟩

end OdeClientServer.RK23SSolver
