/-
`DISPDSolver`: two three-stage schemes A and B behind one `Step` with up to ten attempts.

The member `currentScheme` holds the weights. Its constructor leaves it uninitialised, and `Solve` starts with
`switchScheme(false)`, which computes the weights of scheme A from the g that is there before. In an attempt the error
estimates A' and A'' and the stability ratio V are turned into exponents of q; an exponent is +∞ where its estimate
is 0.

- `tryStep_ok`: a retry shrinks h; an accepted attempt has its three estimates within their limits.
- `attemptLoop_returned`: `Step` returns from an attempt whose step length is at most the one it was called with.
- `factor_eq_one`: the factor of an accepted attempt is 1 for exactly one value of its worst estimate.
-/
import OdeClientServer.Solvers.Solver

namespace OdeClientServer.DISPDSolver

open Loop

structure SchemeParams (R : Type) where
  p1 : R
  p2 : R
  p3 : R
  g : R

/-- the accepted attempt of a `Step`: the scheme it used, how many attempts failed before it, and its step length -/
structure Attempt (R : Type) where
  scheme : SchemeParams R
  attempts : ℕ
  h : R

/-- how one pass of the attempt loop ends -/
inductive Try (R : Type) where
  | retry (h : R)
  | accept (yNext : Vec R) (h : R)

section Model

variable {R : Type} [Field R] [LinearOrder R] [CMath R]

def q : R := 1.5
def safety : R := 0.8
def minScale : R := 0.2
def maxScale : R := 5.0

/-- k1, k2 and k3; all three evaluate f at the time t -/
def computeKTerms (f : Rhs R) (t : R) (y : Vec R) (h : R) : Except Exn (Vec R × Vec R × Vec R) := do
  let k1 := multiplyScalarByVector h (← f t y)
  let y2 ← addVectors y (multiplyScalarByVector (2.0 / 3.0) k1)
  let k2 := multiplyScalarByVector h (← f t y2)
  let y3 ← addVectors (← addVectors y (multiplyScalarByVector (1.0 / 3.0) k1))
    (multiplyScalarByVector (1.0 / 3.0) k2)
  let k3 := multiplyScalarByVector h (← f t y3)
  return (k1, k2, k3)

def computeAprime (c : SchemeParams R) (k1 k2 : Vec R) : Except Exn R := do
  let diff ← subtractVectors k2 k1
  return |1 - 6 * c.g| / 4.0 * norm diff

def computeAddoublePrime (c : SchemeParams R) (h : R) (k1 yNext : Vec R) : Except Exn R := do
  let diff ← subtractVectors (multiplyScalarByVector h yNext) k1
  return |1 - 6 * c.g| / 6.0 * norm diff

def computeV (k1 k2 k3 : Vec R) : Except Exn R := do
  let maxRatio ← maxOver k1.length fun i => do
    let denominator := (← read k2 i) - (← read k1 i)
    let denominator := if |denominator| < 1e-12 then 1e-12 else denominator
    return |((← read k3 i) - (← read k2 i)) / denominator|
  return 3.0 * maxRatio

def shouldSwitchToSchemeB (c : SchemeParams R) (h tolerance : R) : Bool := h * maxScale > c.g * tolerance

def switchScheme (c : SchemeParams R) (toSchemeB : Bool) : SchemeParams R :=
  if toSchemeB then ⟨7.0 / 9.0, 16.0 / 81.0, 2.0 / 81.0, 0.0⟩
  else ⟨1.0 / 4.0, (3 - 18 * c.g) / 4, 9.0 / 2.0 * c.g, 0.15⟩

def nextValue (c : SchemeParams R) (y k1 k2 k3 : Vec R) : Except Exn (Vec R) := do
  addVectors y (← addVectors (multiplyScalarByVector c.p1 k1)
    (← addVectors (multiplyScalarByVector c.p2 k2) (multiplyScalarByVector c.p3 k3)))

/-- the new value of an attempt -/
def update (c : SchemeParams R) (f : Rhs R) (t : R) (y : Vec R) (h : R) : Except Exn (Vec R) := do
  let (k1, k2, k3) ← computeKTerms f t y h
  nextValue c y k1 k2 k3

/-- `log(x) / d` for d > 0 -/
def logTop (x : WithTop R) (d : R) : WithTop R := x.map fun a => CMath.log a / d

/-- `pow(q, s)` -/
def powQ (s : WithTop R) : WithTop R := s.map fun a => CMath.pow q a

/-- `log(limit / (pow(q, m) * estimate)) / (m' * log(q))`, the exponents s_n, v_n (m = 2 * attempts, m' = 2) and
r_n (m = attempts, m' = 1) -/
def exponent (limit : R) (m : ℕ) (estimate m' : R) : WithTop R :=
  logTop (quot limit (q ^ m * estimate)) (m' * CMath.log q)

/-- the factor of h after an attempt whose estimates s_n and v_n are not negative -/
def scale (sn vn rn : WithTop R) : R :=
  clampTop minScale maxScale
    (mulTop safety (min (min (powQ sn) (powQ vn)) (min (powQ rn) (maxScale : R))))

/-- one pass of the attempt loop -/
def tryStep (c : SchemeParams R) (f : Rhs R) (tolerance t : R) (y : Vec R) (attempts : ℕ) (h : R) :
    Except Exn (Try R) := do
  let (k1, k2, k3) ← computeKTerms f t y h
  let aPrime ← computeAprime c k1 k2
  let sn := exponent tolerance (2 * attempts) aPrime 2
  if sn < 0 then return .retry (h * (powQ sn).untopD 1)
  let yNext ← nextValue c y k1 k2 k3
  let kNext := multiplyScalarByVector h (← f (t + h) yNext)
  let addPrime ← computeAddoublePrime c h k1 kNext
  let vn := exponent tolerance (2 * attempts) addPrime 2
  if vn < 0 then return .retry (h * (powQ vn).untopD 1)
  let v ← computeV k1 k2 k3
  let rn := exponent 18.0 attempts v 1
  if v > 18.0 / q ^ attempts ∨ aPrime > tolerance / q ^ (2 * attempts) then return .retry (h * scale sn vn rn)
  return .accept yNext (h * scale sn vn rn)

/-- the loop `while (!stepAccepted && attempts < 10)`, with `left` = 10 - attempts, and what follows it -/
def attemptLoop (c : SchemeParams R) (f : Rhs R) (tolerance t : R) (y : Vec R) :
    (left attempts : ℕ) → R → StepEnd (SchemeParams R) (Attempt R) R
  | 0, _, h => .threw (.runtimeError "Step adaptation failed") c y h
  | left + 1, attempts, h =>
    match tryStep c f tolerance t y attempts h with
    | .error e => .threw e c y h
    | .ok (.retry h') => attemptLoop c f tolerance t y left (attempts + 1) h'
    | .ok (.accept yNext h') =>
      .returned (if shouldSwitchToSchemeB c h' tolerance then switchScheme c true else c) yNext h' ⟨c, attempts, h⟩

def step (f : Rhs R) (tolerance : R) (c : SchemeParams R) (t : R) (y : Vec R) (h : R) :
    StepEnd (SchemeParams R) (Attempt R) R :=
  attemptLoop c f tolerance t y 10 0 h

def driver (f : Rhs R) (tolerance : R) : Driver (SchemeParams R) (Attempt R) R where
  clip t h tEnd := min h (tEnd - t)
  tiny h := h < 1e-12
  step := step f tolerance
  stops _ _ _ := false
  catches := Exn.isRuntimeError
  rejected s y _ := { s with y := y, h := s.h * 0.5 }

/-- at most n passes of `Solve`; `currentScheme` is what the member holds before the call -/
def solve (currentScheme : SchemeParams R) (f : Rhs R) (stepSize t0 : R) (y0 : Vec R) (tEnd tolerance : R) (n : ℕ) :
    Pass Exn (RunState (SchemeParams R) (Attempt R) R) :=
  run ((driver f tolerance).body tEnd) n (start (switchScheme currentScheme false) t0 y0 stepSize)

/-- A', A'' and V of the attempt from (t, y) with step h -/
def estimates (c : SchemeParams R) (f : Rhs R) (t : R) (y : Vec R) (h : R) : Except Exn (R × R × R) := do
  let (k1, k2, k3) ← computeKTerms f t y h
  let aPrime ← computeAprime c k1 k2
  let yNext ← nextValue c y k1 k2 k3
  let kNext := multiplyScalarByVector h (← f (t + h) yNext)
  let addPrime ← computeAddoublePrime c h k1 kNext
  return (aPrime, addPrime, ← computeV k1 k2 k3)

end Model

/-! ## The exponents of q -/

theorem log_q_pos : 0 < Real.log (q : ℝ) := Real.log_pos (by norm_num [q])

theorem pow_q_pos (m : ℕ) : 0 < (q : ℝ) ^ m := pow_pos (by norm_num [q]) m

theorem exponent_zero (limit : ℝ) (m : ℕ) (m' : ℝ) : exponent limit m 0 m' = ⊤ := by
  rw [exponent, mul_zero, quot_zero]; rfl

/-- `pow(q, s)` undoes the logarithm to the base q -/
theorem powQ_exponent {limit est m' : ℝ} (m : ℕ) (hl : 0 < limit) (he : 0 < est) (hm : m' ≠ 0) :
    powQ (exponent limit m est m') = ↑((limit / (q ^ m * est)) ^ (1 / m')) := by
  have hx : 0 < limit / (q ^ m * est) := div_pos hl (mul_pos (pow_q_pos m) he)
  have hlq : Real.log q ≠ 0 := log_q_pos.ne'
  rw [exponent, quot_of_ne (mul_pos (pow_q_pos m) he).ne']
  change ((q ^ (Real.log (limit / (q ^ m * est)) / (m' * Real.log q)) : ℝ) : WithTop ℝ) = _
  congr 1
  rw [Real.rpow_def_of_pos (by norm_num [q]), Real.rpow_def_of_pos hx]
  congr 1
  field_simp

/-- a negative exponent belongs to an estimate above its limit -/
theorem exponent_neg_iff {limit est m' : ℝ} (m : ℕ) (hl : 0 < limit) (he : 0 ≤ est) (hm : 0 < m') :
    exponent limit m est m' < 0 ↔ limit < q ^ m * est := by
  rcases he.eq_or_lt with rfl | hpos
  · rw [exponent_zero, mul_zero]
    exact ⟨fun h => absurd h not_top_lt, fun h => absurd h (not_lt.2 hl.le)⟩
  · have hqe : 0 < q ^ m * est := mul_pos (pow_q_pos m) hpos
    have hx : 0 < limit / (q ^ m * est) := div_pos hl hqe
    rw [exponent, quot_of_ne hqe.ne']
    change ((Real.log (limit / (q ^ m * est)) / (m' * Real.log q) : ℝ) : WithTop ℝ) < ((0 : ℝ) : WithTop ℝ) ↔ _
    rw [WithTop.coe_lt_coe, div_lt_iff₀ (mul_pos hm log_q_pos), zero_mul, Real.log_neg_iff hx, div_lt_one hqe]

/-- a retry after a negative exponent shrinks h -/
theorem powQ_neg {limit est m' : ℝ} (m : ℕ) (hl : 0 < limit) (he : 0 ≤ est) (hm : 0 < m')
    (hneg : exponent limit m est m' < 0) :
    0 < (powQ (exponent limit m est m')).untopD 1 ∧ (powQ (exponent limit m est m')).untopD 1 < 1 := by
  have hlt := (exponent_neg_iff m hl he hm).1 hneg
  have hqe : 0 < q ^ m * est := hl.trans hlt
  have hpos : 0 < est := (mul_pos_iff_of_pos_left (pow_q_pos m)).1 hqe
  have hx : 0 < limit / (q ^ m * est) := div_pos hl hqe
  rw [powQ_exponent m hl hpos hm.ne', WithTop.untopD_coe]
  exact ⟨Real.rpow_pos_of_pos hx _, Real.rpow_lt_one hx.le ((div_lt_one hqe).2 hlt) (by positivity)⟩

/-! ## The factor of an accepted attempt -/

/-- `u^(-1/2)`, +∞ at 0 -/
noncomputable def invRoot (u : ℝ) : WithTop ℝ := if u = 0 then ⊤ else ↑(1 / √u)

theorem min_invRoot {u v : ℝ} (hu : 0 ≤ u) (hv : 0 ≤ v) : min (invRoot u) (invRoot v) = invRoot (max u v) := by
  have key : ∀ {a b : ℝ}, 0 ≤ a → a ≤ b → invRoot b ≤ invRoot a := by
    intro a b ha hab
    rcases ha.eq_or_lt with rfl | hpos
    · rw [invRoot, invRoot, if_pos rfl]; exact le_top
    · rw [invRoot, invRoot, if_neg (hpos.trans_le hab).ne', if_neg hpos.ne', WithTop.coe_le_coe]
      exact one_div_le_one_div_of_le (Real.sqrt_pos.2 hpos) (Real.sqrt_le_sqrt hab)
  rcases le_total u v with h | h
  · rw [max_eq_right h, min_eq_right (key hu h)]
  · rw [max_eq_left h, min_eq_left (key hv h)]

theorem powQ_exponent_two {limit est : ℝ} (m : ℕ) (hl : 0 < limit) (he : 0 ≤ est) :
    powQ (exponent limit m est 2) = invRoot (q ^ m * est / limit) := by
  rcases he.eq_or_lt with rfl | hpos
  · rw [exponent_zero, invRoot, if_pos (by simp)]; rfl
  · have hqe : 0 < q ^ m * est := mul_pos (pow_q_pos m) hpos
    rw [powQ_exponent m hl hpos two_ne_zero, invRoot, if_neg (div_pos hqe hl).ne', ← Real.sqrt_eq_rpow, one_div,
      ← Real.sqrt_inv, inv_div]

theorem powQ_exponent_one {limit est : ℝ} (m : ℕ) (hl : 0 < limit) (he : 0 ≤ est) :
    powQ (exponent limit m est 1) = invRoot ((q ^ m * est / limit) ^ 2) := by
  rcases he.eq_or_lt with rfl | hpos
  · rw [exponent_zero, invRoot, if_pos (by simp)]; rfl
  · have hqe : 0 < q ^ m * est := mul_pos (pow_q_pos m) hpos
    rw [powQ_exponent m hl hpos one_ne_zero, invRoot, if_neg (pow_pos (div_pos hqe hl) 2).ne',
      Real.sqrt_sq (div_pos hqe hl).le, one_div_one, Real.rpow_one, one_div, inv_div]

/-- the largest of the three estimates of an attempt, each relative to its limit -/
noncomputable def worst (tolerance : ℝ) (attempts : ℕ) (aPrime addPrime v : ℝ) : ℝ :=
  max (max (q ^ (2 * attempts) * aPrime / tolerance) (q ^ (2 * attempts) * addPrime / tolerance))
    ((q ^ attempts * v / 18.0) ^ 2)

/-- the factor that `Step` computes from the three estimates of an attempt -/
noncomputable def factor (tolerance : ℝ) (attempts : ℕ) (aPrime addPrime v : ℝ) : ℝ :=
  scale (exponent tolerance (2 * attempts) aPrime 2) (exponent tolerance (2 * attempts) addPrime 2)
    (exponent 18.0 attempts v 1)

section Factor

variable {tolerance aPrime addPrime v : ℝ} {attempts : ℕ}

theorem factor_eq (htol : 0 < tolerance) (ha : 0 ≤ aPrime) (hd : 0 ≤ addPrime) (hv : 0 ≤ v) :
    factor tolerance attempts aPrime addPrime v =
      clampTop 0.2 5.0
        (mulTop 0.8 (min (invRoot (worst tolerance attempts aPrime addPrime v)) ((5.0 : ℝ) : WithTop ℝ))) := by
  have hq := pow_q_pos (2 * attempts)
  rw [factor, scale, powQ_exponent_two _ htol ha, powQ_exponent_two _ htol hd, powQ_exponent_one _ (by norm_num) hv,
    ← min_assoc, min_invRoot (by positivity) (by positivity), min_invRoot (by positivity) (by positivity)]
  rfl

theorem worst_nonneg : 0 ≤ worst tolerance attempts aPrime addPrime v :=
  le_max_of_le_right (sq_nonneg _)

/-- **Factor 1.** The factor of an accepted attempt is 1 exactly when its worst estimate is 0.64 of the limit. -/
theorem factor_eq_one (htol : 0 < tolerance) (ha : 0 ≤ aPrime) (hd : 0 ≤ addPrime) (hv : 0 ≤ v) :
    factor tolerance attempts aPrime addPrime v = 1 ↔ worst tolerance attempts aPrime addPrime v = 0.64 := by
  rw [factor_eq htol ha hd hv]
  generalize hw : worst tolerance attempts aPrime addPrime v = w
  have hw0 : 0 ≤ w := hw ▸ worst_nonneg
  rcases hw0.eq_or_lt with rfl | hpos
  · rw [invRoot, if_pos rfl, min_eq_right le_top, mulTop_coe, clampTop_coe]
    norm_num
  · have hs : 0 < √w := Real.sqrt_pos.2 hpos
    rw [invRoot, if_neg hpos.ne', ← WithTop.coe_min, mulTop_coe, clampTop_coe, min_comm (5.0 : ℝ),
      min_eq_one_iff (by norm_num), max_eq_one_iff (by norm_num)]
    have h1 : (0.8 : ℝ) * min (1 / √w) 5.0 = 1 ↔ min (1 / √w) 5.0 = 1.25 := by
      constructor <;> intro h <;> linarith
    have h2 : min (1 / √w) (5.0 : ℝ) = 1.25 ↔ 1 / √w = 1.25 := by
      rcases min_choice (1 / √w) (5.0 : ℝ) with h | h
      · rw [h]
      · have hle := min_le_left (1 / √w) (5.0 : ℝ)
        rw [h] at hle ⊢
        norm_num at hle ⊢
        intro h'
        linarith
    have h3 : 1 / √w = 1.25 ↔ √w = 0.8 := by
      rw [div_eq_iff hs.ne']; constructor <;> intro h <;> linarith
    rw [h1, h2, h3, Real.sqrt_eq_iff_eq_sq hw0 (by norm_num)]
    norm_num

theorem factor_pos : 0 < factor tolerance attempts aPrime addPrime v := clampTop_pos (by norm_num [minScale])
  (by norm_num [maxScale]) _

/-- an attempt above a limit has a factor below 1 -/
theorem factor_lt_one (htol : 0 < tolerance) (ha : 0 ≤ aPrime) (hd : 0 ≤ addPrime) (hv : 0 ≤ v)
    (hw : 1 < worst tolerance attempts aPrime addPrime v) : factor tolerance attempts aPrime addPrime v < 1 := by
  rw [factor_eq htol ha hd hv]
  have hpos := zero_lt_one.trans hw
  have hs : 1 < √(worst tolerance attempts aPrime addPrime v) := by
    rw [← Real.sqrt_one]; exact Real.sqrt_lt_sqrt zero_le_one hw
  have hinv : 1 / √(worst tolerance attempts aPrime addPrime v) < 1 := (div_lt_one (by positivity)).2 hs
  rw [invRoot, if_neg hpos.ne', ← WithTop.coe_min, mulTop_coe, clampTop_coe]
  have hmin : (0.8 : ℝ) * min (1 / √(worst tolerance attempts aPrime addPrime v)) 5.0 < 1 := by
    have := min_le_left (1 / √(worst tolerance attempts aPrime addPrime v)) 5.0
    linarith
  exact min_lt_of_right_lt (max_lt (by norm_num) hmin)

end Factor

/-! ## Attempts and steps -/

section Step

variable {c : SchemeParams ℝ} {f : Rhs ℝ} {tolerance t h : ℝ} {y : Vec ℝ} {attempts : ℕ}

theorem computeAprime_nonneg {k1 k2 : Vec ℝ} {a : ℝ} (ha : computeAprime c k1 k2 = .ok a) : 0 ≤ a := by
  obtain ⟨d, -, h⟩ := bind_eq_ok.1 ha
  cases h
  exact mul_nonneg (by positivity) (norm_nonneg' d)

theorem computeAddoublePrime_nonneg {k1 k : Vec ℝ} {a : ℝ} (ha : computeAddoublePrime c h k1 k = .ok a) : 0 ≤ a := by
  obtain ⟨d, -, h⟩ := bind_eq_ok.1 ha
  cases h
  exact mul_nonneg (by positivity) (norm_nonneg' d)

theorem computeV_nonneg {k1 k2 k3 : Vec ℝ} {v : ℝ} (hv : computeV k1 k2 k3 = .ok v) : 0 ≤ v := by
  obtain ⟨m, hm, h⟩ := bind_eq_ok.1 hv
  cases h
  exact mul_nonneg (by norm_num) (maxOver_nonneg hm)

/-- **One attempt.** A retry shrinks h. An accepted attempt returns the value of its scheme, its estimates are within
their limits, and h is scaled by `factor`. -/
theorem tryStep_ok {r : Try ℝ} (htol : 0 < tolerance) (hh : 0 < h) (hr : tryStep c f tolerance t y attempts h = .ok r) :
    (∃ h', r = .retry h' ∧ 0 < h' ∧ h' < h) ∨
      ∃ y' a d v, r = .accept y' (h * factor tolerance attempts a d v) ∧ update c f t y h = .ok y' ∧
        estimates c f t y h = .ok (a, d, v) ∧ 0 ≤ a ∧ 0 ≤ d ∧ 0 ≤ v ∧ worst tolerance attempts a d v ≤ 1 := by
  unfold tryStep at hr
  obtain ⟨⟨k1, k2, k3⟩, hk, hr⟩ := bind_eq_ok.1 hr
  obtain ⟨a, ha, hr⟩ := bind_eq_ok.1 hr
  have ha0 := computeAprime_nonneg ha
  dsimp only at hr
  split_ifs at hr with hsn
  · cases hr
    obtain ⟨h1, h2⟩ := powQ_neg (2 * attempts) htol ha0 two_pos hsn
    exact Or.inl ⟨_, rfl, mul_pos hh h1, mul_lt_of_lt_one_right hh h2⟩
  obtain ⟨y', hy, hr⟩ := bind_eq_ok.1 hr
  obtain ⟨fy, hf, hr⟩ := bind_eq_ok.1 hr
  obtain ⟨d, hd, hr⟩ := bind_eq_ok.1 hr
  have hd0 := computeAddoublePrime_nonneg hd
  split_ifs at hr with hvn
  · cases hr
    obtain ⟨h1, h2⟩ := powQ_neg (2 * attempts) htol hd0 two_pos hvn
    exact Or.inl ⟨_, rfl, mul_pos hh h1, mul_lt_of_lt_one_right hh h2⟩
  obtain ⟨v, hv, hr⟩ := bind_eq_ok.1 hr
  have hv0 := computeV_nonneg hv
  rw [exponent_neg_iff _ htol ha0 two_pos, not_lt] at hsn
  rw [exponent_neg_iff _ htol hd0 two_pos, not_lt] at hvn
  have hq := pow_q_pos attempts
  have hq2 := pow_q_pos (2 * attempts)
  split_ifs at hr with hV
  · cases hr
    refine Or.inl ⟨_, rfl, mul_pos hh factor_pos, mul_lt_of_lt_one_right hh (factor_lt_one htol ha0 hd0 hv0 ?_)⟩
    rcases hV with hV | hA
    · have h18 : 1 < q ^ attempts * v / 18.0 := by
        rw [gt_iff_lt, div_lt_iff₀ hq] at hV
        rw [one_lt_div (by norm_num)]
        linarith
      exact lt_max_of_lt_right (by nlinarith)
    · rw [gt_iff_lt, div_lt_iff₀ hq2] at hA
      exact absurd hA (by rw [mul_comm]; exact not_lt.2 hsn)
  · cases hr
    rw [not_or] at hV
    refine Or.inr ⟨y', a, d, v, rfl, bind_eq_ok.2 ⟨_, hk, hy⟩, ?_, ha0, hd0, hv0, ?_⟩
    · exact bind_eq_ok.2 ⟨_, hk, bind_eq_ok.2 ⟨_, ha, bind_eq_ok.2 ⟨_, hy, bind_eq_ok.2 ⟨_, hf, bind_eq_ok.2
        ⟨_, hd, bind_eq_ok.2 ⟨_, hv, rfl⟩⟩⟩⟩⟩⟩
    · have h18 : q ^ attempts * v / 18.0 ≤ 1 := by
        have := not_lt.1 hV.1
        rw [le_div_iff₀ hq] at this
        rw [div_le_one (by norm_num)]
        linarith
      have h0 : 0 ≤ q ^ attempts * v / 18.0 := by positivity
      exact max_le (max_le ((div_le_one htol).2 hsn) ((div_le_one htol).2 hvn)) (by nlinarith)

/-- an attempt whose three estimates are within their limits is accepted -/
theorem tryStep_accept {y' : Vec ℝ} {a d v : ℝ} (htol : 0 < tolerance) (hu : update c f t y h = .ok y')
    (hest : estimates c f t y h = .ok (a, d, v)) (hw : worst tolerance attempts a d v ≤ 1) :
    tryStep c f tolerance t y attempts h = .ok (.accept y' (h * factor tolerance attempts a d v)) := by
  obtain ⟨⟨k1, k2, k3⟩, hk, hest⟩ := bind_eq_ok.1 hest
  obtain ⟨_, hk', hy⟩ := bind_eq_ok.1 hu
  cases hk.symm.trans hk'
  dsimp only at hy hest
  obtain ⟨_, ha, hest⟩ := bind_eq_ok.1 hest
  obtain ⟨_, hy', hest⟩ := bind_eq_ok.1 hest
  cases hy.symm.trans hy'
  obtain ⟨_, hf, hest⟩ := bind_eq_ok.1 hest
  obtain ⟨_, hd, hest⟩ := bind_eq_ok.1 hest
  obtain ⟨_, hv, hest⟩ := bind_eq_ok.1 hest
  cases hest
  have hq := pow_q_pos attempts
  have hq2 := pow_q_pos (2 * attempts)
  have ha0 := computeAprime_nonneg ha
  have hd0 := computeAddoublePrime_nonneg hd
  have hv0 := computeV_nonneg hv
  have ha1 : q ^ (2 * attempts) * a ≤ tolerance :=
    (div_le_one htol).1 ((le_max_left _ _).trans ((le_max_left _ _).trans hw))
  have hd1 : q ^ (2 * attempts) * d ≤ tolerance :=
    (div_le_one htol).1 ((le_max_right _ _).trans ((le_max_left _ _).trans hw))
  have hv1 : q ^ attempts * v ≤ 18.0 := by
    have h18 : q ^ attempts * v / 18.0 ≤ 1 := (sq_le_one_iff₀ (by positivity)).1 ((le_max_right _ _).trans hw)
    rwa [div_le_one (by norm_num)] at h18
  have hsn : ¬ exponent tolerance (2 * attempts) a 2 < 0 := by
    rw [exponent_neg_iff _ htol ha0 two_pos]; exact not_lt.2 ha1
  have hvn : ¬ exponent tolerance (2 * attempts) d 2 < 0 := by
    rw [exponent_neg_iff _ htol hd0 two_pos]; exact not_lt.2 hd1
  have hlimits : ¬ (v > 18.0 / q ^ attempts ∨ a > tolerance / q ^ (2 * attempts)) := by
    rw [not_or, gt_iff_lt, gt_iff_lt, not_lt, not_lt, le_div_iff₀ hq, le_div_iff₀ hq2]
    exact ⟨by linarith, by linarith⟩
  rw [tryStep, hk, ok_bind]
  dsimp only
  rw [ha, ok_bind, if_neg hsn, hy, ok_bind, hf, ok_bind, hd, ok_bind, if_neg hvn, hv, ok_bind, if_neg hlimits]
  rfl

/-- the factor is cut off at 4 when every estimate is below 1/25 of its limit -/
theorem factor_eq_four {a d v : ℝ} (htol : 0 < tolerance) (ha : 0 ≤ a) (hd : 0 ≤ d) (hv : 0 ≤ v)
    (hw : worst tolerance attempts a d v ≤ 1 / 25) : factor tolerance attempts a d v = 4 := by
  rw [factor_eq htol ha hd hv]
  have hw0 : 0 ≤ worst tolerance attempts a d v := worst_nonneg
  have hroot : ((5.0 : ℝ) : WithTop ℝ) ≤ invRoot (worst tolerance attempts a d v) := by
    rw [invRoot]
    split_ifs with h0
    · exact le_top
    · have hs : 0 < √(worst tolerance attempts a d v) := Real.sqrt_pos.2 (hw0.lt_of_ne' h0)
      rw [WithTop.coe_le_coe, le_div_iff₀ hs]
      have h5 : √(worst tolerance attempts a d v) ≤ 1 / 5 := by
        rw [Real.sqrt_le_iff]; norm_num at hw ⊢; exact hw
      norm_num at h5 ⊢
      linarith
  rw [min_eq_right hroot, mulTop_coe, clampTop_coe]
  norm_num

/-- **Accepted step.** `Step` returns from an attempt whose step length is at most the one it was called with. -/
theorem attemptLoop_returned {left : ℕ} {c' : SchemeParams ℝ} {y' : Vec ℝ} {h' : ℝ} {g : Attempt ℝ}
    (htol : 0 < tolerance) (hh : 0 < h)
    (hs : attemptLoop c f tolerance t y left attempts h = .returned c' y' h' g) :
    g.scheme = c ∧ 0 < g.h ∧ g.h ≤ h ∧ update c f t y g.h = .ok y' ∧
      (c' = if shouldSwitchToSchemeB c h' tolerance then switchScheme c true else c) ∧
      ∃ a d v, estimates c f t y g.h = .ok (a, d, v) ∧ 0 ≤ a ∧ 0 ≤ d ∧ 0 ≤ v ∧
        worst tolerance g.attempts a d v ≤ 1 ∧ h' = g.h * factor tolerance g.attempts a d v := by
  induction left generalizing attempts h with
  | zero => cases hs
  | succ left ih =>
    unfold attemptLoop at hs
    split at hs
    · cases hs
    · rename_i h1 hr
      rcases tryStep_ok htol hh hr with ⟨h2, e, hpos, hlt⟩ | ⟨_, _, _, _, e, -⟩
      · cases e
        obtain ⟨i1, i2, i3, irest⟩ := ih hpos hs
        exact ⟨i1, i2, i3.trans hlt.le, irest⟩
      · cases e
    · rename_i y1 h1 hr
      rcases tryStep_ok htol hh hr with ⟨_, e, -⟩ | ⟨y2, a, d, v, e, hu, hest, ha0, hd0, hv0, hw⟩
      · cases e
      · cases e
        cases hs
        exact ⟨rfl, hh, le_rfl, hu, rfl, a, d, v, hest, ha0, hd0, hv0, hw, rfl⟩

/-- a step that throws leaves y and the scheme -/
theorem attemptLoop_threw {left : ℕ} {c' : SchemeParams ℝ} {y' : Vec ℝ} {h' : ℝ} {e : Exn}
    (hs : attemptLoop c f tolerance t y left attempts h = .threw e c' y' h') : y' = y ∧ c' = c := by
  induction left generalizing attempts h with
  | zero => cases hs; exact ⟨rfl, rfl⟩
  | succ left ih =>
    unfold attemptLoop at hs
    split at hs
    · cases hs; exact ⟨rfl, rfl⟩
    · exact ih hs
    · cases hs

theorem driver_sound (htol : 0 < tolerance) : (driver f tolerance).Sound fun _ => True where
  clip_eq _ _ _ := rfl
  returned := by
    intro c t y h c' y' h' g _ hh hs
    obtain ⟨-, hg, -, -, -, a, d, v, -, -, -, -, -, rfl⟩ := attemptLoop_returned htol hh hs
    exact ⟨trivial, mul_pos hg factor_pos⟩
  threw := by
    intro s h e c' y' h' _ hsh _ hs _
    obtain ⟨rfl, -⟩ := attemptLoop_threw hs
    exact ⟨trivial, mul_pos hsh (by norm_num), rfl, rfl, rfl, rfl⟩

end Step

end OdeClientServer.DISPDSolver
