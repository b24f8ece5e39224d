/-
`DISPSSolver`: a set of enabled variants (stages, order, weights, stability length) and a current one.

Each pass of the outer loop makes up to 30 tries with the current variant. A try that fails the accuracy test shrinks
the attempt; the five-stage variant of order 2 instead leaves the tries and switches the scheme at once. A pass without
an accepted try halves the attempt, down to a floor of 1e-10. The class has its own vector helpers, whose size checks
throw `std::runtime_error`.
-/
import OdeClientServer.Core.Loop
import OdeClientServer.Solvers.CommonFunctions

namespace OdeClientServer.DISPSSolver

open Loop

/-- which variants the constructor enables -/
structure DispsEnabledFlags where
  disps13 : Bool
  disps15 : Bool
  disps23 : Bool
  disps25 : Bool
  disps35 : Bool
  disps36 : Bool
deriving DecidableEq, Repr

structure DispsVariant (R : Type) where
  stages : ℕ
  order : ℕ
  p : List R
  gamma : R

/-- what a controller decides about a try -/
structure Control (R : Type) where
  ok : Bool
  newH : R
  needSwitch : Bool

/-- how the tries of one pass end; `failed` and `switched` carry the last attempted step -/
inductive Tries (R : Type) where
  | accepted (h : R) (yNext : Vec R) (newH : R) (needSwitch : Bool)
  | failed (h : R)
  | switched (h : R)

/-- the locals and members of a running `Solve`; a row `[t, y...]` of the result is kept as the pair (t, y) -/
structure State (R : Type) where
  t : R
  y : Vec R
  stepSize : R
  currentIndex : ℕ
  results : List (R × Vec R)

section Model

variable {R : Type} [Field R] [LinearOrder R]

/-! ## Vectors -/

def add (a b : Vec R) : Except Exn (Vec R) :=
  if a.length ≠ b.length then .error (.runtimeError "Add: размеры векторов не совпадают")
  else .ok (List.zipWith (· + ·) a b)

def mul (alpha : R) (v : Vec R) : Vec R := multiplyScalarByVector alpha v

def subtract (a b : Vec R) : Except Exn (Vec R) :=
  if a.length ≠ b.length then .error (.runtimeError "Subtract: размеры векторов не совпадают")
  else .ok (List.zipWith (· - ·) a b)

/-! ## Variants -/

def disps13 : DispsVariant R := ⟨3, 1, [0.76561395265924, 0.2066991671971, 0.027686880143657], 17.0⟩

def disps15 : DispsVariant R :=
  ⟨5, 1, [0.49900087977418, 0.33439107198377, 0.15517028825608, 0.011387362618405, 0.50397367568471e-4], 46.8⟩

def disps23 : DispsVariant R := ⟨3, 2, [0.25, 0.461290700433682, 0.28870929566318], 6.0⟩

def disps25 : DispsVariant R :=
  ⟨5, 2, [0.25, 0.39269911064722, 0.2811818347201, 0.06530730655278, 0.010811748097894], 18.8⟩

def disps35 : DispsVariant R :=
  ⟨5, 3, [1.0 / 6.0, -2.644193175547, 0.15929230363104, 3.1515675385826, 1.0 / 6.0], 10.3⟩

def disps36 : DispsVariant R :=
  ⟨6, 3, [1.0 / 6.0, -6.0414736520435, 0.12355552068869, 0.18196838110013, 6.4026164169214, 1.0 / 6.0], 15.68⟩

/-- `variants_` as the constructor fills it -/
def variants (flags : DispsEnabledFlags) : List (DispsVariant R) :=
  (if flags.disps13 then [disps13] else []) ++ (if flags.disps15 then [disps15] else []) ++
    (if flags.disps23 then [disps23] else []) ++ (if flags.disps25 then [disps25] else []) ++
    (if flags.disps35 then [disps35] else []) ++ (if flags.disps36 then [disps36] else [])

def construct (flags : DispsEnabledFlags) : Except Exn (List (DispsVariant R)) :=
  if (variants flags : List (DispsVariant R)).isEmpty then .error (.runtimeError "Нет включённых вариантов DISPS!")
  else .ok (variants flags)

/-! ## One step -/

/-- the new value and the stages of a 3-stage step -/
def step3Stage (t : R) (y : Vec R) (h : R) (f : Rhs R) (p : List R) : Except Exn (Vec R × List (Vec R)) := do
  let k1 := mul h (← f t y)
  let y2 ← add y (mul (2.0 / 3.0) k1)
  let k2 := mul h (← f (t + 2.0 / 3.0 * h) y2)
  let y3 ← add y (mul (1.0 / 3.0) k1)
  let y3 ← add y3 (mul (1.0 / 3.0) k2)
  let k3 := mul h (← f (t + h) y3)
  let yNext ← add y (mul (← read p 0) k1)
  let yNext ← add yNext (mul (← read p 1) k2)
  let yNext ← add yNext (mul (← read p 2) k3)
  return (yNext, [k1, k2, k3])

def step5Stage (t : R) (y : Vec R) (h : R) (f : Rhs R) (p : List R) : Except Exn (Vec R × List (Vec R)) := do
  let k1 := mul h (← f t y)
  let y2 ← add y (mul (1.0 / 3.0) k1)
  let k2 := mul h (← f (t + 1.0 / 3.0 * h) y2)
  let y3 ← add y (mul (1.0 / 6.0) k1)
  let y3 ← add y3 (mul (1.0 / 6.0) k2)
  let k3 := mul h (← f (t + 1.0 / 2.0 * h) y3)
  let y4 ← add y (mul (1.0 / 8.0) k1)
  let y4 ← add y4 (mul (1.0 / 8.0) k3)
  let k4 := mul h (← f (t + 3.0 / 4.0 * h) y4)
  let y5 ← add y (mul (1.0 / 2.0) k1)
  let y5 ← add y5 (mul (-3.0 / 2.0) k3)
  let y5 ← add y5 (mul 2.0 k4)
  let k5 := mul h (← f (t + h) y5)
  let yNext ← add y (mul (← read p 0) k1)
  let yNext ← add yNext (mul (← read p 1) k2)
  let yNext ← add yNext (mul (← read p 2) k3)
  let yNext ← add yNext (mul (← read p 3) k4)
  let yNext ← add yNext (mul (← read p 4) k5)
  return (yNext, [k1, k2, k3, k4, k5])

def step6Stage (t : R) (y : Vec R) (h : R) (f : Rhs R) (p : List R) : Except Exn (Vec R × List (Vec R)) := do
  let k1 := mul h (← f t y)
  let y2 ← add y (mul 0.5 k1)
  let k2 := mul h (← f (t + 0.5 * h) y2)
  let y3 ← add y (mul 0.5 k2)
  let k3 := mul h (← f (t + 0.5 * h) y3)
  let y4 ← add y (mul 0.5 k3)
  let k4 := mul h (← f (t + 0.5 * h) y4)
  let y5 ← add y (mul 0.497828275994247056 k1)
  let y5 ← add y5 (mul 0.002171724005752944 k4)
  let k5 := mul h (← f (t + 0.5 * h) y5)
  let y6 ← add y k5
  let k6 := mul h (← f (t + h) y6)
  let yNext ← add y (mul (← read p 0) k1)
  let yNext ← add yNext (mul (← read p 1) k2)
  let yNext ← add yNext (mul (← read p 2) k3)
  let yNext ← add yNext (mul (← read p 3) k4)
  let yNext ← add yNext (mul (← read p 4) k5)
  let yNext ← add yNext (mul (← read p 5) k6)
  return (yNext, [k1, k2, k3, k4, k5, k6])

def doOneStep (f : Rhs R) (t : R) (y : Vec R) (h : R) (variant : DispsVariant R) :
    Except Exn (Vec R × List (Vec R)) :=
  if variant.stages = 3 then step3Stage t y h f variant.p
  else if variant.stages = 5 then step5Stage t y h f variant.p
  else if variant.stages = 6 then step6Stage t y h f variant.p
  else .error (.runtimeError "Неизвестное число стадий")

/-! ## Control -/

variable [CMath R]

/-- the end of a controller: `rejectH` is the shrunk step, `grow` the factor after acceptance -/
def verdict (error tolerance h rejectH grow : R) (unstable switchOnReject : Bool) : Control R :=
  if error > tolerance then ⟨false, rejectH, switchOnReject || unstable⟩ else ⟨true, h * grow, unstable⟩

/-- `needSwitch`: the ratio V_n of the stage difference exceeds the stability length -/
def vnTest (diffNorm stageNorm gamma : R) : Bool :=
  (diffNorm * diffNorm) / ((stageNorm + 1e-15) * (diffNorm + 1e-15)) > gamma

def control1stOrder (variant : DispsVariant R) (kStages : List (Vec R)) (h tolerance : R) :
    Except Exn (Control R) := do
  let k1 ← read kStages 0
  let k2 ← read kStages 1
  let delta11 := (2.0 * |1.0 - 2.0 * norm k1|) / (norm k2 + 1e-15)
  let diff ← subtract k2 k1
  let aPrime := delta11 * norm diff
  return verdict aPrime tolerance h (h * 0.8 * CMath.pow (tolerance / (aPrime + 1e-15)) 0.5) 1.2
    (vnTest (norm diff) (norm k2) variant.gamma) false

def control2ndOrder (variant : DispsVariant R) (kStages : List (Vec R)) (h tolerance : R) :
    Except Exn (Control R) := do
  let k1 ← read kStages 0
  let k2 ← read kStages 1
  let k3 ← read kStages 2
  let delta11 := 1.0 - 4.0 * norm k1
  let diff ← subtract k3 k2
  let bPrime := delta11 * norm diff
  let q : R := if variant.stages = 5 ∧ variant.order = 2 then 0.4 else 0.8
  return verdict bPrime tolerance h (h * q * CMath.pow (tolerance / (bPrime + 1e-15)) (1.0 / 3.0)) 1.1
    (vnTest (norm diff) (norm k3) variant.gamma) (variant.stages = 5 ∧ variant.order = 2)

def control3rdOrder (variant : DispsVariant R) (kStages : List (Vec R)) (h tolerance : R) :
    Except Exn (Control R) := do
  let k1 ← read kStages 0
  let k2 ← read kStages 1
  let k3 ← read kStages 2
  let k4 ← read kStages 3
  let gN1 := (1.0 - 2.0 * norm k1) / (2.0 * norm k2 + 1e-15)
  let diff ← subtract k4 k3
  let cPrime := gN1 * norm diff
  return verdict cPrime tolerance h (h * 0.8 * CMath.pow (tolerance / (cPrime + 1e-15)) 0.25) 1.05
    (vnTest (norm diff) (norm k4) variant.gamma) false

def control (variant : DispsVariant R) (kStages : List (Vec R)) (h tolerance : R) : Except Exn (Control R) :=
  if variant.order = 1 then control1stOrder variant kStages h tolerance
  else if variant.order = 2 then control2ndOrder variant kStages h tolerance
  else control3rdOrder variant kStages h tolerance

/-- the best candidate so far: index, order and stability length -/
def switchScheme (variants : List (DispsVariant R)) (currentIndex : ℕ) : ℕ :=
  match variants[currentIndex]? with
  | none => currentIndex
  | some current =>
    let best := variants.zipIdx.foldl (fun (best : ℕ × ℕ × R) (c : DispsVariant R × ℕ) =>
      if c.2 = currentIndex then best
      else if c.1.order > best.2.1 then (c.2, c.1.order, c.1.gamma)
      else if c.1.order = best.2.1 ∧ c.1.gamma < best.2.2 then (c.2, best.2.1, c.1.gamma)
      else best) (currentIndex, current.order, current.gamma)
    best.1

/-! ## Solve -/

/-- the loop over the tries, with `left` = 30 - tries -/
def tryLoop (f : Rhs R) (variant : DispsVariant R) (tolerance t : R) (y : Vec R) : ℕ → R → Except Exn (Tries R)
  | 0, hAttempt => .ok (.failed hAttempt)
  | left + 1, hAttempt => do
    let (yNext, kStages) ← doOneStep f t y hAttempt variant
    let c ← control variant kStages hAttempt tolerance
    if c.ok then return .accepted hAttempt yNext c.newH c.needSwitch
    else if variant.stages = 5 ∧ variant.order = 2 ∧ c.newH < hAttempt then return .switched hAttempt
    else tryLoop f variant tolerance t y left c.newH

/-- one pass of `while (t < tEnd)` -/
def body (f : Rhs R) (variants : List (DispsVariant R)) (tEnd tolerance : R) (s : State R) : Pass Exn (State R) :=
  if s.t < tEnd then
    let hAttempt := min s.stepSize (tEnd - s.t)
    if hAttempt < 1e-14 then .exit s
    else
      match (do tryLoop f (← read variants s.currentIndex) tolerance s.t s.y 30 hAttempt) with
      | .error e => .raise e s
      | .ok (.accepted h yNext newH needSwitch) =>
        .next ⟨s.t + h, yNext, newH, if needSwitch then switchScheme variants s.currentIndex else s.currentIndex,
          s.results ++ [(s.t + h, yNext)]⟩
      | .ok (.failed h) => .next { s with stepSize := max (h * 0.5) 1e-10 }
      | .ok (.switched h) =>
        .next { s with stepSize := max (h * 0.5) 1e-10, currentIndex := switchScheme variants s.currentIndex }
  else .exit s

/-- at most n passes of `Solve`, on a solver with the given variants, step size and current index -/
def solve (f : Rhs R) (variants : List (DispsVariant R)) (stepSize : R) (currentIndex : ℕ) (t0 : R) (y0 : Vec R)
    (tEnd tolerance : R) (n : ℕ) : Pass Exn (State R) :=
  run (body f variants tEnd tolerance) n ⟨t0, y0, stepSize, currentIndex, [(t0, y0)]⟩

end Model

variable {f : Rhs ℝ} {tolerance t h : ℝ} {y : Vec ℝ}

/-! ## The constructor -/

/-- the constructor throws exactly when no variant is enabled -/
theorem construct_cases (flags : DispsEnabledFlags) :
    ((variants flags : List (DispsVariant ℝ)) = [] ∧
        (construct flags : Except Exn (List (DispsVariant ℝ))) =
          .error (.runtimeError "Нет включённых вариантов DISPS!")) ∨
      ((variants flags : List (DispsVariant ℝ)) ≠ [] ∧
        (construct flags : Except Exn (List (DispsVariant ℝ))) = .ok (variants flags)) := by
  unfold construct
  by_cases hempty : (variants flags : List (DispsVariant ℝ)) = []
  · exact Or.inl ⟨hempty, if_pos (List.isEmpty_iff.2 hempty)⟩
  · exact Or.inr ⟨hempty, if_neg fun h => hempty (List.isEmpty_iff.1 h)⟩

/-! ## Controllers -/

/-- a controller proposes a positive step, and a smaller one when it rejects -/
def Control.Sound (c : Control ℝ) (h : ℝ) : Prop := 0 < c.newH ∧ (c.ok = false → c.newH < h)

/-- a rejected step times a constant up to 1 and a root of tolerance / error is smaller -/
theorem shrink {error c e : ℝ} (hh : 0 < h) (htol : 0 < tolerance) (herr : tolerance < error) (hc : 0 < c)
    (hc1 : c ≤ 1) (he : 0 < e) :
    0 < h * c * (tolerance / (error + 1e-15)) ^ e ∧ h * c * (tolerance / (error + 1e-15)) ^ e < h := by
  have hden : tolerance < error + 1e-15 := herr.trans (lt_add_of_pos_right _ (by norm_num))
  have hr : 0 < tolerance / (error + 1e-15) := div_pos htol (htol.trans hden)
  have hlt : (tolerance / (error + 1e-15)) ^ e < 1 :=
    Real.rpow_lt_one hr.le ((div_lt_one (htol.trans hden)).2 hden) he
  refine ⟨mul_pos (mul_pos hh hc) (Real.rpow_pos_of_pos hr e), ?_⟩
  calc h * c * (tolerance / (error + 1e-15)) ^ e < h * c * 1 := mul_lt_mul_of_pos_left hlt (mul_pos hh hc)
    _ = h * c := mul_one _
    _ ≤ h := mul_le_of_le_one_right hh.le hc1

theorem verdict_sound {error rejectH grow : ℝ} {unstable switchOnReject : Bool} (hh : 0 < h) (hg : 0 < grow)
    (hr : tolerance < error → 0 < rejectH ∧ rejectH < h) :
    (verdict error tolerance h rejectH grow unstable switchOnReject).Sound h := by
  unfold verdict Control.Sound
  split_ifs with he
  · exact ⟨(hr he).1, fun _ => (hr he).2⟩
  · exact ⟨mul_pos hh hg, fun hc => by cases hc⟩

theorem verdict_ok {error rejectH grow : ℝ} {unstable switchOnReject : Bool} :
    (verdict error tolerance h rejectH grow unstable switchOnReject).ok = true ↔ error ≤ tolerance := by
  unfold verdict
  by_cases he : error > tolerance
  · rw [if_pos he]
    exact iff_of_false Bool.false_ne_true (not_le.2 he)
  · rw [if_neg he]
    exact iff_of_true rfl (not_lt.1 he)

/-- what each of the three controllers returns: the verdict on its estimate, with constants of its own -/
theorem control_cases {variant : DispsVariant ℝ} {kStages : List (Vec ℝ)} {c : Control ℝ}
    (hc : control variant kStages h tolerance = .ok c) :
    ∃ (error q r grow : ℝ) (unstable switchOnReject : Bool), (0 < q ∧ q ≤ 1) ∧ 0 < r ∧ (0 < grow ∧ grow ≤ 1.2) ∧
      verdict error tolerance h (h * q * (tolerance / (error + 1e-15)) ^ r) grow unstable switchOnReject = c := by
  unfold control at hc
  split_ifs at hc
  · obtain ⟨_, -, hc⟩ := bind_eq_ok.1 hc
    obtain ⟨_, -, hc⟩ := bind_eq_ok.1 hc
    obtain ⟨_, -, hc⟩ := bind_eq_ok.1 hc
    exact ⟨_, _, _, _, _, _, ⟨by norm_num, by norm_num⟩, by norm_num, ⟨by norm_num, le_rfl⟩, Except.ok.inj hc⟩
  · obtain ⟨_, -, hc⟩ := bind_eq_ok.1 hc
    obtain ⟨_, -, hc⟩ := bind_eq_ok.1 hc
    obtain ⟨_, -, hc⟩ := bind_eq_ok.1 hc
    obtain ⟨_, -, hc⟩ := bind_eq_ok.1 hc
    refine ⟨_, _, _, _, _, _, ?_, by norm_num, ⟨by norm_num, by norm_num⟩, Except.ok.inj hc⟩
    split_ifs
    · exact ⟨by norm_num, by norm_num⟩
    · exact ⟨by norm_num, by norm_num⟩
  · obtain ⟨_, -, hc⟩ := bind_eq_ok.1 hc
    obtain ⟨_, -, hc⟩ := bind_eq_ok.1 hc
    obtain ⟨_, -, hc⟩ := bind_eq_ok.1 hc
    obtain ⟨_, -, hc⟩ := bind_eq_ok.1 hc
    obtain ⟨_, -, hc⟩ := bind_eq_ok.1 hc
    exact ⟨_, _, _, _, _, _, ⟨by norm_num, by norm_num⟩, by norm_num, ⟨by norm_num, by norm_num⟩, Except.ok.inj hc⟩

/-- **Controllers.** Each of the three controllers proposes a positive step, and a smaller one when it rejects. -/
theorem control_sound {variant : DispsVariant ℝ} {kStages : List (Vec ℝ)} {c : Control ℝ} (hh : 0 < h)
    (htol : 0 < tolerance) (hc : control variant kStages h tolerance = .ok c) : c.Sound h := by
  obtain ⟨_, _, _, _, _, _, ⟨hq, hq1⟩, hr, ⟨hgrow, -⟩, rfl⟩ := control_cases hc
  exact verdict_sound hh hgrow fun he => shrink hh htol he hq hq1 hr

/-- an accepted step grows by at most a fifth -/
theorem control_growth {variant : DispsVariant ℝ} {kStages : List (Vec ℝ)} {c : Control ℝ} (hh : 0 < h)
    (hc : control variant kStages h tolerance = .ok c) (hok : c.ok = true) : c.newH ≤ h * 1.2 := by
  obtain ⟨_, _, _, _, _, _, -, -, ⟨-, hgrow⟩, rfl⟩ := control_cases hc
  unfold verdict at hok ⊢
  split_ifs at hok ⊢
  exact mul_le_mul_of_nonneg_left hgrow hh.le

/-! ## SwitchScheme -/

/-- a is chosen before b: the higher order, then the smaller stability length -/
def Prefers (a b : DispsVariant ℝ) : Prop := b.order < a.order ∨ b.order = a.order ∧ a.gamma ≤ b.gamma

theorem Prefers.refl (a : DispsVariant ℝ) : Prefers a a := Or.inr ⟨rfl, le_rfl⟩

theorem Prefers.trans {a b c : DispsVariant ℝ} (hab : Prefers a b) (hbc : Prefers b c) : Prefers a c := by
  rcases hab with h1 | ⟨h1, g1⟩ <;> rcases hbc with h2 | ⟨h2, g2⟩
  · exact Or.inl (h2.trans h1)
  · exact Or.inl (h2 ▸ h1)
  · exact Or.inl (h1 ▸ h2)
  · exact Or.inr ⟨h2.trans h1, g1.trans g2⟩

/-- one round of the loop of `switchScheme` -/
noncomputable def pick (currentIndex : ℕ) (best : ℕ × ℕ × ℝ) (c : DispsVariant ℝ × ℕ) : ℕ × ℕ × ℝ :=
  if c.2 = currentIndex then best
  else if c.1.order > best.2.1 then (c.2, c.1.order, c.1.gamma)
  else if c.1.order = best.2.1 ∧ c.1.gamma < best.2.2 then (c.2, best.2.1, c.1.gamma)
  else best

theorem switchScheme_eq {variants : List (DispsVariant ℝ)} {i : ℕ} {v : DispsVariant ℝ} (hv : variants[i]? = some v) :
    switchScheme variants i = (variants.zipIdx.foldl (pick i) (i, v.order, v.gamma)).1 := by
  simp only [switchScheme, hv]
  rfl

/-- a round keeps the best variant so far or takes the new one, whichever is preferred -/
theorem pick_prefers {variants : List (DispsVariant ℝ)} {i j : ℕ} {w : DispsVariant ℝ} {c : DispsVariant ℝ × ℕ}
    (hj : variants[j]? = some w) (hc : variants[c.2]? = some c.1) :
    ∃ j' w', pick i (j, w.order, w.gamma) c = (j', w'.order, w'.gamma) ∧ variants[j']? = some w' ∧ Prefers w' w ∧
      (c.2 ≠ i → Prefers w' c.1) := by
  unfold pick
  split_ifs with h1 h2 h3
  · exact ⟨j, w, rfl, hj, .refl w, fun h => absurd h1 h⟩
  · exact ⟨c.2, c.1, rfl, hc, Or.inl h2, fun _ => .refl c.1⟩
  · exact ⟨c.2, c.1, by rw [h3.1], hc, Or.inr ⟨h3.1.symm, h3.2.le⟩, fun _ => .refl c.1⟩
  · refine ⟨j, w, rfl, hj, .refl w, fun _ => ?_⟩
    rcases (not_lt.1 h2).lt_or_eq with hlt | heq
    · exact Or.inl hlt
    · exact Or.inr ⟨heq, not_lt.1 fun hg => h3 ⟨heq, hg⟩⟩

theorem foldl_pick_prefers {variants : List (DispsVariant ℝ)} {i : ℕ} (l : List (DispsVariant ℝ × ℕ))
    (hl : ∀ c ∈ l, variants[c.2]? = some c.1) {j : ℕ} {w : DispsVariant ℝ} (hj : variants[j]? = some w) :
    ∃ j' w', l.foldl (pick i) (j, w.order, w.gamma) = (j', w'.order, w'.gamma) ∧ variants[j']? = some w' ∧
      Prefers w' w ∧ ∀ c ∈ l, c.2 ≠ i → Prefers w' c.1 := by
  induction l generalizing j w with
  | nil => exact ⟨j, w, rfl, hj, .refl w, by simp⟩
  | cons c l ih =>
    obtain ⟨j1, w1, e1, hj1, hw1, hc1⟩ := pick_prefers (i := i) hj (hl c List.mem_cons_self)
    obtain ⟨j2, w2, e2, hj2, hw2, hl2⟩ := ih (fun c' hc' => hl c' (List.mem_cons_of_mem c hc')) hj1
    refine ⟨j2, w2, by rw [List.foldl_cons, e1, e2], hj2, hw2.trans hw1, ?_⟩
    intro c' hc' hne
    rcases List.mem_cons.1 hc' with rfl | hmem
    · exact hw2.trans (hc1 hne)
    · exact hl2 c' hmem hne

/-- **SwitchScheme.** The new index is that of the preferred variant of all that are enabled. -/
theorem switchScheme_prefers {variants : List (DispsVariant ℝ)} {i : ℕ} {v : DispsVariant ℝ}
    (hv : variants[i]? = some v) :
    ∃ w, variants[switchScheme variants i]? = some w ∧ ∀ u ∈ variants, Prefers w u := by
  have hl : ∀ c ∈ variants.zipIdx, variants[c.2]? = some c.1 := fun c hc => List.mem_zipIdx_iff_getElem?.1 hc
  obtain ⟨j, w, he, hj, hwv, hall⟩ := foldl_pick_prefers (i := i) variants.zipIdx hl hv
  refine ⟨w, by rw [switchScheme_eq hv, he]; exact hj, fun u hu => ?_⟩
  obtain ⟨k, hk⟩ := List.mem_iff_getElem?.1 hu
  by_cases hki : k = i
  · rw [hki, hv, Option.some.injEq] at hk
    exact hk ▸ hwv
  · exact hall (u, k) (List.mem_zipIdx_iff_getElem?.2 hk) hki

/-- the preferred variant is not replaced -/
theorem switchScheme_preferred {variants : List (DispsVariant ℝ)} {i : ℕ} {v : DispsVariant ℝ}
    (hv : variants[i]? = some v) (hall : ∀ u ∈ variants, Prefers v u) : switchScheme variants i = i := by
  have hpick : ∀ u ∈ variants, ∀ j, pick i (i, v.order, v.gamma) (u, j) = (i, v.order, v.gamma) := by
    intro u hu j
    unfold pick
    split_ifs with h1 h2 h3
    · rfl
    · rcases hall u hu with hlt | ⟨heq, -⟩
      · exact absurd h2 (not_lt.2 hlt.le)
      · exact absurd h2 (not_lt.2 heq.le)
    · rcases hall u hu with hlt | ⟨-, hle⟩
      · exact absurd h3.1 hlt.ne
      · exact absurd h3.2 (not_lt.2 hle)
    · rfl
  have hfold : ∀ l : List (DispsVariant ℝ × ℕ), (∀ c ∈ l, c.1 ∈ variants) →
      l.foldl (pick i) (i, v.order, v.gamma) = (i, v.order, v.gamma) := by
    intro l hl
    induction l with
    | nil => rfl
    | cons c l ih =>
      rw [List.foldl_cons, hpick c.1 (hl c List.mem_cons_self) c.2]
      exact ih fun d hd => hl d (List.mem_cons_of_mem c hd)
  rw [switchScheme_eq hv, hfold _ fun c hc => List.mem_of_getElem? (List.mem_zipIdx_iff_getElem?.1 hc)]

theorem switchScheme_idem {variants : List (DispsVariant ℝ)} {i : ℕ} {v : DispsVariant ℝ}
    (hv : variants[i]? = some v) : switchScheme variants (switchScheme variants i) = switchScheme variants i := by
  obtain ⟨w, hw, hall⟩ := switchScheme_prefers hv
  exact switchScheme_preferred hw hall

/-- the new index is that of an enabled variant -/
theorem switchScheme_lt {variants : List (DispsVariant ℝ)} {i : ℕ} (hi : i < variants.length) :
    switchScheme variants i < variants.length := by
  obtain ⟨v, hv, -⟩ := switchScheme_prefers (List.getElem?_eq_getElem hi)
  exact (List.getElem?_eq_some_iff.1 hv).1

/-! ## One pass -/

/-- what the tries of a pass from (t, y) with first step h end with -/
def Tries.Sound (f : Rhs ℝ) (variant : DispsVariant ℝ) (t : ℝ) (y : Vec ℝ) (h : ℝ) : Tries ℝ → Prop
  | .accepted h' yNext newH _ => 0 < h' ∧ h' ≤ h ∧ 0 < newH ∧ ∃ k, doOneStep f t y h' variant = .ok (yNext, k)
  | .failed h' => 0 < h' ∧ h' ≤ h
  | .switched h' => 0 < h' ∧ h' ≤ h

theorem Tries.Sound.mono {variant : DispsVariant ℝ} {h' : ℝ} {r : Tries ℝ} (hr : r.Sound f variant t y h')
    (hle : h' ≤ h) : r.Sound f variant t y h := by
  cases r with
  | accepted => exact ⟨hr.1, hr.2.1.trans hle, hr.2.2⟩
  | failed => exact ⟨hr.1, hr.2.trans hle⟩
  | switched => exact ⟨hr.1, hr.2.trans hle⟩

/-- a try that its controller accepts -/
theorem tryLoop_accepted {variant : DispsVariant ℝ} {left : ℕ} {yNext : Vec ℝ} {kStages : List (Vec ℝ)} {c : Control ℝ}
    (hstep : doOneStep f t y h variant = .ok (yNext, kStages)) (hc : control variant kStages h tolerance = .ok c)
    (hok : c.ok = true) :
    tryLoop f variant tolerance t y (left + 1) h = .ok (.accepted h yNext c.newH c.needSwitch) := by
  rw [tryLoop, hstep, ok_bind]
  dsimp only
  rw [hc, ok_bind, if_pos hok]
  rfl

/-- **Tries.** Up to `left` tries end in one step of the variant from the state they started with, or in none. -/
theorem tryLoop_sound {variant : DispsVariant ℝ} {left : ℕ} {r : Tries ℝ} (hh : 0 < h) (htol : 0 < tolerance)
    (hr : tryLoop f variant tolerance t y left h = .ok r) : r.Sound f variant t y h := by
  induction left generalizing h with
  | zero => cases hr; exact ⟨hh, le_rfl⟩
  | succ left ih =>
    obtain ⟨⟨yNext, k⟩, hstep, hr⟩ := bind_eq_ok.1 hr
    obtain ⟨c, hc, hr⟩ := bind_eq_ok.1 hr
    have hs := control_sound hh htol hc
    split_ifs at hr with hok hsw
    · cases hr; exact ⟨hh, le_rfl, hs.1, k, hstep⟩
    · cases hr; exact ⟨hh, le_rfl⟩
    · exact (ih hs.1 hr).mono (hs.2 (Bool.eq_false_iff.2 hok)).le

/-- the row (t', y') is one step of an enabled variant from (t, y) that stays within the interval -/
def RowStep (f : Rhs ℝ) (variants : List (DispsVariant ℝ)) (tEnd : ℝ) (r r' : ℝ × Vec ℝ) : Prop :=
  r.1 < r'.1 ∧ r'.1 ≤ tEnd ∧ ∃ v ∈ variants, ∃ k, doOneStep f r.1 r.2 (r'.1 - r.1) v = .ok (r'.2, k)

theorem read_mem {α : Type} {l : List α} {i : ℕ} {a : α} (h : read l i = .ok a) : a ∈ l := by
  unfold read at h
  split at h
  · rename_i x hx
    cases h
    exact List.mem_of_getElem? hx
  · cases h

/-- **Pass inversion.** A pass back to the loop head records one step of an enabled variant, or leaves t, y and the rows
and proposes another positive step. -/
theorem body_next {variants : List (DispsVariant ℝ)} {tEnd : ℝ} {s s' : State ℝ} (hs : 0 < s.stepSize)
    (htol : 0 < tolerance) (hb : body f variants tEnd tolerance s = .next s') :
    0 < s'.stepSize ∧ ((s'.t = s.t ∧ s'.y = s.y ∧ s'.results = s.results) ∨
      (s'.results = s.results ++ [(s'.t, s'.y)] ∧ RowStep f variants tEnd (s.t, s.y) (s'.t, s'.y))) := by
  unfold body at hb
  by_cases ht : s.t < tEnd
  · have hpos : 0 < min s.stepSize (tEnd - s.t) := lt_min hs (sub_pos.2 ht)
    rw [if_pos ht] at hb
    dsimp only at hb
    by_cases htiny : min s.stepSize (tEnd - s.t) < 1e-14
    · rw [if_pos htiny] at hb; cases hb
    · rw [if_neg htiny] at hb
      split at hb
      · cases hb
      · rename_i h' yNext newH needSwitch htry
        obtain ⟨v, hv, htry⟩ := bind_eq_ok.1 htry
        obtain ⟨h0, hle, hnew, k, hstep⟩ := tryLoop_sound hpos htol htry
        cases hb
        have hend : h' ≤ tEnd - s.t := hle.trans (min_le_right _ _)
        refine ⟨hnew, Or.inr ⟨rfl, by dsimp only; linarith, by dsimp only; linarith, v, read_mem hv, k, ?_⟩⟩
        rw [add_sub_cancel_left]
        exact hstep
      · cases hb; exact ⟨lt_max_of_lt_right (by norm_num), Or.inl ⟨rfl, rfl, rfl⟩⟩
      · cases hb; exact ⟨lt_max_of_lt_right (by norm_num), Or.inl ⟨rfl, rfl, rfl⟩⟩
  · rw [if_neg ht] at hb; cases hb

/-- a pass that does not go back to the loop head leaves the state as it was -/
theorem body_state (f : Rhs ℝ) (variants : List (DispsVariant ℝ)) (tEnd tolerance : ℝ) (s : State ℝ) :
    (∃ s', body f variants tEnd tolerance s = .next s') ∨ (body f variants tEnd tolerance s).state = s := by
  unfold body
  by_cases ht : s.t < tEnd
  · rw [if_pos ht]
    dsimp only
    by_cases htiny : min s.stepSize (tEnd - s.t) < 1e-14
    · rw [if_pos htiny]; exact Or.inr rfl
    · rw [if_neg htiny]
      split
      · exact Or.inr rfl
      · exact Or.inl ⟨_, rfl⟩
      · exact Or.inl ⟨_, rfl⟩
      · exact Or.inl ⟨_, rfl⟩
  · rw [if_neg ht]; exact Or.inr rfl

/-! ## Runs -/

/-- the loop invariant: a positive step, the current state in the last row, and rows that are steps of the variants -/
structure Inv (f : Rhs ℝ) (variants : List (DispsVariant ℝ)) (tEnd t0 : ℝ) (y0 : Vec ℝ) (s : State ℝ) : Prop where
  pos : 0 < s.stepSize
  last : s.results.getLast? = some (s.t, s.y)
  first : s.results.head? = some (t0, y0)
  chain : s.results.IsChain (RowStep f variants tEnd)
  within : ∀ r ∈ s.results, r.1 ≤ tEnd

theorem start_inv {variants : List (DispsVariant ℝ)} {tEnd t0 stepSize : ℝ} {y0 : Vec ℝ} {currentIndex : ℕ}
    (hs : 0 < stepSize) (h0 : t0 ≤ tEnd) : Inv f variants tEnd t0 y0 ⟨t0, y0, stepSize, currentIndex, [(t0, y0)]⟩ :=
  ⟨hs, rfl, rfl, .singleton _, fun r hr => by rw [List.mem_singleton.1 hr]; exact h0⟩

theorem body_inv {variants : List (DispsVariant ℝ)} {tEnd t0 : ℝ} {y0 : Vec ℝ} {s s' : State ℝ} (htol : 0 < tolerance)
    (hs : Inv f variants tEnd t0 y0 s) (hb : body f variants tEnd tolerance s = .next s') :
    Inv f variants tEnd t0 y0 s' := by
  obtain ⟨hpos, ⟨ht, hy, hr⟩ | ⟨hr, hrow⟩⟩ := body_next hs.pos htol hb
  · exact ⟨hpos, by rw [hr, ht, hy]; exact hs.last, by rw [hr]; exact hs.first, by rw [hr]; exact hs.chain,
      by rw [hr]; exact hs.within⟩
  · have hne : s.results ≠ [] := fun h => by have := hs.last; rw [h] at this; cases this
    refine ⟨hpos, by rw [hr, List.getLast?_concat], ?_, ?_, ?_⟩
    · rw [hr, List.head?_append_of_ne_nil _ hne]; exact hs.first
    · rw [hr]
      refine hs.chain.append (.singleton _) fun x hx z hz => ?_
      rw [hs.last, Option.mem_some_iff] at hx
      cases hz
      rw [← hx]
      exact hrow
    · rw [hr]
      intro r hr'
      rcases List.mem_append.1 hr' with h1 | h1
      · exact hs.within r h1
      · rw [List.mem_singleton.1 h1]; exact hrow.2.1

/-- the invariant holds in every state that a run of any length leaves -/
theorem solve_inv (f : Rhs ℝ) (variants : List (DispsVariant ℝ)) (currentIndex : ℕ) (y0 : Vec ℝ)
    {tEnd t0 stepSize : ℝ} (hs : 0 < stepSize) (h0 : t0 ≤ tEnd) (htol : 0 < tolerance) (n : ℕ) :
    Inv f variants tEnd t0 y0 (solve f variants stepSize currentIndex t0 y0 tEnd tolerance n).state := by
  refine run_invariant (I := Inv f variants tEnd t0 y0) (fun s hs => ?_) n _ (start_inv hs h0)
  rcases body_state f variants tEnd tolerance s with ⟨s', hb⟩ | hb
  · rw [hb]; exact body_inv htol hs hb
  · rw [hb]; exact hs

end OdeClientServer.DISPSSolver
