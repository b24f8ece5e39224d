/-
What an accepted step guarantees. The controllers of DISPS, the error tests of STEKS and RK23S and the end-point test of
DISPD each stand for a condition on the stages of the step.

- `accepts_within_iff`: a DISPS controller of order 2 or 3 drops the sign of its coefficient, so a large first stage
  passes; order 1 takes the absolute value.
- `returnsMeeting_iff_empty`: STEKS has one sign wrong in its estimate and compares with another tolerance, so from
  every state some right-hand side passes its test with a step that misses the conditions.
- `returnsBounded_iff_tolerance`: in RK23S the tolerance cancels, and the stage difference is bounded by 5/32.
- `endPointBounded_iff`: DISPD scales the derivative at the end point by h twice.
-/
import OdeClientServer.Solvers.Tableaux

namespace OdeClientServer.Acceptance

/-! ## DISPS

The estimate of a controller is a coefficient times the norm of a difference of two stages. -/

section Disps

open DISPSSolver

variable {variant : DispsVariant ℝ} {kStages : List (Vec ℝ)} {h tolerance : ℝ} {n : ℕ}

/-- the norm of stage i, counted from 0 -/
noncomputable def stageNorm (kStages : List (Vec ℝ)) (i : ℕ) : ℝ := norm (kStages.getD i [])

/-- the norm of the difference of the stages i + 1 and i -/
noncomputable def stageStep (kStages : List (Vec ℝ)) (i : ℕ) : ℝ :=
  norm (List.zipWith (· - ·) (kStages.getD (i + 1) []) (kStages.getD i []))

/-- the coefficient of the controller of an order, with its sign -/
noncomputable def coefficient (order : ℕ) (kStages : List (Vec ℝ)) : ℝ :=
  if order = 1 then 2.0 * (1.0 - 2.0 * stageNorm kStages 0) / (stageNorm kStages 1 + 1e-15)
  else if order = 2 then 1.0 - 4.0 * stageNorm kStages 0
  else (1.0 - 2.0 * stageNorm kStages 0) / (2.0 * stageNorm kStages 1 + 1e-15)

/-- the stage difference that the controller of an order looks at -/
noncomputable def difference (order : ℕ) (kStages : List (Vec ℝ)) : ℝ := stageStep kStages (order - 1)

/-- the product that the controller compares with the tolerance -/
noncomputable def compared (order : ℕ) (kStages : List (Vec ℝ)) : ℝ :=
  if order = 1 then |coefficient order kStages| * difference order kStages
  else coefficient order kStages * difference order kStages

/-- the first stage from which on the coefficient of the orders 2 and 3 is negative -/
noncomputable def firstStageBound (order : ℕ) : ℝ := if order = 2 then 1 / 4 else 1 / 2

/-- the stage difference up to which an estimate with a negative coefficient is within the tolerance -/
noncomputable def differenceBound (order : ℕ) (kStages : List (Vec ℝ)) (tolerance : ℝ) : ℝ :=
  if order = 2 then tolerance / (4 * stageNorm kStages 0 - 1)
  else tolerance * (2 * stageNorm kStages 1 + 1e-15) / (2 * stageNorm kStages 0 - 1)

theorem read_stage {i : ℕ} (hi : i < kStages.length) : read kStages i = .ok (kStages.getD i []) := by
  rw [read, List.getElem?_eq_getElem hi, List.getD_eq_getElem?_getD, List.getElem?_eq_getElem hi, Option.getD_some]

theorem length_stage (heq : ∀ k ∈ kStages, k.length = n) {i : ℕ} (hi : i < kStages.length) :
    (kStages.getD i []).length = n := by
  rw [List.getD_eq_getElem?_getD, List.getElem?_eq_getElem hi, Option.getD_some]
  exact heq _ (List.getElem_mem hi)

theorem subtract_stages (heq : ∀ k ∈ kStages, k.length = n) {i : ℕ} (hi : i + 1 < kStages.length) :
    subtract (kStages.getD (i + 1) []) (kStages.getD i []) =
      .ok (List.zipWith (· - ·) (kStages.getD (i + 1) []) (kStages.getD i [])) := by
  have hlen : (kStages.getD (i + 1) []).length = (kStages.getD i []).length :=
    (length_stage heq hi).trans (length_stage heq (Nat.lt_of_succ_lt hi)).symm
  exact if_neg (not_not.2 hlen)

/-- **Controllers.** On stages of one length a controller compares its product with the tolerance. -/
theorem control_compares (h tolerance : ℝ) (horder : 1 ≤ variant.order ∧ variant.order ≤ 3)
    (hlen : variant.order < kStages.length) (heq : ∀ k ∈ kStages, k.length = n) :
    ∃ c, control variant kStages h tolerance = .ok c ∧ (c.ok = true ↔ compared variant.order kStages ≤ tolerance) := by
  obtain ⟨hone, hthree⟩ := horder
  unfold DISPSSolver.control
  split_ifs with h1 h2
  · rw [h1] at hlen
    have hnorm : (2.0 * |1.0 - 2.0 * stageNorm kStages 0|) / (stageNorm kStages 1 + 1e-15) =
        |coefficient 1 kStages| := by
      have hden : 0 < stageNorm kStages 1 + 1e-15 := add_pos_of_nonneg_of_pos (norm_nonneg' _) (by norm_num)
      rw [coefficient, if_pos rfl, abs_div, abs_mul, abs_of_pos hden, abs_of_pos (show (0 : ℝ) < 2.0 by norm_num)]
    simp only [control1stOrder, read_stage (Nat.zero_lt_of_lt hlen), read_stage hlen, ok_bind,
      subtract_stages heq (i := 0) hlen, except_pure]
    refine ⟨_, rfl, verdict_ok.trans ?_⟩
    rw [h1, compared, if_pos rfl, ← hnorm]
    rfl
  · rw [h2] at hlen
    simp only [control2ndOrder, read_stage (Nat.zero_lt_of_lt hlen), read_stage (Nat.lt_of_succ_lt hlen),
      read_stage hlen, ok_bind, subtract_stages heq (i := 1) hlen, except_pure]
    refine ⟨_, rfl, verdict_ok.trans ?_⟩
    rw [h2]
    rfl
  · have h3 : variant.order = 3 := by omega
    rw [h3] at hlen
    simp only [control3rdOrder, read_stage (Nat.zero_lt_of_lt hlen), read_stage (show 1 < kStages.length by omega),
      read_stage (Nat.lt_of_succ_lt hlen), read_stage hlen, ok_bind, subtract_stages heq (i := 2) hlen, except_pure]
    refine ⟨_, rfl, verdict_ok.trans ?_⟩
    rw [h3]
    rfl

/-- the declared variants have an order from 1 to 3 and more stages than that -/
theorem variants_order {flags : DispsEnabledFlags} (hv : variant ∈ variants flags) :
    (1 ≤ variant.order ∧ variant.order ≤ 3) ∧ variant.order < variant.stages := by
  rcases Tableaux.mem_variants hv with rfl | rfl | rfl | rfl | rfl | rfl
  all_goals decide

/-- above the bound the coefficient is negative, and the two bounds on the difference say the same -/
theorem within_iff_of_large (tolerance : ℝ) (horder : variant.order = 2 ∨ variant.order = 3)
    (hlarge : firstStageBound variant.order < stageNorm kStages 0) :
    coefficient variant.order kStages < 0 ∧
      (|coefficient variant.order kStages| * difference variant.order kStages ≤ tolerance ↔
        difference variant.order kStages ≤ differenceBound variant.order kStages tolerance) := by
  rcases horder with h2 | h3
  · rw [h2, firstStageBound, if_pos rfl] at hlarge
    have hneg : coefficient 2 kStages < 0 := by norm_num [coefficient]; linarith
    have hpos : 0 < 4 * stageNorm kStages 0 - 1 := by linarith
    have habs : |coefficient 2 kStages| = 4 * stageNorm kStages 0 - 1 := by
      rw [abs_of_neg hneg]; norm_num [coefficient]
    rw [h2]
    refine ⟨hneg, ?_⟩
    rw [habs, differenceBound, if_pos rfl, le_div_iff₀ hpos, mul_comm]
  · rw [h3, firstStageBound, if_neg (by norm_num)] at hlarge
    have hden : 0 < 2 * stageNorm kStages 1 + 1e-15 :=
      add_pos_of_nonneg_of_pos (mul_nonneg zero_le_two (norm_nonneg' _)) (by norm_num)
    have hpos : 0 < 2 * stageNorm kStages 0 - 1 := by linarith
    have hcoef : coefficient 3 kStages = -((2 * stageNorm kStages 0 - 1) / (2 * stageNorm kStages 1 + 1e-15)) := by
      norm_num [coefficient, ← neg_div]
    have hneg : coefficient 3 kStages < 0 := by rw [hcoef, neg_lt_zero]; exact div_pos hpos hden
    rw [h3]
    refine ⟨hneg, ?_⟩
    rw [abs_of_neg hneg, hcoef, neg_neg, differenceBound, if_neg (by norm_num), le_div_iff₀ hpos, div_mul_eq_mul_div,
      div_le_iff₀ hden, mul_comm (2 * stageNorm kStages 0 - 1)]

/-- up to the bound the coefficient is not negative -/
theorem coefficient_nonneg (horder : variant.order = 2 ∨ variant.order = 3)
    (hsmall : stageNorm kStages 0 ≤ firstStageBound variant.order) : 0 ≤ coefficient variant.order kStages := by
  rcases horder with h2 | h3
  · rw [h2, firstStageBound, if_pos rfl] at hsmall
    rw [h2]
    norm_num [coefficient]
    linarith
  · rw [h3, firstStageBound, if_neg (by norm_num)] at hsmall
    rw [h3, coefficient, if_neg (by norm_num), if_neg (by norm_num)]
    refine div_nonneg (by norm_num; linarith) ?_
    exact add_nonneg (mul_nonneg (by norm_num) (norm_nonneg' _)) (by norm_num)

/-- **Accepted steps of DISPS.** A controller accepts nothing above the tolerance, and shrinks what it rejects, exactly
when its order is 1, or the first stage is small, or the difference of its stages is. -/
theorem accepts_within_iff {flags : DispsEnabledFlags} (hv : variant ∈ variants flags)
    (hlen : kStages.length = variant.stages) (heq : ∀ k ∈ kStages, k.length = n) (hh : 0 < h) (htol : 0 < tolerance) :
    ∃ c, control variant kStages h tolerance = .ok c ∧
      (((c.ok = true → |coefficient variant.order kStages| * difference variant.order kStages ≤ tolerance) ∧
        (c.ok = false → 0 < c.newH ∧ c.newH < h)) ↔
      (variant.order = 1 ∨ stageNorm kStages 0 ≤ firstStageBound variant.order ∨
        difference variant.order kStages ≤ differenceBound variant.order kStages tolerance)) := by
  obtain ⟨horder, hstages⟩ := variants_order hv
  obtain ⟨c, hc, hok⟩ := control_compares h tolerance horder (hlen ▸ hstages) heq
  have hsound := control_sound hh htol hc
  refine ⟨c, hc, ?_⟩
  by_cases h1 : variant.order = 1
  · refine iff_of_true ⟨fun hacc => ?_, fun hrej => ⟨hsound.1, hsound.2 hrej⟩⟩ (Or.inl h1)
    rw [hok, compared, if_pos h1] at hacc
    exact hacc
  · have h23 : variant.order = 2 ∨ variant.order = 3 := by omega
    rw [compared, if_neg h1] at hok
    rcases le_or_gt (stageNorm kStages 0) (firstStageBound variant.order) with hsmall | hlarge
    · refine iff_of_true ⟨fun hacc => ?_, fun hrej => ⟨hsound.1, hsound.2 hrej⟩⟩ (Or.inr (Or.inl hsmall))
      rw [abs_of_nonneg (coefficient_nonneg h23 hsmall)]
      exact hok.1 hacc
    · obtain ⟨hneg, hiff⟩ := within_iff_of_large tolerance h23 hlarge
      -- the product is not positive, so nothing is rejected
      have hacc : c.ok = true :=
        hok.2 ((mul_nonpos_of_nonpos_of_nonneg hneg.le (norm_nonneg' _)).trans htol.le)
      rw [← hiff]
      constructor
      · rintro ⟨hall, -⟩
        exact Or.inr (Or.inr (hall hacc))
      · rintro (habs | habs | hle)
        · exact absurd habs h1
        · exact absurd habs (not_le.2 hlarge)
        · exact ⟨fun _ => hle, fun hrej => ⟨hsound.1, hsound.2 hrej⟩⟩

/-- three equal stages of Disps23 -/
theorem accepts_within_iff_equal : ∃ c, control disps23 [[1], [1], [1]] 1 (1 : ℝ) = .ok c ∧
    (c.ok = true → |coefficient 2 [[1], [1], [1]]| * difference 2 [[1], [1], [1]] ≤ 1) := by
  have hv : (disps23 : DispsVariant ℝ) ∈ variants Tableaux.allEnabled := by simp [variants, Tableaux.allEnabled]
  have heq : ∀ k ∈ ([[1], [1], [1]] : List (Vec ℝ)), k.length = 1 := by simp
  have hone : (0 : ℝ) < 1 := one_pos
  obtain ⟨c, hc, hiff⟩ := accepts_within_iff hv rfl heq hone hone
  refine ⟨c, hc, (hiff.2 (Or.inr (Or.inr ?_))).1⟩
  norm_num [difference, differenceBound, stageStep, stageNorm, disps23, norm]

/-- y' = 2t + 1 -/
def ramp : Rhs ℝ := fun t _ => .ok [2 * t + 1]

/-- **Sign lost.** Disps23 from (0, 0) with the step 1: the stages are 1, 7/3 and 3, so the coefficient is -3 and the
estimate 2, and the step is accepted with the tolerance 0.001. -/
theorem disps23_accepts_large :
    ∃ (yNext : Vec ℝ) (kStages : List (Vec ℝ)) (c : Control ℝ),
      doOneStep ramp 0 [0] 1 disps23 = .ok (yNext, kStages) ∧ control disps23 kStages 1 0.001 = .ok c ∧
      c.ok = true ∧
      ¬ |coefficient 2 kStages| * difference 2 kStages ≤ 0.001 := by
  have hstep : ∃ yNext, doOneStep ramp 0 [0] 1 disps23 = .ok (yNext, [[1], [7 / 3], [3]]) := by
    norm_num [doOneStep, disps23, step3Stage, ramp, mul, add, multiplyScalarByVector, read]
  obtain ⟨yNext, hstep⟩ := hstep
  have horder : 1 ≤ (disps23 : DispsVariant ℝ).order ∧ (disps23 : DispsVariant ℝ).order ≤ 3 := by decide
  have hlen : (disps23 : DispsVariant ℝ).order < ([[1], [7 / 3], [3]] : List (Vec ℝ)).length := by decide
  have heq : ∀ k ∈ ([[1], [7 / 3], [3]] : List (Vec ℝ)), k.length = 1 := by simp
  obtain ⟨c, hc, hok⟩ := control_compares 1 0.001 horder hlen heq
  refine ⟨yNext, _, c, hstep, hc, hok.2 ?_, ?_⟩
  · norm_num [compared, coefficient, difference, stageStep, stageNorm, norm_singleton, disps23]
  · norm_num [coefficient, difference, stageStep, stageNorm, norm_singleton, disps23]

end Disps

/-! ## STEKS

The comments of `computeError` state `(1/30) ||2 k1 - 9 k3 + 8 k4 - k5|| <= 5 e^(5/4)` and
`6 max |(k3 - k2) / (k2 - k1)| <= 3.5`. The code subtracts `8 k4 + k5`, takes exp(5/4) for the power of the tolerance,
and compares the second quotient with the tolerance. -/

section Steks

open STEKSSolver

variable {f : Rhs ℝ} {eps t h : ℝ} {y : Vec ℝ} {k : Stages ℝ}

/-- `2 k1 - 9 k3 + 8 k4 - k5` -/
noncomputable def accuracyTerm (k : Stages ℝ) : Except Exn (Vec ℝ) := do
  subtractVectors (← addVectors (← addVectors (multiplyScalarByVector 2 k.k1) (multiplyScalarByVector (-9) k.k3))
    (multiplyScalarByVector 8 k.k4)) k.k5

/-- `(2 k1 - 9 k3) - (8 k4 + k5)` -/
noncomputable def precisionTerm (k : Stages ℝ) : Except Exn (Vec ℝ) := do
  subtractVectors (← addVectors (multiplyScalarByVector 2.0 k.k1) (multiplyScalarByVector (-9.0) k.k3))
    (← addVectors (multiplyScalarByVector 8.0 k.k4) k.k5)

/-- the largest `|(k3 - k2) / (k2 - k1)|` -/
noncomputable def largestRatio (k : Stages ℝ) : Except Exn ℝ :=
  maxOver k.k1.length fun i => do
    let denominator := (← read k.k2 i) - (← read k.k1 i)
    let denominator := if |denominator| < 1e-12 then 1e-12 else denominator
    return |((← read k.k3 i) - (← read k.k2 i)) / denominator|

/-- the two conditions of the comments -/
structure MeetsConditions (k : Stages ℝ) (eps : ℝ) : Prop where
  accuracy : ∃ v, accuracyTerm k = .ok v ∧ 1 / 30 * norm v ≤ 5 * eps ^ (5 / 4 : ℝ)
  stability : ∃ m, largestRatio k = .ok m ∧ 6 * m ≤ 3.5

/-- if `Step` returns, its stages meet the conditions -/
def ReturnsMeeting (f : Rhs ℝ) (eps t : ℝ) (y : Vec ℝ) (h : ℝ) : Prop :=
  ∀ m' y' h' g, step f eps t y h = .returned m' y' h' g → ∃ k, stages f t y h = .ok k ∧ MeetsConditions k eps

/-- the stages pass the test of the code and miss a condition -/
def Misjudged (k : Stages ℝ) (eps : ℝ) : Prop :=
  ∃ v w m, accuracyTerm k = .ok v ∧ precisionTerm k = .ok w ∧ largestRatio k = .ok m ∧
    norm w ≤ 150 * Real.exp (5 / 4) * eps ∧ m ≤ 7 / 12 * eps ∧ (150 * eps ^ (5 / 4 : ℝ) < norm v ∨ 7 / 12 < m)

theorem computeError_eq (k : Stages ℝ) : computeError k = do
    let w ← precisionTerm k
    let m ← largestRatio k
    return max ((norm w / 30.0) / (5.0 * Real.exp (5.0 / 4.0))) (6.0 / 3.5 * m) := by
  simp only [computeError, precisionTerm, largestRatio, bind_assoc, cmath_exp]

/-- the error is within the tolerance when both of its parts are -/
theorem error_le_iff {w : Vec ℝ} {m : ℝ} :
    max ((norm w / 30.0) / (5.0 * Real.exp (5.0 / 4.0))) (6.0 / 3.5 * m) ≤ eps ↔
      norm w ≤ 150 * Real.exp (5 / 4) * eps ∧ m ≤ 7 / 12 * eps := by
  have hexp : (0 : ℝ) < Real.exp (5 / 4) := Real.exp_pos _
  have h54 : Real.exp (5.0 / 4.0) = Real.exp (5 / 4) := by norm_num
  rw [max_le_iff, h54, div_div, div_le_iff₀ (by positivity)]
  refine and_congr ?_ ?_
  · rw [show eps * (30.0 * (5.0 * Real.exp (5 / 4))) = 150 * Real.exp (5 / 4) * eps by norm_num; ring]
  · norm_num
    constructor <;> intro hle <;> linarith

/-- the stages that enter later ones have the length of y -/
theorem stages_length (hk : stages f t y h = .ok k) :
    k.k1.length = y.length ∧ k.k3.length = y.length ∧ k.k4.length = y.length := by
  obtain ⟨v1, -, hk⟩ := bind_eq_ok.1 hk
  obtain ⟨y2, h2, hk⟩ := bind_eq_ok.1 hk
  obtain ⟨v2, -, hk⟩ := bind_eq_ok.1 hk
  obtain ⟨_, -, hk⟩ := bind_eq_ok.1 hk
  obtain ⟨y3, -, hk⟩ := bind_eq_ok.1 hk
  obtain ⟨v3, -, hk⟩ := bind_eq_ok.1 hk
  obtain ⟨a4, ha4, hk⟩ := bind_eq_ok.1 hk
  obtain ⟨y4, h4, hk⟩ := bind_eq_ok.1 hk
  obtain ⟨v4, -, hk⟩ := bind_eq_ok.1 hk
  obtain ⟨a5, ha5, hk⟩ := bind_eq_ok.1 hk
  obtain ⟨b5, hb5, hk⟩ := bind_eq_ok.1 hk
  obtain ⟨y5, h5, hk⟩ := bind_eq_ok.1 hk
  obtain ⟨v5, -, hk⟩ := bind_eq_ok.1 hk
  cases hk
  have l2 := length_of_addVectors h2
  have la4 := length_of_addVectors ha4
  have l4 := length_of_addVectors h4
  have la5 := length_of_addVectors ha5
  have lb5 := length_of_addVectors hb5
  have l5 := length_of_addVectors h5
  simp only [length_multiplyScalarByVector] at l2 la4 l4 la5 lb5 l5 ⊢
  exact ⟨l2.1.symm, by omega, by omega⟩

theorem nextValue_ok (hk : stages f t y h = .ok k) (h5 : k.k5.length = y.length) : ∃ y', nextValue y k = .ok y' := by
  obtain ⟨h1, -, h4⟩ := stages_length hk
  rw [nextValue, addVectors_of_eq (by simp [h1]), ok_bind, addVectors_of_eq (by simp [h4, h5]), ok_bind]
  exact ⟨_, addVectors_of_eq (by simp [h1, h4, h5])⟩

/-- **Accepted steps.** `Step` returns exactly from stages that pass both tests of the code. -/
theorem returns_iff :
    (∃ m' y' h' g, step f eps t y h = .returned m' y' h' g) ↔
      ∃ k w m, stages f t y h = .ok k ∧ precisionTerm k = .ok w ∧ largestRatio k = .ok m ∧
        norm w ≤ 150 * Real.exp (5 / 4) * eps ∧ m ≤ 7 / 12 * eps := by
  constructor
  · rintro ⟨m', y', h', g, hs⟩
    obtain ⟨-, -, e, he, -, hle, -⟩ := step_returned hs
    obtain ⟨k, hk, he⟩ := bind_eq_ok.1 he
    rw [computeError_eq] at he
    obtain ⟨w, hw, he⟩ := bind_eq_ok.1 he
    obtain ⟨m, hm, he⟩ := bind_eq_ok.1 he
    cases he
    exact ⟨k, w, m, hk, hw, hm, error_le_iff.1 hle⟩
  · rintro ⟨k, w, m, hk, hw, hm, hle⟩
    have hlen : k.k5.length = y.length := by
      obtain ⟨a, ha, hw⟩ := bind_eq_ok.1 hw
      obtain ⟨b, hb, -⟩ := bind_eq_ok.1 hw
      have h45 := (length_of_addVectors hb).1
      rw [length_multiplyScalarByVector] at h45
      rw [← h45, (stages_length hk).2.2]
    obtain ⟨y', hy'⟩ := nextValue_ok hk hlen
    have herr := computeError_eq k
    rw [hw, ok_bind, hm, ok_bind, except_pure] at herr
    simp only [step, hk, ok_bind, herr, except_pure, gt_iff_lt]
    rw [if_neg (not_lt.2 (error_le_iff.2 hle)), hy']
    exact ⟨(), y', _, h, rfl⟩

/-- the vector of the comment exists when that of the code does -/
theorem accuracyTerm_ok (hk : stages f t y h = .ok k) {w : Vec ℝ} (hw : precisionTerm k = .ok w) :
    ∃ v, accuracyTerm k = .ok v := by
  obtain ⟨h1, h3, h4⟩ := stages_length hk
  obtain ⟨a, ha, hw⟩ := bind_eq_ok.1 hw
  obtain ⟨b, hb, -⟩ := bind_eq_ok.1 hw
  have h45 := (length_of_addVectors hb).1
  rw [length_multiplyScalarByVector] at h45
  rw [accuracyTerm, addVectors_of_eq (by simp [h1, h3]), ok_bind, addVectors_of_eq (by simp [h1, h3, h4]), ok_bind]
  exact ⟨_, subtractVectors_of_eq (by simp [h1, h3, h4, ← h45])⟩

theorem returnsMeeting_iff : ReturnsMeeting f eps t y h ↔ ∀ k, stages f t y h = .ok k → ¬ Misjudged k eps := by
  constructor
  · rintro hall k hk ⟨v, w, m, hv, hw, hm, hle, hlem, hmiss⟩
    obtain ⟨m', y', h', g, hs⟩ := returns_iff.2 ⟨k, w, m, hk, hw, hm, hle, hlem⟩
    obtain ⟨k', hk', ⟨v', hv', hacc⟩, ⟨m1, hm1, hstab⟩⟩ := hall m' y' h' g hs
    cases hk.symm.trans hk'
    cases hv.symm.trans hv'
    cases hm.symm.trans hm1
    rcases hmiss with hv | hm
    · linarith
    · norm_num at hstab
      linarith
  · intro hnot m' y' h' g hs
    obtain ⟨k, w, m, hk, hw, hm, hle, hlem⟩ := returns_iff.1 ⟨m', y', h', g, hs⟩
    obtain ⟨v, hv⟩ := accuracyTerm_ok hk hw
    have hmeets : ¬ (150 * eps ^ (5 / 4 : ℝ) < norm v ∨ 7 / 12 < m) := fun hmiss =>
      hnot k hk ⟨v, w, m, hv, hw, hm, hle, hlem, hmiss⟩
    rw [not_or, not_lt, not_lt] at hmeets
    exact ⟨k, hk, ⟨v, hv, by linarith [hmeets.1]⟩, ⟨m, hm, by norm_num; linarith [hmeets.2]⟩⟩

/-- y' = 4 d/h s (3s - 1)(3 - 4s) in every component, with s the part of the step from t with length h that is over: its
stages are 0, 0, 0, d and -8 d -/
noncomputable def cubicForce (n : ℕ) (t h d : ℝ) : Rhs ℝ := fun τ _ =>
  .ok (List.ofFn fun _ : Fin n => 4 * d / h * ((τ - t) / h) * (3 * ((τ - t) / h) - 1) * (3 - 4 * ((τ - t) / h)))

/-- the stages 0, 0, 0, d and -8 d -/
noncomputable def cubicStages (n : ℕ) (d : ℝ) : Stages ℝ where
  k1 := List.ofFn fun _ : Fin n => 0
  k2 := List.ofFn fun _ : Fin n => 0
  k3 := List.ofFn fun _ : Fin n => 0
  k4 := List.ofFn fun _ : Fin n => d
  k5 := List.ofFn fun _ : Fin n => -8 * d

theorem cubicForce_stages {n : ℕ} (u : Fin n → ℝ) (t d : ℝ) (hh : h ≠ 0) :
    stages (cubicForce n t h d) t (List.ofFn u) h = .ok (cubicStages n d) := by
  have hthird : (t + h / 3.0 - t) / h = 1 / 3 := by field_simp; norm_num
  have hhalf : (t + h / 2.0 - t) / h = 1 / 2 := by field_simp; norm_num
  have hend : (t + h - t) / h = 1 := by field_simp; ring
  simp only [stages, cubicForce, ok_bind, multiplyScalarByVector_ofFn, addVectors_ofFn, except_pure, hthird, hhalf,
    hend, sub_self, zero_div, cubicStages]
  congr 3
  all_goals
    funext i
    simp only [Pi.smul_apply, smul_eq_mul]
    field_simp
    ring

/-- **Sign of 8 k4.** With one component at least the code measures 0 on these stages, and the accuracy condition of the
comment is missed. -/
theorem cubicStages_misjudged {n : ℕ} {d : ℝ} (hn : 0 < n) (heps : 0 < eps) (hd : 75 / 8 * eps ^ (5 / 4 : ℝ) < d) :
    Misjudged (cubicStages n d) eps := by
  have hpow : 0 < eps ^ (5 / 4 : ℝ) := Real.rpow_pos_of_pos heps _
  have hv : accuracyTerm (cubicStages n d) = .ok (List.ofFn fun _ : Fin n => 16 * d) := by
    simp only [accuracyTerm, cubicStages, multiplyScalarByVector_ofFn, addVectors_ofFn, subtractVectors_ofFn, ok_bind]
    congr 2
    funext i
    simp only [Pi.add_apply, Pi.sub_apply, Pi.smul_apply, smul_eq_mul]
    ring
  have hw : precisionTerm (cubicStages n d) = .ok (List.ofFn (0 : Fin n → ℝ)) := by
    simp only [precisionTerm, cubicStages, multiplyScalarByVector_ofFn, addVectors_ofFn, subtractVectors_ofFn, ok_bind]
    congr 2
    funext i
    simp only [Pi.add_apply, Pi.sub_apply, Pi.smul_apply, smul_eq_mul, Pi.zero_apply]
    norm_num
  have hm : largestRatio (cubicStages n d) = .ok ‖(0 : Fin n → ℝ)‖ := by
    rw [largestRatio, cubicStages, List.length_ofFn]
    apply maxOver_ofFn
    intro i
    simp only [read_ofFn, ok_bind, except_pure, sub_self, zero_div, Pi.zero_apply]
  refine ⟨_, _, _, hv, hw, hm, ?_, ?_, Or.inl ?_⟩
  · rw [norm_ofFn_eq_zero.2 rfl]
    positivity
  · rw [norm_zero]
    positivity
  · have hone : (1 : ℝ) ≤ n := by exact_mod_cast hn
    calc 150 * eps ^ (5 / 4 : ℝ) < 16 * d := by linarith
      _ ≤ Real.sqrt (n * (16 * d * (16 * d))) := Real.le_sqrt_of_sq_le (by nlinarith [sq_nonneg (16 * d)])
      _ = norm (List.ofFn fun _ : Fin n => 16 * d) := by
        rw [norm_ofFn, Finset.sum_const, Finset.card_univ, Fintype.card_fin, nsmul_eq_mul]

/-- the empty vectors meet every condition -/
theorem empty_meeting (heps : 0 < eps) : ReturnsMeeting f eps t [] h := by
  have hpow : 0 < eps ^ (5 / 4 : ℝ) := Real.rpow_pos_of_pos heps _
  rw [returnsMeeting_iff]
  rintro k hk ⟨v, w, m, hv, -, hm, -, -, hmiss⟩
  obtain ⟨h1, h3, h4⟩ := stages_length hk
  rw [List.length_nil, List.length_eq_zero_iff] at h1 h3 h4
  have hempty : v = [] := by
    obtain ⟨a, ha, hv⟩ := bind_eq_ok.1 hv
    obtain ⟨b, hb, hv⟩ := bind_eq_ok.1 hv
    have hlen := (length_of_addVectors hb).2
    have hlast := length_of_subtractVectors hv
    rw [(length_of_addVectors ha).2, h1] at hlen
    rw [subtractVectors_of_eq hlast, Except.ok.injEq, List.length_eq_zero_iff.1 (hlen.trans rfl)] at hv
    exact hv.symm.trans List.zipWith_nil_left
  have hzero : m = 0 := by
    rw [largestRatio, h1] at hm
    exact (Except.ok.inj hm).symm
  rcases hmiss with hlarge | hlarge
  · rw [hempty, norm, List.foldl_nil, cmath_sqrt, Real.sqrt_zero] at hlarge
    linarith
  · rw [hzero] at hlarge
    norm_num at hlarge

/-- **Conditions of STEKS.** From a state y with a step h > 0 and a tolerance every right-hand side has its accepted
steps meet the conditions of the comments exactly when y has no component: from every other state some right-hand side
breaks them. -/
theorem returnsMeeting_iff_empty (heps : 0 < eps) (hh : 0 < h) (t : ℝ) (y : Vec ℝ) :
    (∀ f, ReturnsMeeting f eps t y h) ↔ y = [] := by
  constructor
  · intro hall
    by_contra hne
    have hpow : 0 < eps ^ (5 / 4 : ℝ) := Real.rpow_pos_of_pos heps _
    obtain ⟨n, u, rfl⟩ : ∃ n, ∃ u : Fin n → ℝ, y = List.ofFn u := ⟨_, exists_ofFn rfl⟩
    have hn : 0 < n := by
      rw [← List.length_ofFn (f := u)]
      exact List.length_pos_iff.2 hne
    have hmis : Misjudged (cubicStages n (10 * eps ^ (5 / 4 : ℝ))) eps := cubicStages_misjudged hn heps (by linarith)
    exact returnsMeeting_iff.1 (hall _) _ (cubicForce_stages u t _ hh.ne') hmis
  · rintro rfl f
    exact empty_meeting heps

/-- the state (0), the step 1/2 and the tolerance 0.001 -/
theorem returnsMeeting_iff_empty_half : ¬ ∀ f, ReturnsMeeting f 0.001 0 [0] (1 / 2) := fun hall =>
  List.cons_ne_nil _ _ ((returnsMeeting_iff_empty (by norm_num) (by norm_num) 0 [0]).1 hall)

/-- y' = 40 t (3t - 1)(3 - 4t) from (0, 0) with the step 1 and the tolerance 1: the code measures 0 and accepts, and the
condition of the comment is missed. -/
theorem cubicForce_accepted :
    (∃ m' y' h' g, step (cubicForce 1 0 1 10) 1 0 [0] 1 = .returned m' y' h' g) ∧
      ¬ ReturnsMeeting (cubicForce 1 0 1 10) 1 0 [0] 1 := by
  have hmis : Misjudged (cubicStages 1 10) 1 := cubicStages_misjudged one_pos one_pos (by norm_num)
  have hstages : stages (cubicForce 1 0 1 10) 0 [0] 1 = .ok (cubicStages 1 10) :=
    cubicForce_stages (fun _ : Fin 1 => 0) 0 10 one_ne_zero
  refine ⟨?_, fun hall => returnsMeeting_iff.1 hall _ hstages hmis⟩
  obtain ⟨v, w, m, -, hw, hm, hle, hlem, -⟩ := hmis
  exact returns_iff.2 ⟨_, w, m, hstages, hw, hm, hle, hlem⟩

end Steks

/-! ## RK23S

The tolerance enters the estimate as a factor and is then compared with it, so it cancels: the test bounds the stage
difference by 5/32. -/

section Rk23s

open RK23SSolver

variable {f : Rhs ℝ} {tolerance t h : ℝ} {y k1 k2 k3 : Vec ℝ}

/-- `|1 - 6g| / (6 alpha2) * ||k2 - k1||`, the estimate of A' for this family of schemes -/
noncomputable def stageEstimate (k1 k2 : Vec ℝ) : Except Exn ℝ := do
  let diffK2K1 ← subtractVectors k2 k1
  return |1 - 6 * g| / (6 * alpha2) * norm diffK2K1

/-- if `Step` returns, the estimate of its stages is within the tolerance -/
def ReturnsBounded (f : Rhs ℝ) (tolerance t : ℝ) (y : Vec ℝ) (h : ℝ) : Prop :=
  ∀ m' y' h' g', step f tolerance t y h = .returned m' y' h' g' →
    ∃ k1 k2 k3 a, stages f t y h = .ok (k1, k2, k3) ∧ stageEstimate k1 k2 = .ok a ∧ a ≤ tolerance

/-- the stages pass the test of the code with a difference above `6 alpha2 / (1 - 6g)` times the tolerance -/
def Unbounded (k1 k2 k3 : Vec ℝ) (tolerance : ℝ) : Prop :=
  k3.length = k2.length ∧ ∃ d s, subtractVectors k2 k1 = .ok d ∧ stability k1 k2 k3 = .ok s ∧ s ≤ tolerance ∧
    32 / 5 * tolerance < norm d ∧ norm d ≤ 5 / 32

theorem stageEstimate_eq {d : Vec ℝ} (hd : subtractVectors k2 k1 = .ok d) :
    stageEstimate k1 k2 = .ok (5 / 32 * norm d) := by
  rw [stageEstimate, hd, ok_bind, except_pure]
  norm_num [g, alpha2, abs_of_pos]

/-- the two parts of the error against the tolerance -/
theorem error_within_iff {d : Vec ℝ} {s : ℝ} (htol : 0 < tolerance) :
    max ((6.0 * alpha2 * tolerance) / (1.0 - 6.0 * g) * norm d) s ≤ tolerance ↔ norm d ≤ 5 / 32 ∧ s ≤ tolerance := by
  have hfactor : (6.0 * alpha2 * tolerance) / (1.0 - 6.0 * g) * norm d = 32 / 5 * norm d * tolerance := by
    norm_num [alpha2, g]; ring
  rw [max_le_iff, hfactor, mul_le_iff_le_one_left htol]
  refine and_congr_left fun _ => ?_
  constructor <;> intro hle <;> linarith

/-- the first two stages have the length of y -/
theorem stages_lengths (hk : stages f t y h = .ok (k1, k2, k3)) : k1.length = y.length ∧ k2.length = y.length := by
  obtain ⟨v1, -, hk⟩ := bind_eq_ok.1 hk
  obtain ⟨y2, h2, hk⟩ := bind_eq_ok.1 hk
  obtain ⟨v2, -, hk⟩ := bind_eq_ok.1 hk
  obtain ⟨b3, hb3, hk⟩ := bind_eq_ok.1 hk
  obtain ⟨y3, -, hk⟩ := bind_eq_ok.1 hk
  obtain ⟨v3, -, hk⟩ := bind_eq_ok.1 hk
  cases hk
  have l2 := length_of_addVectors h2
  have lb3 := length_of_addVectors hb3
  simp only [length_multiplyScalarByVector] at l2 lb3 ⊢
  exact ⟨l2.1.symm, by omega⟩

/-- **Accepted steps.** `Step` returns exactly from stages of one length with a small difference and stability ratio. -/
theorem step_returns_iff (htol : 0 < tolerance) :
    (∃ m' y' h' g', step f tolerance t y h = .returned m' y' h' g') ↔
      ∃ k1 k2 k3 d s, stages f t y h = .ok (k1, k2, k3) ∧ k3.length = k2.length ∧ subtractVectors k2 k1 = .ok d ∧
        stability k1 k2 k3 = .ok s ∧ norm d ≤ 5 / 32 ∧ s ≤ tolerance := by
  constructor
  · rintro ⟨m', y', h', g', hs⟩
    obtain ⟨-, hu, e, he, -, hle, -⟩ := step_returned hs
    obtain ⟨⟨k1, k2, k3⟩, hk, he⟩ := bind_eq_ok.1 he
    obtain ⟨d, hd, he⟩ := bind_eq_ok.1 he
    obtain ⟨s, hs, he⟩ := bind_eq_ok.1 he
    cases he
    have hlen : k3.length = k2.length := by
      obtain ⟨_, hk', hy⟩ := bind_eq_ok.1 hu
      cases hk.symm.trans hk'
      obtain ⟨b, hb, hy⟩ := bind_eq_ok.1 hy
      have h23 := (length_of_addVectors hb).1
      rw [length_multiplyScalarByVector, length_multiplyScalarByVector] at h23
      exact h23.symm
    exact ⟨k1, k2, k3, d, s, hk, hlen, hd, hs, (error_within_iff htol).1 hle⟩
  · rintro ⟨k1, k2, k3, d, s, hk, hlen, hd, hs, hle⟩
    obtain ⟨h1, h2⟩ := stages_lengths hk
    have herr : computeError k1 k2 k3 tolerance =
        .ok (max ((6.0 * alpha2 * tolerance) / (1.0 - 6.0 * g) * norm d) s) := by
      rw [computeError, hd, ok_bind, hs, ok_bind, except_pure]
    have hy : ∃ y', nextValue y k1 k2 k3 = .ok y' := by
      rw [nextValue, addVectors_of_eq (by simp [hlen]), ok_bind, addVectors_of_eq (by simp [h1, h2, hlen]), ok_bind]
      exact ⟨_, addVectors_of_eq (by simp [h1, h2, hlen])⟩
    obtain ⟨y', hy⟩ := hy
    simp only [step, hk, ok_bind, herr, except_pure, gt_iff_lt]
    rw [if_neg (not_lt.2 ((error_within_iff htol).2 hle)), hy]
    exact ⟨(), y', _, h, rfl⟩

theorem returnsBounded_iff (htol : 0 < tolerance) :
    ReturnsBounded f tolerance t y h ↔
      ∀ k1 k2 k3, stages f t y h = .ok (k1, k2, k3) → ¬ Unbounded k1 k2 k3 tolerance := by
  constructor
  · rintro hall k1 k2 k3 hk ⟨hlen, d, s, hd, hs, hstab, hlarge, hsmall⟩
    obtain ⟨m', y', h', g', hstep⟩ := (step_returns_iff htol).2 ⟨k1, k2, k3, d, s, hk, hlen, hd, hs, hsmall, hstab⟩
    obtain ⟨_, _, _, a, hk', ha, hle⟩ := hall m' y' h' g' hstep
    cases hk.symm.trans hk'
    cases (stageEstimate_eq hd).symm.trans ha
    linarith
  · intro hnot m' y' h' g' hstep
    obtain ⟨k1, k2, k3, d, s, hk, hlen, hd, hs, hsmall, hstab⟩ := (step_returns_iff htol).1 ⟨m', y', h', g', hstep⟩
    refine ⟨k1, k2, k3, _, hk, stageEstimate_eq hd, ?_⟩
    by_contra hlarge
    exact hnot k1 k2 k3 hk ⟨hlen, d, s, hd, hs, hstab, by linarith, hsmall⟩

/-- y' = c t, whose stages from 0 with the step 1 are 0, 2c/3 and 2c/3 -/
def linearForce (c : ℝ) : Rhs ℝ := fun t _ => .ok [c * t]

theorem linearForce_stages (c : ℝ) : stages (linearForce c) 0 [0] 1 = .ok ([0], [2 / 3 * c], [2 / 3 * c]) := by
  simp only [stages, linearForce, ok_bind, multiplyScalarByVector, addVectors, except_pure]
  norm_num [alpha2, alpha3, mul_comm]

/-- the stage difference 5/32 is accepted with every tolerance -/
theorem linearForce_unbounded (htol : 0 < tolerance) (hsmall : tolerance < 25 / 1024) :
    Unbounded [0] [2 / 3 * (15 / 64)] [2 / 3 * (15 / 64)] tolerance := by
  refine ⟨rfl, [5 / 32], 0, ?_, ?_, htol.le, ?_, ?_⟩
  · norm_num [subtractVectors]
  · norm_num [stability, maxOver, read]
  · rw [norm_singleton, abs_of_pos (by norm_num)]
    linarith
  · rw [norm_singleton, abs_of_pos (by norm_num)]

/-- **Accuracy test of RK23S.** A step is accepted with an estimate above the tolerance exactly when its stages are
unbounded, and the tolerances that exclude this for every right-hand side are those from 25/1024 on. -/
theorem returnsBounded_iff_tolerance (htol : 0 < tolerance) :
    (∀ f t y h, ReturnsBounded f tolerance t y h ↔
      ∀ k1 k2 k3, stages f t y h = .ok (k1, k2, k3) → ¬ Unbounded k1 k2 k3 tolerance) ∧
    ((∀ f t y h, 0 < h → ReturnsBounded f tolerance t y h) ↔ 25 / 1024 ≤ tolerance) := by
  refine ⟨fun f t y h => returnsBounded_iff htol, fun hall => ?_, fun hle f t y h _ => ?_⟩
  · by_contra hlt
    exact (returnsBounded_iff htol).1 (hall (linearForce (15 / 64)) 0 [0] 1 one_pos) _ _ _ (linearForce_stages _)
      (linearForce_unbounded htol (not_le.1 hlt))
  · rw [returnsBounded_iff htol]
    rintro k1 k2 k3 - ⟨-, d, s, -, -, -, hlarge, hsmall⟩
    linarith

/-- y' = t with the tolerance 1 -/
theorem returnsBounded_iff_tolerance_one : ReturnsBounded (linearForce 1) 1 0 [0] 1 :=
  (returnsBounded_iff_tolerance one_pos).2.2 (by norm_num) (linearForce 1) 0 [0] 1 one_pos

/-- **Tolerance cancelled.** y' = 15/64 t from (0, 0) with the step 1: the estimate is 25/1024, and the step is accepted
with the tolerance 0.001. -/
theorem linearForce_accepted :
    (∃ m' y' h' g', step (linearForce (15 / 64)) 0.001 0 [0] 1 = .returned m' y' h' g') ∧
      ¬ ReturnsBounded (linearForce (15 / 64)) 0.001 0 [0] 1 := by
  have htol : (0 : ℝ) < 0.001 := by norm_num
  have hmis := linearForce_unbounded htol (by norm_num)
  refine ⟨?_, fun hall => (returnsBounded_iff htol).1 hall _ _ _ (linearForce_stages _) hmis⟩
  obtain ⟨hlen, d, s, hd, hs, hstab, -, hsmall⟩ := hmis
  exact (step_returns_iff htol).2 ⟨_, _, _, d, s, linearForce_stages _, hlen, hd, hs, hsmall, hstab⟩

end Rk23s

/-! ## DISPD

A' looks at the first two stages, A'' at the end point. `computeAddoublePrime` is called with `h f(t + h, y)` and
multiplies it by h once more. -/

section Dispd

open DISPDSolver

variable {c : SchemeParams ℝ} {f : Rhs ℝ} {tolerance t h : ℝ} {y : Vec ℝ}

/-- `|1 - 6g| / 6 * ||h f(t + h, y_{n+1}) - h f(t, y)||` for the attempt from (t, y) with step h -/
noncomputable def endEstimate (c : SchemeParams ℝ) (f : Rhs ℝ) (t : ℝ) (y : Vec ℝ) (h : ℝ) : Except Exn ℝ := do
  let (k1, k2, k3) ← computeKTerms f t y h
  let yNext ← nextValue c y k1 k2 k3
  let diff ← subtractVectors (multiplyScalarByVector h (← f (t + h) yNext)) k1
  return |1 - 6 * c.g| / 6 * norm diff

/-- if `Step` returns, the end-point estimate of the accepted attempt is within the tolerance -/
def EndPointBounded (c : SchemeParams ℝ) (f : Rhs ℝ) (tolerance t : ℝ) (y : Vec ℝ) (h : ℝ) : Prop :=
  ∀ c' y' h' g, step f tolerance c t y h = .returned c' y' h' g →
    update c f t y g.h = .ok y' ∧ ∃ d, endEstimate c f t y g.h = .ok d ∧ d ≤ tolerance

/-- `Step` makes the attempt number n, counted from 0, with the step h' -/
inductive Attempted (c : SchemeParams ℝ) (f : Rhs ℝ) (tolerance t : ℝ) (y : Vec ℝ) (h : ℝ) : ℕ → ℝ → Prop
  | first : Attempted c f tolerance t y h 0 h
  | retry {n : ℕ} {h' h'' : ℝ} (hn : Attempted c f tolerance t y h n h')
      (hr : tryStep c f tolerance t y n h' = .ok (.retry h'')) : Attempted c f tolerance t y h (n + 1) h''

/-- the attempt number n with the step h passes the three tests of the code, with A'' from `h * h * f(t + h, y_{n+1})`,
and its end-point estimate is above the tolerance -/
def PassesAmiss (c : SchemeParams ℝ) (f : Rhs ℝ) (tolerance t : ℝ) (y : Vec ℝ) (n : ℕ) (h : ℝ) : Prop :=
  ∃ a d v e, estimates c f t y h = .ok (a, d, v) ∧ worst tolerance n a d v ≤ 1 ∧
    endEstimate c f t y h = .ok e ∧ tolerance < e

theorem estimates_update {a d v : ℝ} (he : estimates c f t y h = .ok (a, d, v)) : ∃ y', update c f t y h = .ok y' := by
  obtain ⟨⟨k1, k2, k3⟩, hk, he⟩ := bind_eq_ok.1 he
  obtain ⟨_, -, he⟩ := bind_eq_ok.1 he
  obtain ⟨yNext, hy, -⟩ := bind_eq_ok.1 he
  exact ⟨yNext, bind_eq_ok.2 ⟨_, hk, hy⟩⟩

/-- where the code has its estimates, the end point has one -/
theorem endEstimate_ok {a d v : ℝ} (he : estimates c f t y h = .ok (a, d, v)) :
    ∃ diff, endEstimate c f t y h = .ok (|1 - 6 * c.g| / 6 * norm diff) := by
  obtain ⟨⟨k1, k2, k3⟩, hk, he⟩ := bind_eq_ok.1 he
  obtain ⟨_, -, he⟩ := bind_eq_ok.1 he
  obtain ⟨yNext, hy, he⟩ := bind_eq_ok.1 he
  obtain ⟨w, hw, he⟩ := bind_eq_ok.1 he
  obtain ⟨_, hd, -⟩ := bind_eq_ok.1 he
  obtain ⟨_, hdiff, -⟩ := bind_eq_ok.1 hd
  have hlen : (multiplyScalarByVector h w).length = k1.length := by
    rw [← length_of_subtractVectors hdiff, length_multiplyScalarByVector, length_multiplyScalarByVector,
      length_multiplyScalarByVector]
  exact ⟨_, by simp only [endEstimate, hk, ok_bind, hy, hw, subtractVectors_of_eq hlen, except_pure]; rfl⟩

/-- with g = 1/6 the coefficient is 0 -/
theorem endEstimate_zero (hg : c.g = 1 / 6) {a d v : ℝ} (he : estimates c f t y h = .ok (a, d, v)) :
    endEstimate c f t y h = .ok 0 := by
  obtain ⟨diff, hdiff⟩ := endEstimate_ok he
  rw [hdiff, hg]
  norm_num

/-! ### The attempts of a step -/

theorem step_eq_attemptLoop {n : ℕ} {h' : ℝ} (hn : Attempted c f tolerance t y h n h') :
    ∀ left, n + left = 10 → step f tolerance c t y h = attemptLoop c f tolerance t y left n h' := by
  induction hn with
  | first =>
    intro left hleft
    rw [step, ← hleft, Nat.zero_add]
  | retry _ hr ih =>
    intro left hleft
    rw [ih (left + 1) (by omega), attemptLoop, hr]

theorem attemptLoop_attempted {n left : ℕ} {h' : ℝ} {c' : SchemeParams ℝ} {y' : Vec ℝ} {h'' : ℝ} {g : Attempt ℝ}
    (hn : Attempted c f tolerance t y h n h')
    (hs : attemptLoop c f tolerance t y left n h' = .returned c' y' h'' g) :
    Attempted c f tolerance t y h g.attempts g.h ∧ g.attempts < n + left := by
  induction left generalizing n h' with
  | zero => cases hs
  | succ left ih =>
    unfold attemptLoop at hs
    split at hs
    · cases hs
    · rename_i hr
      obtain ⟨hg, hlt⟩ := ih (.retry hn hr) hs
      exact ⟨hg, by omega⟩
    · cases hs
      exact ⟨hn, Nat.lt_add_of_pos_right (Nat.succ_pos left)⟩

/-- **Each input.** The end-point estimate is missed exactly by a step one of whose attempts passes amiss. -/
theorem endPointBounded_iff_attempts (hh : 0 < h) (htol : 0 < tolerance) :
    EndPointBounded c f tolerance t y h ↔
      ∀ n < 10, ∀ h', Attempted c f tolerance t y h n h' → ¬ PassesAmiss c f tolerance t y n h' := by
  constructor
  · rintro hall n hn h' hatt ⟨a, d, v, e, hest, hw, hend, hlt⟩
    obtain ⟨y', hu⟩ := estimates_update hest
    obtain ⟨left, hleft⟩ : ∃ left, n + (left + 1) = 10 := ⟨9 - n, by omega⟩
    have hs : ∃ c' h'', step f tolerance c t y h = .returned c' y' h'' ⟨c, n, h'⟩ :=
      ⟨_, _, by rw [step_eq_attemptLoop hatt _ hleft, attemptLoop, tryStep_accept htol hu hest hw]⟩
    obtain ⟨c', h'', hs⟩ := hs
    obtain ⟨-, e', hend', hle⟩ := hall _ _ _ _ hs
    cases hend.symm.trans hend'
    exact absurd hle (not_le.2 hlt)
  · intro hnot c' y' h' g hs
    obtain ⟨-, -, -, hu, -, a, d, v, hest, -, -, -, hw, -⟩ := attemptLoop_returned htol hh hs
    obtain ⟨hatt, hlt⟩ := attemptLoop_attempted .first hs
    obtain ⟨diff, hend⟩ := endEstimate_ok hest
    refine ⟨hu, _, hend, ?_⟩
    by_contra hlarge
    exact hnot _ (by omega) _ hatt ⟨a, d, v, _, hest, hw, hend, not_le.1 hlarge⟩

/-- an attempt whose three estimates vanish is accepted -/
theorem tryStep_of_zero {attempts : ℕ} {y' : Vec ℝ} (htol : 0 < tolerance) (hu : update c f t y h = .ok y')
    (hest : estimates c f t y h = .ok (0, 0, 0)) :
    tryStep c f tolerance t y attempts h = .ok (.accept y' (h * factor tolerance attempts 0 0 0)) :=
  tryStep_accept htol hu hest (by norm_num [worst])

/-! ### Right-hand sides that pass the test

`a` at t, and at the end of the attempt the value whose product with h² is h a. -/

/-- y' = a + b t -/
def affineForce (a b : ℝ) : Rhs ℝ := fun t _ => .ok [a + b * t]

theorem affineForce_update (a b h : ℝ) :
    update c (affineForce a b) 0 [0] h = .ok [(c.p1 + (c.p2 + c.p3)) * (h * a)] := by
  simp only [update, computeKTerms, affineForce, nextValue, multiplyScalarByVector, addVectors, ok_bind, except_pure]
  norm_num
  ring

theorem affineForce_estimates {a b h : ℝ} (hab : h * (a + b * h) = a) :
    estimates c (affineForce a b) 0 [0] h = .ok (0, 0, 0) := by
  have hend : h * (h * (a + b * h)) - h * a = 0 := by rw [hab, sub_self]
  simp only [estimates, computeKTerms, affineForce, nextValue, computeAprime, computeAddoublePrime, computeV,
    multiplyScalarByVector, addVectors, subtractVectors, ok_bind, except_pure, maxOver, read]
  norm_num [norm_singleton, hend]

theorem affineForce_end (a b h : ℝ) :
    endEstimate c (affineForce a b) 0 [0] h = .ok (|1 - 6 * c.g| / 6 * |h * (a + b * h) - h * a|) := by
  simp only [endEstimate, computeKTerms, affineForce, nextValue, multiplyScalarByVector, addVectors, subtractVectors,
    ok_bind, except_pure]
  norm_num [norm_singleton]

/-- y' = (1 - 2t) (a + 9e / (2a²) y (y - a/3)) + 4 a t: a at (0, 0) and (0, a/3), a + e at (0, 2a/3), 2a at time 1/2 -/
noncomputable def bentForce (a e : ℝ) : Rhs ℝ := fun t y => do
  let x ← read y 0
  return [(1 - 2 * t) * (a + 9 * e / (2 * a ^ 2) * (x * (x - a / 3))) + 4 * a * t]

theorem bentForce_at (a e t x : ℝ) : bentForce a e t [x] =
    .ok [(1 - 2 * t) * (a + 9 * e / (2 * a ^ 2) * (x * (x - a / 3))) + 4 * a * t] := rfl

/-- the first attempt with step 1 is rejected by A', and the step is halved -/
theorem bentForce_retry {a e : ℝ} (ha : a ≠ 0) (htol : 0 < tolerance) (he : |1 - 6 * c.g| / 4 * |e| = 4 * tolerance) :
    tryStep c (bentForce a e) tolerance 0 [0] 0 1 = .ok (.retry (1 / 2)) := by
  have hk : ∃ k3, computeKTerms (bentForce a e) 0 [0] 1 = .ok ([a], [a + e], k3) := by
    simp only [computeKTerms, bentForce_at, multiplyScalarByVector, addVectors, ok_bind, except_pure]
    norm_num [bentForce_at]
    field_simp
    ring
  obtain ⟨k3, hk⟩ := hk
  have haPrime : computeAprime c [a] [a + e] = .ok (4 * tolerance) := by
    rw [computeAprime, subtractVectors_of_eq (a := [a + e]) (b := [a]) rfl, ok_bind, except_pure,
      List.zipWith_cons_cons, List.zipWith_nil_left, norm_singleton, add_sub_cancel_left, ← he]
    norm_num
  have hroot : (tolerance / (q ^ (2 * 0) * (4 * tolerance))) ^ ((1 : ℝ) / 2) = 1 / 2 := by
    rw [show tolerance / ((q : ℝ) ^ (2 * 0) * (4 * tolerance)) = (1 / 2) ^ 2 by field_simp; norm_num,
      ← Real.sqrt_eq_rpow, Real.sqrt_sq (by norm_num)]
  have hneg : exponent tolerance (2 * 0) (4 * tolerance) 2 < 0 := by
    rw [exponent_neg_iff _ htol (by linarith) two_pos, mul_zero, pow_zero]
    linarith
  rw [tryStep, hk, ok_bind]
  dsimp only
  rw [haPrime, ok_bind, if_pos hneg, powQ_exponent _ htol (by linarith) two_ne_zero, hroot, WithTop.untopD_coe, one_mul]
  rfl

theorem bentForce_terms (a e : ℝ) :
    computeKTerms (bentForce a e) 0 [0] (1 / 2) = .ok ([a / 2], [a / 2], [a / 2]) := by
  simp only [computeKTerms, bentForce_at, multiplyScalarByVector, addVectors, ok_bind, except_pure]
  norm_num [bentForce_at]
  have h2 : 2 / 3 * (1 / 2 * a) - a / 3 = 0 := by ring
  have h3 : 1 / 3 * (1 / 2 * a) + 1 / 6 * a - a / 3 = 0 := by ring
  have hhalf : 1 / 2 * a = a / 2 := by ring
  rw [h2, mul_zero, mul_zero, add_zero, h3, mul_zero, mul_zero, add_zero]
  exact ⟨hhalf, hhalf, hhalf⟩

/-- the second attempt, with the step 1/2, has no estimate -/
theorem bentForce_second (a e : ℝ) :
    (∃ y', update c (bentForce a e) 0 [0] (1 / 2) = .ok y') ∧
      estimates c (bentForce a e) 0 [0] (1 / 2) = .ok (0, 0, 0) ∧
      endEstimate c (bentForce a e) 0 [0] (1 / 2) = .ok (|1 - 6 * c.g| / 6 * |a / 2|) := by
  refine ⟨?_, ?_, ?_⟩
  · simp only [update, bentForce_terms a e, ok_bind, nextValue, multiplyScalarByVector, addVectors]
    norm_num
  · simp only [estimates, bentForce_terms a e, ok_bind, nextValue, computeAprime, computeAddoublePrime, computeV,
      multiplyScalarByVector, addVectors, subtractVectors, maxOver, read, except_pure]
    norm_num [bentForce_at, norm_singleton]
    ring_nf
    simp
  · simp only [endEstimate, bentForce_terms a e, ok_bind, nextValue, multiplyScalarByVector, addVectors,
      subtractVectors, except_pure]
    norm_num [bentForce_at, norm_singleton]
    left
    ring_nf

theorem step_first {y' : Vec ℝ} {h' : ℝ} (h0 : tryStep c f tolerance t y 0 h = .ok (.accept y' h')) :
    ∃ c', step f tolerance c t y h = .returned c' y' h' ⟨c, 0, h⟩ :=
  ⟨_, by rw [step, attemptLoop, h0]⟩

theorem step_second {y' : Vec ℝ} {h₁ h' : ℝ} (h0 : tryStep c f tolerance t y 0 h = .ok (.retry h₁))
    (h1 : tryStep c f tolerance t y 1 h₁ = .ok (.accept y' h')) :
    ∃ c', step f tolerance c t y h = .returned c' y' h' ⟨c, 1, h₁⟩ :=
  ⟨_, by rw [step, attemptLoop, h0]; dsimp only; rw [attemptLoop, h1]⟩

/-- a step length other than 1 is enough for an affine force to pass -/
theorem affineForce_missed (hg : c.g ≠ 1 / 6) (hh : 0 < h) (hne : h ≠ 1) (htol : 0 < tolerance) :
    ∃ f, ¬ EndPointBounded c f tolerance 0 [0] h := by
  have hgap : 0 < |1 - 6 * c.g| := abs_pos.2 fun h0 => hg (by linarith)
  have hstep : 0 < |1 - h| := abs_pos.2 fun h0 => hne (by linarith)
  let a := 12 * tolerance / (|1 - 6 * c.g| * |1 - h|)
  have ha : 0 < a := by positivity
  let b := (a / h - a) / h
  have hab : h * (a + b * h) = a := by simp only [b]; field_simp; ring
  refine ⟨affineForce a b, fun hall => ?_⟩
  obtain ⟨c', hs⟩ := step_first (tryStep_of_zero htol (affineForce_update a b h) (affineForce_estimates hab))
  obtain ⟨-, d, hd, hle⟩ := hall _ _ _ _ hs
  rw [affineForce_end, hab, Except.ok.injEq] at hd
  have hvalue : |1 - 6 * c.g| / 6 * |a - h * a| = 2 * tolerance := by
    calc |1 - 6 * c.g| / 6 * |a - h * a| = |1 - 6 * c.g| / 6 * (|1 - h| * a) := by
          rw [show a - h * a = (1 - h) * a by ring, abs_mul, abs_of_pos ha]
      _ = 2 * tolerance := by
          simp only [a]
          field_simp
          norm_num
  linarith

/-- from the step 1 a retry leads to the step 1/2 -/
theorem bentForce_missed (hg : c.g ≠ 1 / 6) (htol : 0 < tolerance) : ∃ f, ¬ EndPointBounded c f tolerance 0 [0] 1 := by
  have hgap : 0 < |1 - 6 * c.g| := abs_pos.2 fun h0 => hg (by linarith)
  let a := 24 * tolerance / |1 - 6 * c.g|
  let e := 16 * tolerance / |1 - 6 * c.g|
  have ha : 0 < a := by positivity
  have he : 0 < e := by positivity
  have hreject : |1 - 6 * c.g| / 4 * |e| = 4 * tolerance := by
    rw [abs_of_pos he]
    simp only [e]
    field_simp
    norm_num
  refine ⟨bentForce a e, fun hall => ?_⟩
  obtain ⟨⟨y', hu⟩, hest, hend⟩ := bentForce_second (c := c) a e
  obtain ⟨c', hs⟩ := step_second (bentForce_retry ha.ne' htol hreject) (tryStep_of_zero htol hu hest)
  obtain ⟨-, d, hd, hle⟩ := hall _ _ _ _ hs
  rw [hend, Except.ok.injEq] at hd
  have hvalue : |1 - 6 * c.g| / 6 * |a / 2| = 2 * tolerance := by
    calc |1 - 6 * c.g| / 6 * |a / 2| = |1 - 6 * c.g| / 6 * (a / 2) := by rw [abs_of_pos (half_pos ha)]
      _ = 2 * tolerance := by
          simp only [a]
          field_simp
          norm_num
  linarith

/-- **End-point test of DISPD.** For each input the estimate of the accepted attempt is within the tolerance exactly
when no attempt passes amiss. The schemes that exclude this for every right-hand side are those with g = 1/6, where the
estimate is always 0. -/
theorem endPointBounded_iff (hh : 0 < h) (htol : 0 < tolerance) :
    (∀ f t y, EndPointBounded c f tolerance t y h ↔
      ∀ n < 10, ∀ h', Attempted c f tolerance t y h n h' → ¬ PassesAmiss c f tolerance t y n h') ∧
    ((∀ f t y, EndPointBounded c f tolerance t y h) ↔ c.g = 1 / 6) := by
  refine ⟨fun f t y => endPointBounded_iff_attempts hh htol, fun hall => ?_, fun hg f t y => ?_⟩
  · by_contra hg
    rcases eq_or_ne h 1 with rfl | hne
    · obtain ⟨f, hf⟩ := bentForce_missed hg htol
      exact hf (hall f 0 [0])
    · obtain ⟨f, hf⟩ := affineForce_missed hg hh hne htol
      exact hf (hall f 0 [0])
  · rw [endPointBounded_iff_attempts hh htol]
    rintro n - h' - ⟨a, d, v, e, hest, -, hend, hlt⟩
    cases (endEstimate_zero hg hest).symm.trans hend
    exact absurd htol (not_lt.2 hlt.le)

/-- scheme B -/
theorem endPointBounded_iff_schemeB :
    ¬ ∀ f t y, EndPointBounded (switchScheme ⟨0, 0, 0, 0⟩ true) f 1 t y 1 := fun hall => by
  have hg := (endPointBounded_iff one_pos one_pos).2.1 hall
  norm_num [switchScheme] at hg

/-- **Scaled twice.** Scheme B on y' = 24 + 48t from (0, 0) with the step 1/2 and the tolerance 1: the code measures 0,
and the end-point estimate is 2. -/
theorem affineForce_scaled_twice :
    (∃ c' y' h' g, step (affineForce 24 48) 1 (switchScheme ⟨0, 0, 0, 0⟩ true) 0 [0] (1 / 2) = .returned c' y' h' g) ∧
      ¬ EndPointBounded (switchScheme ⟨0, 0, 0, 0⟩ true) (affineForce 24 48) 1 0 [0] (1 / 2) := by
  obtain ⟨c', hs⟩ := step_first (tryStep_of_zero (c := switchScheme ⟨0, 0, 0, 0⟩ true) one_pos
    (affineForce_update 24 48 (1 / 2)) (affineForce_estimates (by norm_num)))
  refine ⟨⟨_, _, _, _, hs⟩, fun hall => ?_⟩
  obtain ⟨-, d, hd, hle⟩ := hall _ _ _ _ hs
  rw [affineForce_end, Except.ok.injEq] at hd
  norm_num [switchScheme] at hd
  linarith

end Dispd

end OdeClientServer.Acceptance
