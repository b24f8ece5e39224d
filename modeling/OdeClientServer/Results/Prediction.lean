/-
The step that `DISPDSolver::Step` predicts after a rejection, on a linear system y' = A y.

A' grows with the square of h there, so the predicted step h * q^(s_n) brings A' exactly to the tolerance. The threshold
of the next attempt is the tolerance over q^2.

- `rejected_again`: from the second attempt on, each is rejected by A' with the exponent -1.
- `prediction_accepted_iff`: the prediction is never good enough for the next test.
- `step_gives_up`: a first rejection uses up all ten attempts.
-/
import OdeClientServer.Solvers.Tableaux

namespace OdeClientServer.Prediction

open DISPDSolver

variable {n : ℕ} {A : Matrix (Fin n) (Fin n) ℝ} {c : SchemeParams ℝ} {f : Rhs ℝ} {tolerance t h : ℝ} {u : Fin n → ℝ}
  {attempts : ℕ}

/-- A' of the attempt from (t, y) with step h -/
noncomputable def aPrime (c : SchemeParams ℝ) (f : Rhs ℝ) (t : ℝ) (y : Vec ℝ) (h : ℝ) : Except Exn ℝ := do
  let (k1, k2, _) ← computeKTerms f t y h
  computeAprime c k1 k2

/-- s_n < 0: the attempt is rejected because A' is above its threshold -/
def RejectedByAprime (c : SchemeParams ℝ) (f : Rhs ℝ) (tolerance t : ℝ) (y : Vec ℝ) (attempts : ℕ) (h : ℝ) : Prop :=
  ∃ a, aPrime c f t y h = .ok a ∧ exponent tolerance (2 * attempts) a 2 < 0

/-- A' of a linear system for the step 1 -/
noncomputable def curvature (c : SchemeParams ℝ) (A : Matrix (Fin n) (Fin n) ℝ) (u : Fin n → ℝ) : ℝ :=
  |1 - 6 * c.g| / 6 * norm (List.ofFn (A.mulVec (A.mulVec u)))

theorem curvature_nonneg : 0 ≤ curvature c A u := mul_nonneg (by positivity) (norm_nonneg' _)

theorem norm_ofFn_smul (s : ℝ) (v : Fin n → ℝ) : norm (List.ofFn (s • v)) = |s| * norm (List.ofFn v) := by
  have hsum : ∑ i, (s • v) i * (s • v) i = s ^ 2 * ∑ i, v i * v i := by
    rw [Finset.mul_sum]
    refine Finset.sum_congr rfl fun i _ => ?_
    rw [Pi.smul_apply, smul_eq_mul]
    ring
  calc norm (List.ofFn (s • v)) = √(s ^ 2 * ∑ i, v i * v i) := by rw [norm_ofFn, hsum]
    _ = |s| * √(∑ i, v i * v i) := by rw [Real.sqrt_mul (sq_nonneg s), Real.sqrt_sq_eq_abs]
    _ = |s| * norm (List.ofFn v) := by rw [norm_ofFn]

/-- the three stages on a linear system -/
theorem computeKTerms_linear (hf : Computes (fun _ v => A.mulVec v) f) (t h : ℝ) (u : Fin n → ℝ) :
    ∃ k3, computeKTerms f t (List.ofFn u) h =
      .ok (List.ofFn (h • A.mulVec u), List.ofFn (h • A.mulVec (u + (2.0 / 3.0 : ℝ) • h • A.mulVec u)), k3) := by
  simp only [computeKTerms, hf t, ok_bind, multiplyScalarByVector_ofFn, addVectors_ofFn, except_pure]
  exact ⟨_, rfl⟩

/-- A' of a linear system is quadratic in h -/
theorem aPrime_linear (hf : Computes (fun _ v => A.mulVec v) f) (t h : ℝ) (u : Fin n → ℝ) :
    aPrime c f t (List.ofFn u) h = .ok (curvature c A u * h ^ 2) := by
  obtain ⟨k3, hk⟩ := computeKTerms_linear hf t h u
  have hdiff : h • A.mulVec (u + (2.0 / 3.0 : ℝ) • h • A.mulVec u) - h • A.mulVec u =
      (2 / 3 * h ^ 2) • A.mulVec (A.mulVec u) := by
    rw [Matrix.mulVec_add, Matrix.mulVec_smul, Matrix.mulVec_smul, smul_add, add_sub_cancel_left, smul_smul, smul_smul]
    congr 1
    norm_num
    ring
  rw [aPrime, hk, ok_bind]
  simp only [computeAprime, subtractVectors_ofFn, ok_bind, except_pure, hdiff, norm_ofFn_smul, curvature]
  rw [abs_of_nonneg (show 0 ≤ 2 / 3 * h ^ 2 by positivity)]
  congr 1
  norm_num
  ring

/-- the attempt is rejected by A' when the estimate is above its threshold -/
theorem rejectedByAprime_iff (hf : Computes (fun _ v => A.mulVec v) f) (htol : 0 < tolerance) :
    RejectedByAprime c f tolerance t (List.ofFn u) attempts h ↔
      tolerance < q ^ (2 * attempts) * (curvature c A u * h ^ 2) := by
  have ha0 : 0 ≤ curvature c A u * h ^ 2 := mul_nonneg curvature_nonneg (sq_nonneg h)
  constructor
  · rintro ⟨a, ha, hneg⟩
    cases (aPrime_linear hf t h u).symm.trans ha
    exact (exponent_neg_iff _ htol ha0 two_pos).1 hneg
  · intro hlt
    exact ⟨_, aPrime_linear hf t h u, (exponent_neg_iff _ htol ha0 two_pos).2 hlt⟩

/-- the step that is predicted after a rejection by A' -/
noncomputable def predicted (c : SchemeParams ℝ) (A : Matrix (Fin n) (Fin n) ℝ) (u : Fin n → ℝ) (tolerance : ℝ)
    (attempts : ℕ) (h : ℝ) : ℝ :=
  h * √(tolerance / (q ^ (2 * attempts) * (curvature c A u * h ^ 2)))

theorem tryStep_rejected (hf : Computes (fun _ v => A.mulVec v) f) (htol : 0 < tolerance)
    (hrej : tolerance < q ^ (2 * attempts) * (curvature c A u * h ^ 2)) :
    tryStep c f tolerance t (List.ofFn u) attempts h = .ok (.retry (predicted c A u tolerance attempts h)) := by
  obtain ⟨k3, hk⟩ := computeKTerms_linear hf t h u
  have ha := aPrime_linear (c := c) hf t h u
  have hpos : 0 < curvature c A u * h ^ 2 := (mul_pos_iff_of_pos_left (pow_q_pos _)).1 (htol.trans hrej)
  have hneg := (exponent_neg_iff (2 * attempts) htol hpos.le two_pos).2 hrej
  rw [aPrime, hk, ok_bind] at ha
  rw [tryStep, hk, ok_bind]
  dsimp only at ha ⊢
  rw [ha, ok_bind, if_pos hneg, powQ_exponent _ htol hpos two_ne_zero, WithTop.untopD_coe, predicted, Real.sqrt_eq_rpow]
  rfl

/-- **Prediction.** The predicted step brings A' to the threshold of the rejected attempt. -/
theorem curvature_predicted (htol : 0 < tolerance) (hh : 0 < h)
    (hrej : tolerance < q ^ (2 * attempts) * (curvature c A u * h ^ 2)) :
    0 < predicted c A u tolerance attempts h ∧
      q ^ (2 * attempts) * (curvature c A u * predicted c A u tolerance attempts h ^ 2) = tolerance := by
  have hden : 0 < q ^ (2 * attempts) * (curvature c A u * h ^ 2) := htol.trans hrej
  have hratio : 0 < tolerance / (q ^ (2 * attempts) * (curvature c A u * h ^ 2)) := div_pos htol hden
  refine ⟨mul_pos hh (Real.sqrt_pos.2 hratio), ?_⟩
  rw [predicted, mul_pow, Real.sq_sqrt hratio.le]
  calc q ^ (2 * attempts) * (curvature c A u *
        (h ^ 2 * (tolerance / (q ^ (2 * attempts) * (curvature c A u * h ^ 2)))))
      = q ^ (2 * attempts) * (curvature c A u * h ^ 2) *
          (tolerance / (q ^ (2 * attempts) * (curvature c A u * h ^ 2))) := by ring
    _ = tolerance := mul_div_cancel₀ _ hden.ne'

/-- the next threshold is smaller by q^2, so the predicted step is rejected -/
theorem rejected_again (htol : 0 < tolerance) (hh : 0 < h)
    (hrej : tolerance < q ^ (2 * attempts) * (curvature c A u * h ^ 2)) :
    tolerance < q ^ (2 * (attempts + 1)) * (curvature c A u * predicted c A u tolerance attempts h ^ 2) := by
  obtain ⟨-, heq⟩ := curvature_predicted htol hh hrej
  have hq : (1 : ℝ) < q ^ 2 := by norm_num [q]
  calc tolerance < q ^ 2 * tolerance := lt_mul_of_one_lt_left htol hq
    _ = q ^ 2 * (q ^ (2 * attempts) * (curvature c A u * predicted c A u tolerance attempts h ^ 2)) := by rw [heq]
    _ = q ^ (2 * (attempts + 1)) * (curvature c A u * predicted c A u tolerance attempts h ^ 2) := by ring

/-- **All attempts rejected.** From a rejected attempt on the loop rejects every attempt that is left. -/
theorem attemptLoop_gives_up (hf : Computes (fun _ v => A.mulVec v) f) (htol : 0 < tolerance) (left : ℕ) (hh : 0 < h)
    (hrej : tolerance < q ^ (2 * attempts) * (curvature c A u * h ^ 2)) :
    ∃ h', attemptLoop c f tolerance t (List.ofFn u) left attempts h =
      .threw (.runtimeError "Step adaptation failed") c (List.ofFn u) h' := by
  induction left generalizing attempts h with
  | zero => exact ⟨h, rfl⟩
  | succ left ih =>
    rw [attemptLoop, tryStep_rejected hf htol hrej]
    exact ih (curvature_predicted htol hh hrej).1 (rejected_again htol hh hrej)

/-- a linear step whose first attempt is rejected by A' throws after ten attempts -/
theorem step_gives_up (hf : Computes (fun _ v => A.mulVec v) f) (htol : 0 < tolerance) (hh : 0 < h)
    (hrej : RejectedByAprime c f tolerance t (List.ofFn u) 0 h) :
    ∃ h', step f tolerance c t (List.ofFn u) h =
      .threw (.runtimeError "Step adaptation failed") c (List.ofFn u) h' :=
  attemptLoop_gives_up hf htol 10 hh ((rejectedByAprime_iff hf htol).1 hrej)

/-- a first attempt that A' rejects is followed by one that A' does not reject -/
def PredictionAccepted (c : SchemeParams ℝ) (f : Rhs ℝ) (tolerance t : ℝ) (y : Vec ℝ) (h : ℝ) : Prop :=
  RejectedByAprime c f tolerance t y 0 h →
    ∃ h₁, tryStep c f tolerance t y 0 h = .ok (.retry h₁) ∧ ¬ RejectedByAprime c f tolerance t y 1 h₁

theorem not_accepted_of_rejected (hf : Computes (fun _ v => A.mulVec v) f) (htol : 0 < tolerance) (hh : 0 < h)
    (hrej : tolerance < curvature c A u * h ^ 2) : ¬ PredictionAccepted c f tolerance t (List.ofFn u) h := by
  intro hacc
  have h0 : tolerance < q ^ (2 * 0) * (curvature c A u * h ^ 2) := by rwa [mul_zero, pow_zero, one_mul]
  obtain ⟨h₁, hstep, hnot⟩ := hacc ((rejectedByAprime_iff hf htol).2 h0)
  rw [tryStep_rejected hf htol h0] at hstep
  cases hstep
  exact hnot ((rejectedByAprime_iff hf htol).2 (rejected_again htol hh h0))

/-- **Predicted step of DISPD.** On a linear system the second attempt passes A' after a rejection exactly when there is
no rejection: when `|1 - 6g| / 6 * h^2 * ||A A y||` is within the tolerance. -/
theorem prediction_accepted_iff (hf : Computes (fun _ v => A.mulVec v) f) (htol : 0 < tolerance) (hh : 0 < h) :
    PredictionAccepted c f tolerance t (List.ofFn u) h ↔
      |1 - 6 * c.g| / 6 * norm (List.ofFn (A.mulVec (A.mulVec u))) * h ^ 2 ≤ tolerance := by
  constructor
  · intro hacc
    by_contra hrej
    exact not_accepted_of_rejected hf htol hh (not_le.1 hrej) hacc
  · intro hle hrej
    rw [rejectedByAprime_iff hf htol, mul_zero, pow_zero, one_mul] at hrej
    exact absurd hle (not_le.2 hrej)

/-- y' = y -/
def growth : ℝ → (Fin 1 → ℝ) → Fin 1 → ℝ := fun _ y => (1 : Matrix (Fin 1) (Fin 1) ℝ).mulVec y

theorem growth_computes : Computes (fun _ v => (1 : Matrix (Fin 1) (Fin 1) ℝ).mulVec v) (ofField growth) :=
  fun t u => ofField_ofFn growth t u

theorem growth_curvature :
    curvature (switchScheme ⟨0, 0, 0, 0⟩ false) (1 : Matrix (Fin 1) (Fin 1) ℝ) ![1] = 1 / 60 := by
  rw [curvature, Matrix.one_mulVec, Matrix.one_mulVec, List.ofFn_succ, List.ofFn_zero, norm_singleton]
  norm_num [switchScheme, abs_of_pos]

/-- **Rejected again.** Scheme A on y' = y from 1 with the step 1 and the tolerance 0.01. -/
theorem growth_rejected_again :
    RejectedByAprime (switchScheme ⟨0, 0, 0, 0⟩ false) (ofField growth) 0.01 0 (List.ofFn ![1]) 0 1 ∧
      ¬ PredictionAccepted (switchScheme ⟨0, 0, 0, 0⟩ false) (ofField growth) 0.01 0 (List.ofFn ![1]) 1 := by
  refine ⟨(rejectedByAprime_iff growth_computes (by norm_num)).2 ?_,
    not_accepted_of_rejected growth_computes (by norm_num) one_pos ?_⟩
  · rw [growth_curvature]
    norm_num
  · rw [growth_curvature]
    norm_num

/-- the same attempt with the tolerance 1 is not rejected -/
theorem prediction_accepted_iff_growth :
    PredictionAccepted (switchScheme ⟨0, 0, 0, 0⟩ false) (ofField growth) 1 0 (List.ofFn ![1]) 1 := by
  refine (prediction_accepted_iff growth_computes one_pos one_pos).2 ?_
  have hc := growth_curvature
  rw [curvature] at hc
  rw [hc]
  norm_num

end OdeClientServer.Prediction
