/-
Convergence of one-step methods. A trajectory starts on an exact solution x of x' = F(t, x) and goes on by steps of
explicit Runge-Kutta tableaux, each with a step length and a tableau of its own.

- `Regular`: on a ball the field is bounded, and Lipschitz in time and state. A continuously differentiable field is
  regular on every ball (`exists_regular`).
- `step_error`: one step adds to the error at most h (K e + B h + M δ), where δ is the defect of the sum of the weights.
- `Trajectory.error`: along a trajectory the error stays below the Grönwall bound, as long as that keeps it in the ball.
- `convergence`: the error is at most C (H + δ) for steps up to H, with one C for all trajectories.
-/
import OdeClientServer.Core.RungeKutta
import Mathlib.Analysis.ODE.Gronwall
import Mathlib.Analysis.Normed.Module.FiniteDimension
import Mathlib.Analysis.Calculus.ContDiff.RCLike
import Mathlib.Analysis.Calculus.MeanValue

namespace OdeClientServer.OneStep

open Finset RungeKutta
open Set (Icc Icc_subset_Icc left_mem_Icc right_mem_Icc)

variable {V : Type*} [NormedAddCommGroup V] [NormedSpace ℝ V] {F : ℝ → V → V} {x : ℝ → V} {a b R K M : ℝ}

/-! ## Fields and solutions -/

/-- on times in [a, b] and states up to R the field is bounded by M and Lipschitz with constant K -/
structure Regular (F : ℝ → V → V) (a b R K M : ℝ) : Prop where
  pos : 0 < K ∧ 0 ≤ M
  lipschitz : ∀ t ∈ Icc a b, ∀ s ∈ Icc a b, ∀ u v, ‖u‖ ≤ R → ‖v‖ ≤ R → ‖F t u - F s v‖ ≤ K * (|t - s| + ‖u - v‖)
  bounded : ∀ t ∈ Icc a b, ∀ u, ‖u‖ ≤ R → ‖F t u‖ ≤ M

/-- x solves x' = F(t, x) on [a, b] -/
def Solves (F : ℝ → V → V) (a b : ℝ) (x : ℝ → V) : Prop :=
  ∀ t ∈ Icc a b, HasDerivWithinAt x (F t (x t)) (Icc a b) t

/-- a continuously differentiable field is regular on every ball -/
theorem exists_regular [FiniteDimensional ℝ V] (hF : ContDiff ℝ 1 (Function.uncurry F)) (a b R : ℝ) :
    ∃ K M, Regular F a b R K M := by
  have hproper : ProperSpace V := FiniteDimensional.proper_real V
  let S : Set (ℝ × V) := Icc a b ×ˢ Metric.closedBall 0 R
  have hS : IsCompact S := isCompact_Icc.prod (isCompact_closedBall 0 R)
  have hmem : ∀ t ∈ Icc a b, ∀ u : V, ‖u‖ ≤ R → (t, u) ∈ S := fun t ht u hu => ⟨ht, mem_closedBall_zero_iff.2 hu⟩
  obtain ⟨K, hK⟩ := LocallyLipschitzOn.exists_lipschitzOnWith_of_compact hS (hF.locallyLipschitz.locallyLipschitzOn)
  obtain ⟨M, hM⟩ := hS.exists_bound_of_continuousOn hF.continuous.continuousOn
  refine ⟨K + 1, max M 0, ⟨by positivity, le_max_right _ _⟩, fun t ht s hs u v hu hv => ?_, fun t ht u hu => ?_⟩
  · have hdist := hK.dist_le_mul (t, u) (hmem t ht u hu) (s, v) (hmem s hs v hv)
    rw [dist_eq_norm, Prod.dist_eq, Real.dist_eq, dist_eq_norm] at hdist
    refine hdist.trans ?_
    have hmax : max |t - s| ‖u - v‖ ≤ |t - s| + ‖u - v‖ :=
      max_le (le_add_of_nonneg_right (norm_nonneg _)) (le_add_of_nonneg_left (abs_nonneg _))
    exact mul_le_mul (le_add_of_nonneg_right zero_le_one) hmax (le_max_of_le_left (abs_nonneg _)) (by positivity)
  · exact (hM (t, u) (hmem t ht u hu)).trans (le_max_left _ _)

/-- a solution is bounded -/
theorem Solves.bounded (hx : Solves F a b x) : ∃ r, ∀ t ∈ Icc a b, ‖x t‖ ≤ r :=
  isCompact_Icc.exists_bound_of_continuousOn fun t ht => (hx t ht).continuousWithinAt

section Solution

variable (hF : Regular F a b R K M) (hx : Solves F a b x) (hR : ∀ t ∈ Icc a b, ‖x t‖ ≤ R)

include hF hx hR

/-- a solution moves with speed at most M -/
theorem solution_near {t s : ℝ} (ht : a ≤ t) (hts : t ≤ s) (hs : s ≤ b) : ‖x s - x t‖ ≤ M * (s - t) := by
  have hsub : Icc t s ⊆ Icc a b := Icc_subset_Icc ht hs
  have hderiv : ∀ r ∈ Icc t s, HasDerivWithinAt x (F r (x r)) (Icc t s) r := fun r hr => (hx r (hsub hr)).mono hsub
  have hspeed : ∀ r ∈ Icc t s, ‖F r (x r)‖ ≤ M := fun r hr => hF.bounded r (hsub hr) _ (hR r (hsub hr))
  have hmean := (convex_Icc t s).norm_image_sub_le_of_norm_hasDerivWithin_le hderiv hspeed (left_mem_Icc.2 hts)
    (right_mem_Icc.2 hts)
  rwa [Real.norm_eq_abs, abs_of_nonneg (sub_nonneg.2 hts)] at hmean

/-- over a step a solution leaves its tangent by a second-order term only -/
theorem solution_tangent {t h : ℝ} (ht : a ≤ t) (hh : 0 ≤ h) (hb : t + h ≤ b) :
    ‖x (t + h) - x t - h • F t (x t)‖ ≤ K * (1 + M) * h * h := by
  have hth : t ≤ t + h := le_add_of_nonneg_right hh
  have hsub : Icc t (t + h) ⊆ Icc a b := Icc_subset_Icc ht hb
  have htmem : t ∈ Icc a b := hsub (left_mem_Icc.2 hth)
  have hderiv : ∀ r ∈ Icc t (t + h),
      HasDerivWithinAt (fun r => x r - r • F t (x t)) (F r (x r) - F t (x t)) (Icc t (t + h)) r := fun r hr =>
    ((hx r (hsub hr)).mono hsub).sub (by simpa using (hasDerivWithinAt_id r _).smul_const (F t (x t)))
  have hbound : ∀ r ∈ Icc t (t + h), ‖F r (x r) - F t (x t)‖ ≤ K * (1 + M) * h := by
    intro r hr
    have hrh : r - t ≤ h := by linarith [hr.2]
    have hnear := solution_near hF hx hR ht hr.1 (hr.2.trans hb)
    have hM : M * (r - t) ≤ M * h := mul_le_mul_of_nonneg_left hrh hF.pos.2
    calc ‖F r (x r) - F t (x t)‖ ≤ K * (|r - t| + ‖x r - x t‖) :=
          hF.lipschitz r (hsub hr) t htmem _ _ (hR r (hsub hr)) (hR t htmem)
      _ ≤ K * (h + M * h) := by
          refine mul_le_mul_of_nonneg_left (add_le_add ?_ (hnear.trans hM)) hF.pos.1.le
          rwa [abs_of_nonneg (sub_nonneg.2 hr.1)]
      _ = K * (1 + M) * h := by ring
  have hmean := (convex_Icc t (t + h)).norm_image_sub_le_of_norm_hasDerivWithin_le hderiv hbound
    (left_mem_Icc.2 hth) (right_mem_Icc.2 hth)
  have hrw : x (t + h) - (t + h) • F t (x t) - (x t - t • F t (x t)) = x (t + h) - x t - h • F t (x t) := by
    rw [add_smul]; abel
  rwa [hrw, Real.norm_eq_abs, add_sub_cancel_left, abs_of_nonneg hh] at hmean

end Solution

/-! ## One step -/

/-- an explicit tableau with stage times within the step, stage coefficients up to A and weights up to P in sum -/
structure Within {s : ℕ} (T : Tableau s) (A P : ℝ) : Prop where
  explicit : T.Explicit
  times : ∀ i, 0 ≤ T.c i ∧ T.c i ≤ 1
  stages : ∀ i, ∑ j, |T.a i j| ≤ A
  weights : ∑ i, |T.p i| ≤ P

section Step

variable {s : ℕ} {T : Tableau s} {A P t h : ℝ} {u : V} {k : Fin s → V}

/-- the stages of a step are at times within the interval -/
theorem stage_time (hT : Within T A P) (ht : a ≤ t) (hh : 0 ≤ h) (hb : t + h ≤ b) (i : Fin s) :
    t + T.c i * h ∈ Icc a b := by
  have hc : T.c i * h ≤ h := mul_le_of_le_one_left hh (hT.times i).2
  have hc0 : 0 ≤ T.c i * h := mul_nonneg (hT.times i).1 hh
  exact ⟨by linarith, by linarith⟩

/-- from inside the ball the stages of a step are bounded by h M, and their points stay in the ball -/
theorem stages_bounded (hF : Regular F a b R K M) (hT : Within T A P) (ht : a ≤ t) (hh : 0 ≤ h) (hb : t + h ≤ b)
    (hu : ‖u‖ + A * (h * M) ≤ R) (hk : ∀ i, k i = h • F (t + T.c i * h) (u + ∑ j, T.a i j • k j)) (i : Fin s) :
    ‖∑ j, T.a i j • k j‖ ≤ A * (h * M) ∧ ‖k i‖ ≤ h * M := by
  have hhM : 0 ≤ h * M := mul_nonneg hh hF.pos.2
  -- a stage uses the stages before it only
  induction i using WellFoundedLT.induction with
  | ind i ih =>
    have hsum : ‖∑ j, T.a i j • k j‖ ≤ A * (h * M) := by
      refine (norm_sum_smul_le fun j => ?_).trans (mul_le_mul_of_nonneg_right (hT.stages i) hhM)
      rcases le_or_gt i j with hij | hij
      · exact Or.inl (hT.explicit i j hij)
      · exact Or.inr (ih j hij).2
    refine ⟨hsum, ?_⟩
    rw [hk i, norm_smul, Real.norm_eq_abs, abs_of_nonneg hh]
    exact mul_le_mul_of_nonneg_left
      (hF.bounded _ (stage_time hT ht hh hb i) _ ((norm_add_le _ _).trans ((add_le_add_right hsum _).trans hu))) hh

/-- a step moves along its weighted first slope, up to a second-order term -/
theorem step_tangent (hF : Regular F a b R K M) (hT : Within T A P) (ht : a ≤ t) (hh : 0 ≤ h) (hb : t + h ≤ b)
    (hA : 0 ≤ A) (hu : ‖u‖ + A * (h * M) ≤ R) {u' : V} (hs : T.IsStep F t u h u') :
    ‖u' - u - (h * ∑ i, T.p i) • F t u‖ ≤ P * (K * (1 + A * M) * h * h) := by
  obtain ⟨k, hk, rfl⟩ := hs
  have hstage : ∀ i, ‖k i - h • F t u‖ ≤ K * (1 + A * M) * h * h := by
    intro i
    have hsum := (stages_bounded hF hT ht hh hb hu hk i).1
    have hc : |T.c i * h| ≤ h := by
      rw [abs_of_nonneg (mul_nonneg (hT.times i).1 hh)]
      exact mul_le_of_le_one_left hh (hT.times i).2
    have hpoint : ‖u + ∑ j, T.a i j • k j‖ ≤ R := (norm_add_le _ _).trans ((add_le_add_right hsum _).trans hu)
    have huR : ‖u‖ ≤ R := (le_add_of_nonneg_right (mul_nonneg hA (mul_nonneg hh hF.pos.2))).trans hu
    have hslope : ‖F (t + T.c i * h) (u + ∑ j, T.a i j • k j) - F t u‖ ≤ K * (h + A * (h * M)) := by
      refine (hF.lipschitz _ (stage_time hT ht hh hb i) t ⟨ht, by linarith⟩ _ _ hpoint huR).trans ?_
      rw [add_sub_cancel_left, add_sub_cancel_left]
      exact mul_le_mul_of_nonneg_left (add_le_add hc hsum) hF.pos.1.le
    rw [hk i, ← smul_sub, norm_smul, Real.norm_eq_abs, abs_of_nonneg hh]
    calc h * ‖F (t + T.c i * h) (u + ∑ j, T.a i j • k j) - F t u‖ ≤ h * (K * (h + A * (h * M))) :=
          mul_le_mul_of_nonneg_left hslope hh
      _ = K * (1 + A * M) * h * h := by ring
  have hrw : u + ∑ i, T.p i • k i - u - (h * ∑ i, T.p i) • F t u = ∑ i, T.p i • (k i - h • F t u) := by
    simp only [smul_sub, sum_sub_distrib, add_sub_cancel_left, smul_smul, mul_comm _ h, mul_sum, sum_smul]
  rw [hrw]
  refine (norm_sum_smul_le fun i => Or.inr (hstage i)).trans (mul_le_mul_of_nonneg_right hT.weights ?_)
  obtain ⟨hK, hM⟩ := hF.pos
  positivity

/-- **Error of one step.** A step from u near the solution keeps the error up to the factor 1 + K h, and adds a
second-order term and the defect of the weights. -/
theorem step_error (hF : Regular F a b R K M) (hT : Within T A P) (ht : a ≤ t) (hh : 0 ≤ h) (hb : t + h ≤ b)
    (hA : 0 ≤ A) (hx : Solves F a b x) (hR : ∀ t ∈ Icc a b, ‖x t‖ ≤ R) (hu : ‖u‖ + A * (h * M) ≤ R) {δ : ℝ}
    (hδ : |∑ i, T.p i - 1| ≤ δ) {u' : V} (hs : T.IsStep F t u h u') :
    ‖u' - x (t + h)‖ ≤ (1 + K * h) * ‖u - x t‖ + h * ((P * (K * (1 + A * M)) + K * (1 + M)) * h + M * δ) := by
  have htmem : t ∈ Icc a b := ⟨ht, by linarith⟩
  have huR : ‖u‖ ≤ R := (le_add_of_nonneg_right (mul_nonneg hA (mul_nonneg hh hF.pos.2))).trans hu
  have hstep := step_tangent hF hT ht hh hb hA hu hs
  have hexact := solution_tangent hF hx hR ht hh hb
  have hweights : ‖(h * (∑ i, T.p i - 1)) • F t u‖ ≤ h * (M * δ) := by
    rw [norm_smul, Real.norm_eq_abs, abs_mul, abs_of_nonneg hh, mul_assoc, mul_comm M]
    exact mul_le_mul_of_nonneg_left (mul_le_mul hδ (hF.bounded t htmem u huR) (norm_nonneg _)
      ((abs_nonneg _).trans hδ)) hh
  have hslope : ‖h • (F t u - F t (x t))‖ ≤ h * (K * ‖u - x t‖) := by
    rw [norm_smul, Real.norm_eq_abs, abs_of_nonneg hh]
    have hlip := hF.lipschitz t htmem t htmem u (x t) huR (hR t htmem)
    rw [sub_self, abs_zero, zero_add] at hlip
    exact mul_le_mul_of_nonneg_left hlip hh
  -- the error of the step: the old error, the slopes, the weights, and what the two tangents leave
  have hsplit : u' - x (t + h) = (u' - u - (h * ∑ i, T.p i) • F t u) + (h * (∑ i, T.p i - 1)) • F t u +
      h • (F t u - F t (x t)) + (u - x t) - (x (t + h) - x t - h • F t (x t)) := by
    rw [mul_sub, sub_smul, smul_sub, mul_one]; abel
  calc ‖u' - x (t + h)‖
      ≤ P * (K * (1 + A * M) * h * h) + h * (M * δ) + h * (K * ‖u - x t‖) + ‖u - x t‖ + K * (1 + M) * h * h := by
        rw [hsplit]
        exact (norm_sub_le _ _).trans (add_le_add ((norm_add₄_le).trans
          (add_le_add (add_le_add (add_le_add hstep hweights) hslope) le_rfl)) hexact)
    _ = (1 + K * h) * ‖u - x t‖ + h * ((P * (K * (1 + A * M)) + K * (1 + M)) * h + M * δ) := by ring

end Step

/-! ## Trajectories -/

/-- the states that steps of tableaux reach from (a, v): each step is at most H long and ends in [a, b], and the sum of
its weights is 1 up to δ -/
inductive Trajectory (F : ℝ → V → V) (A P δ H a b : ℝ) (v : V) : ℝ → V → Prop
  | start : Trajectory F A P δ H a b v a v
  | step {t t' : ℝ} {u u' : V} {s : ℕ} {T : Tableau s} : Trajectory F A P δ H a b v t u → t ≤ t' → t' ≤ b →
      t' - t ≤ H → Within T A P → |∑ i, T.p i - 1| ≤ δ → T.IsStep F t u (t' - t) u' →
      Trajectory F A P δ H a b v t' u'

theorem Trajectory.le {A P δ H : ℝ} {v u : V} {t : ℝ} (h : Trajectory F A P δ H a b v t u) : a ≤ t := by
  induction h with
  | start => exact le_rfl
  | step _ hle _ _ _ _ _ ih => exact ih.trans hle

/-- the Grönwall bound grows at least as fast as the error of a step -/
theorem gronwallBound_step (hK : K ≠ 0) (ε r h : ℝ) (hε : 0 ≤ ε) (hK0 : 0 ≤ K) :
    (1 + K * h) * gronwallBound 0 K ε r + h * ε ≤ gronwallBound 0 K ε (r + h) := by
  simp only [gronwallBound_of_K_ne_0 hK, zero_mul, zero_add]
  have hexp := Real.add_one_le_exp (K * h)
  have hgap : 0 ≤ ε / K * (Real.exp (K * r) * (Real.exp (K * h) - (1 + K * h))) :=
    mul_nonneg (div_nonneg hε hK0) (mul_nonneg (Real.exp_pos _).le (by linarith))
  rw [mul_add K, Real.exp_add]
  have hKε : ε / K * K = ε := div_mul_cancel₀ ε hK
  linear_combination hgap - h * hKε

/-- the bound is linear in the error of the steps -/
theorem gronwallBound_eq_mul (hK : K ≠ 0) (ε r : ℝ) : gronwallBound 0 K ε r = ε * gronwallBound 0 K 1 r := by
  simp only [gronwallBound_of_K_ne_0 hK, zero_mul, zero_add]
  ring

section Error

variable {A P δ H ε r : ℝ}

/-- **Error of a trajectory.** While the Grönwall bound of the errors of the steps keeps the trajectory in the ball, the
error stays below it. -/
theorem Trajectory.error (hF : Regular F a b R K M) (hx : Solves F a b x) (hA : 0 ≤ A) (hP : 0 ≤ P) (hδ : 0 ≤ δ)
    (hr : ∀ t ∈ Icc a b, ‖x t‖ ≤ r) (hε : (P * (K * (1 + A * M)) + K * (1 + M)) * H + M * δ ≤ ε)
    (hball : r + gronwallBound 0 K ε (b - a) + A * (H * M) ≤ R) {t : ℝ} {u : V}
    (h : Trajectory F A P δ H a b (x a) t u) (hb : t ≤ b) : ‖u - x t‖ ≤ gronwallBound 0 K ε (t - a) := by
  obtain ⟨hK, hM⟩ := hF.pos
  induction h with
  | start => simp [gronwallBound_x0]
  | @step t t' u u' s T hprev hle hend hH hT hδT hs ih =>
    have ha := hprev.le
    have hg : 0 ≤ t' - t := sub_nonneg.2 hle
    have hH0 : 0 ≤ H := hg.trans hH
    have hε0 : 0 ≤ ε := le_trans (by positivity) hε
    have hmono := gronwallBound_mono (le_refl (0 : ℝ)) hε0 hK.le
    have hbase : 0 ≤ gronwallBound 0 K ε (b - a) :=
      (gronwallBound_x0 0 K ε).symm.le.trans (hmono (by linarith))
    have hAM : A * ((t' - t) * M) ≤ A * (H * M) :=
      mul_le_mul_of_nonneg_left (mul_le_mul_of_nonneg_right hH hM) hA
    have hA0 : 0 ≤ A * (H * M) := by positivity
    have herr := ih (hle.trans hend)
    have hu : ‖u‖ + A * ((t' - t) * M) ≤ R := by
      have htri : ‖u‖ ≤ ‖u - x t‖ + ‖x t‖ := by simpa using norm_add_le (u - x t) (x t)
      have hfin := hmono (show t - a ≤ b - a by linarith)
      linarith [hr t ⟨ha, hle.trans hend⟩]
    have hstep := step_error hF hT ha hg (by linarith) hA hx (fun t ht => (hr t ht).trans (by linarith)) hu hδT hs
    rw [add_sub_cancel] at hstep
    have hlocal : (t' - t) * ((P * (K * (1 + A * M)) + K * (1 + M)) * (t' - t) + M * δ) ≤ (t' - t) * ε := by
      refine mul_le_mul_of_nonneg_left (le_trans ?_ hε) hg
      exact add_le_add (mul_le_mul_of_nonneg_left hH (by positivity)) le_rfl
    calc ‖u' - x t'‖ ≤ (1 + K * (t' - t)) * gronwallBound 0 K ε (t - a) + (t' - t) * ε :=
          hstep.trans (add_le_add (mul_le_mul_of_nonneg_left herr (by positivity)) hlocal)
      _ ≤ gronwallBound 0 K ε (t - a + (t' - t)) := gronwallBound_step hK.ne' ε _ _ hε0 hK.le
      _ = gronwallBound 0 K ε (t' - a) := by congr 1; ring

end Error

/-- **Convergence.** Trajectories of a continuously differentiable field that start on a solution and make steps up to H
stay within C (H + δ) of it, where C depends on the field, the solution and the interval only. -/
theorem convergence [FiniteDimensional ℝ V] (hF : ContDiff ℝ 1 (Function.uncurry F)) (hx : Solves F a b x) {A P : ℝ}
    (hA : 0 ≤ A) (hP : 0 ≤ P) : ∃ C > 0, ∀ H δ t u, 0 ≤ H → 0 ≤ δ → C * (H + δ) ≤ 1 → t ≤ b →
      Trajectory F A P δ H a b (x a) t u → ‖u - x t‖ ≤ C * (H + δ) := by
  obtain ⟨r, hr⟩ := hx.bounded
  obtain ⟨K, M, hreg⟩ := exists_regular hF a b (r + 2)
  obtain ⟨hK, hM⟩ := hreg.pos
  let E := P * (K * (1 + A * M)) + K * (1 + M) + M
  let G := max (gronwallBound 0 K 1 (b - a)) 0
  have hE : 0 ≤ E := by positivity
  have hG : 0 ≤ G := le_max_right _ _
  refine ⟨E * G + A * M + 1, by positivity, fun H δ t u hH hδ hsmall ht htraj => ?_⟩
  have hsum : 0 ≤ H + δ := add_nonneg hH hδ
  have hbound : ∀ t ≤ b, gronwallBound 0 K (E * (H + δ)) (t - a) ≤ E * G * (H + δ) := by
    intro t ht
    have hmono := gronwallBound_mono (le_refl (0 : ℝ)) zero_le_one hK.le (show t - a ≤ b - a by linarith)
    calc gronwallBound 0 K (E * (H + δ)) (t - a) = E * (H + δ) * gronwallBound 0 K 1 (t - a) :=
          gronwallBound_eq_mul hK.ne' _ _
      _ ≤ E * (H + δ) * G := mul_le_mul_of_nonneg_left (hmono.trans (le_max_left _ _)) (mul_nonneg hE hsum)
      _ = E * G * (H + δ) := by ring
  have hpart : 0 ≤ A * M * (H + δ) ∧ 0 ≤ E * G * (H + δ) ∧ A * (H * M) ≤ A * M * (H + δ) := by
    refine ⟨by positivity, by positivity, ?_⟩
    have : 0 ≤ A * M * δ := by positivity
    linarith [mul_assoc A H M, mul_right_comm A H M, mul_add (A * M) H δ]
  have hexpand : (E * G + A * M + 1) * (H + δ) = E * G * (H + δ) + A * M * (H + δ) + (H + δ) := by ring
  have hslopes : (P * (K * (1 + A * M)) + K * (1 + M)) * H + M * δ ≤ E * (H + δ) := by
    have : 0 ≤ (P * (K * (1 + A * M)) + K * (1 + M)) * δ + M * H := by positivity
    simp only [E]
    linarith
  have herr := htraj.error hreg hx hA hP hδ hr hslopes (by linarith [hbound b le_rfl]) ht
  linarith [hbound t ht]

end OdeClientServer.OneStep
