/-
Convergence of the computed rows to the exact solution, on systems with a continuously differentiable right-hand side.

- `disps_rows_error`: the rows of a DISPS run that stay in a ball are within a bound of order H + 4e-9 of the solution
  at the recorded times, where H is the longest distance between two rows and 4e-9 is how far the weights of a variant
  are from the sum 1.
- `ownClock_rows_converge`: the rows of the other solvers on autonomous systems, at the times that their accepted
  attempts add up to. The times they record run ahead of these.
-/
import Mathlib.Analysis.Calculus.Deriv.Prod
import Mathlib.Analysis.Complex.ExponentialBounds
import Mathlib.Analysis.SpecialFunctions.Trigonometric.Deriv
import OdeClientServer.Core.OneStep
import OdeClientServer.Results.Clock
import OdeClientServer.Results.Coverage
import OdeClientServer.Results.Trajectory
import OdeClientServer.Solvers.Tableaux

namespace OdeClientServer.Convergence

open RungeKutta OneStep Tableaux
open Set (Icc)

variable {n : ℕ} {F : ℝ → (Fin n → ℝ) → Fin n → ℝ} {f : Rhs ℝ}

/-! ## DISPS -/

section Disps

open DISPSSolver

theorem tableau3_within {p : Fin 3 → ℝ} (hp : ∑ i, |p i| ≤ 14) : Within (tableau3 p) 4 14 where
  explicit := tableau3_explicit p
  times i := by fin_cases i <;> norm_num [tableau3]
  stages i := by fin_cases i <;> norm_num [tableau3, Fin.sum_univ_succ]
  weights := hp

theorem tableau5_within {p : Fin 5 → ℝ} (hp : ∑ i, |p i| ≤ 14) : Within (tableau5 p) 4 14 where
  explicit := tableau5_explicit p
  times i := by fin_cases i <;> norm_num [tableau5]
  stages i := by fin_cases i <;> norm_num [tableau5, Fin.sum_univ_succ, abs_of_pos, abs_of_neg]
  weights := hp

theorem tableau6_within {p : Fin 6 → ℝ} (hp : ∑ i, |p i| ≤ 14) : Within (tableau6 p) 4 14 where
  explicit := tableau6_explicit p
  times i := by fin_cases i <;> norm_num [tableau6]
  stages i := by fin_cases i <;> norm_num [tableau6, Fin.sum_univ_succ, abs_of_pos, abs_of_neg]
  weights := hp

/-- a step of a variant only evaluates the right-hand side on states of its dimension -/
theorem doOneStep_congr (hf : Computes F f) (v : DispsVariant ℝ) (t : ℝ) (u : Fin n → ℝ) (h : ℝ) :
    doOneStep f t (List.ofFn u) h v = doOneStep (ofField F) t (List.ofFn u) h v := by
  have hF := ofField_ofFn F
  unfold doOneStep
  split_ifs
  · simp only [step3Stage, hf _ _, hF, ok_bind, mul_ofFn, add_ofFn]
  · simp only [step5Stage, hf _ _, hF, ok_bind, mul_ofFn, add_ofFn]
  · simp only [step6Stage, hf _ _, hF, ok_bind, mul_ofFn, add_ofFn]
  · rfl

/-- the steps of an enabled variant are steps of a tableau whose weights have the sum 1 up to 4e-9 -/
theorem variant_tableau {flags : DispsEnabledFlags} {v : DispsVariant ℝ} (hv : v ∈ variants flags) :
    ∃ (s : ℕ) (T : Tableau s), Within T 4 14 ∧ |∑ i, T.p i - 1| ≤ 4e-9 ∧ Refines (dispsStep v) T := by
  rcases mem_variants hv with rfl | rfl | rfl | rfl | rfl | rfl
  · exact ⟨3, _, tableau3_within (by norm_num [Fin.sum_univ_succ, abs_of_pos]),
      by norm_num [tableau3, Fin.sum_univ_succ, abs_of_pos, abs_of_neg], dispsStep_refines3⟩
  · exact ⟨5, _, tableau5_within (by norm_num [Fin.sum_univ_succ, abs_of_pos]),
      by norm_num [tableau5, Fin.sum_univ_succ, abs_of_pos, abs_of_neg], dispsStep_refines5⟩
  · exact ⟨3, _, tableau3_within (by norm_num [Fin.sum_univ_succ, abs_of_pos]),
      by norm_num [tableau3, Fin.sum_univ_succ, abs_of_pos, abs_of_neg], dispsStep_refines3⟩
  · exact ⟨5, _, tableau5_within (by norm_num [Fin.sum_univ_succ, abs_of_pos]),
      by norm_num [tableau5, Fin.sum_univ_succ, abs_of_pos, abs_of_neg], dispsStep_refines5⟩
  · exact ⟨5, _, tableau5_within (by norm_num [Fin.sum_univ_succ, abs_of_pos, abs_of_neg]),
      by norm_num [tableau5, Fin.sum_univ_succ, abs_of_pos, abs_of_neg], dispsStep_refines5⟩
  · exact ⟨6, _, tableau6_within (by norm_num [Fin.sum_univ_succ, abs_of_pos, abs_of_neg]),
      by norm_num [tableau6, Fin.sum_univ_succ, abs_of_pos, abs_of_neg], dispsStep_refines6⟩

/-- consecutive rows are at most H apart in time -/
def Spaced (H : ℝ) (rows : List (ℝ × Vec ℝ)) : Prop :=
  ∀ i t y t' y', rows[i]? = some (t, y) → rows[i + 1]? = some (t', y') → t' - t ≤ H

/-- the rows of a DISPS run are a trajectory of tableau steps -/
theorem rows_trajectory (hf : Computes F f) {flags : DispsEnabledFlags} {t0 tEnd H : ℝ} {u0 : Fin n → ℝ}
    {rows : List (ℝ × Vec ℝ)} (hrows : Trajectory.ValidTrajectory f (variants flags) t0 (List.ofFn u0) tEnd rows)
    (hH : Spaced H rows) (i : ℕ) {t : ℝ} {y : Vec ℝ} (hi : rows[i]? = some (t, y)) :
    ∃ u, y = List.ofFn u ∧ OneStep.Trajectory F 4 14 4e-9 H t0 tEnd u0 t u := by
  induction i generalizing t y with
  | zero =>
    rw [hrows.first, Option.some.injEq, Prod.mk.injEq] at hi
    obtain ⟨rfl, rfl⟩ := hi
    exact ⟨u0, rfl, .start⟩
  | succ i ih =>
    obtain ⟨hlen, hlast⟩ := List.getElem?_eq_some_iff.1 hi
    obtain ⟨⟨a, ya⟩, hprev⟩ : ∃ r, rows[i]? = some r := ⟨_, List.getElem?_eq_getElem (by omega)⟩
    obtain ⟨hilt, hget⟩ := List.getElem?_eq_some_iff.1 hprev
    obtain ⟨u, rfl, htraj⟩ := ih hprev
    obtain ⟨v, hv, k, hstep⟩ := hrows.steps i _ _ t y hprev hi
    obtain ⟨s, T, hT, hδ, href⟩ := variant_tableau hv
    obtain ⟨u', hu', hs⟩ := href F a u (t - a)
    have hlt : a < t := by
      have hp := List.pairwise_iff_getElem.1 hrows.increasing i (i + 1) (by simp; omega) (by simpa using hlen)
        (by omega)
      simpa [hlast, hget] using hp
    rw [doOneStep_congr hf] at hstep
    simp only [dispsStep, hstep, except_map, Except.ok.injEq] at hu'
    exact ⟨u', hu', htraj.step hlt.le (hrows.within _ (List.mem_of_getElem? hi)) (hH i _ _ t y hprev hi) hT hδ hs⟩

/-- the errors that the steps of a DISPS run add for each unit of time: H is the longest distance between two rows -/
def slopeError (K M H : ℝ) : ℝ := (14 * (K * (1 + 4 * M)) + K * (1 + M)) * H + M * 4e-9

/-- every row is that close to x at its time -/
def RowsNear (x : ℝ → Fin n → ℝ) (bound : ℝ → ℝ) (rows : List (ℝ × Vec ℝ)) : Prop :=
  ∀ row ∈ rows, ∃ u, row.2 = List.ofFn u ∧ ‖u - x row.1‖ ≤ bound row.1

/-- **Error of DISPS.** Every row of every run is within the Grönwall bound of the exact solution at its time, whatever
variants the run used and whatever it rejected, as long as that bound keeps the stages in the ball where the right-hand
side is known to be regular. -/
theorem disps_rows_error {R K M r H : ℝ} {x : ℝ → Fin n → ℝ} {t0 tEnd stepSize tolerance : ℝ}
    (flags : DispsEnabledFlags) (N : ℕ) (hf : Computes F f) (hF : Regular F t0 tEnd R K M) (hx : Solves F t0 tEnd x)
    (hr : ∀ t ∈ Icc t0 tEnd, ‖x t‖ ≤ r) (h0 : t0 < tEnd) (hstep : 0 < stepSize) (htol : 0 < tolerance)
    (hH : Spaced H (solve f (variants flags) stepSize 0 t0 (List.ofFn (x t0)) tEnd tolerance N).state.results)
    (hball : r + gronwallBound 0 K (slopeError K M H) (tEnd - t0) + 4 * (H * M) ≤ R) :
    RowsNear x (fun t => gronwallBound 0 K (slopeError K M H) (t - t0))
      (solve f (variants flags) stepSize 0 t0 (List.ofFn (x t0)) tEnd tolerance N).state.results := by
  intro row hrow
  have hrows := Trajectory.rows_form_trajectory f flags stepSize t0 (List.ofFn (x t0)) tEnd tolerance N hstep h0 htol
  obtain ⟨i, hi⟩ := List.getElem?_of_mem hrow
  obtain ⟨u, hu, htraj⟩ := rows_trajectory hf hrows hH i hi
  exact ⟨u, hu, htraj.error hF hx (by norm_num) (by norm_num) (by norm_num) hr le_rfl hball (hrows.within row hrow)⟩

end Disps

/-! ## The solvers with a clock of their own

On an autonomous system the value of a step does not depend on the recorded time, which runs ahead of the accepted
attempts. -/

section OwnClock

variable {M G : Type} {F : (Fin n → ℝ) → Fin n → ℝ}

/-- the time that the first i accepted attempts add up to -/
def ownClock (t0 : ℝ) (len : G → ℝ) (attempts : List G) (i : ℕ) : ℝ := t0 + ((attempts.take i).map len).sum

theorem ownClock_succ {t0 : ℝ} {len : G → ℝ} {attempts : List G} {i : ℕ} {g : G} (hg : attempts[i]? = some g) :
    ownClock t0 len attempts (i + 1) = ownClock t0 len attempts i + len g := by
  rw [ownClock, ownClock, List.take_add_one, hg, List.map_append, List.sum_append]
  simp [add_assoc]

/-- the accepted steps of a solver are steps of tableaux whose weights have the sum 1 -/
structure StepsBy (D : Driver M G ℝ) (J : M → Prop) (len : G → ℝ) (F : (Fin n → ℝ) → Fin n → ℝ) (A P : ℝ) : Prop where
  returned : ∀ {m t y h m' y' h' g}, J m → 0 < h → D.step m t y h = .returned m' y' h' g → 0 < len g ∧
    ∀ u, y = List.ofFn u → ∃ (s : ℕ) (T : Tableau s) (u' : Fin n → ℝ), Within T A P ∧ ∑ i, T.p i = 1 ∧
      y' = List.ofFn u' ∧ T.IsStep (fun _ => F) t u (len g) u'

/-- on an autonomous system a step can be moved in time -/
theorem isStep_shift {s : ℕ} {T : Tableau s} {t τ h : ℝ} {u u' : Fin n → ℝ} (hs : T.IsStep (fun _ => F) t u h u') :
    T.IsStep (fun _ => F) τ u h u' := hs

/-- the rows of a run are a trajectory at the times of its own clock -/
theorem ownClock_trajectory {D : Driver M G ℝ} {J : M → Prop} (hD : D.Sound J) {m : M} (hJ : J m) {len : G → ℝ}
    {A P : ℝ} (hsteps : StepsBy D J len F A P) {stepSize t0 tEnd b H : ℝ} (hstep : 0 < stepSize) {u0 : Fin n → ℝ}
    {N : ℕ}
    (hH : ∀ g ∈ (Loop.run (D.body tEnd) N (start m t0 (List.ofFn u0) stepSize)).state.attempts, len g ≤ H) (i : ℕ)
    {t : ℝ} {y : Vec ℝ}
    (hi : (Loop.run (D.body tEnd) N (start m t0 (List.ofFn u0) stepSize)).state.storage[i]? = some (t, y))
    (hb : ownClock t0 len (Loop.run (D.body tEnd) N (start m t0 (List.ofFn u0) stepSize)).state.attempts i ≤ b) :
    ∃ u, y = List.ofFn u ∧ OneStep.Trajectory (fun _ => F) A P 0 H t0 b u0
      (ownClock t0 len (Loop.run (D.body tEnd) N (start m t0 (List.ofFn u0) stepSize)).state.attempts i) u := by
  have hrows := rows_of_run hD hJ hstep tEnd t0 (List.ofFn u0) N
  obtain ⟨s1, hs1, hst, -⟩ := run_rows_of_head D tEnd N (start m t0 (List.ofFn u0) stepSize)
  have hfirst := (head_inv hD hJ hstep hs1).first
  rw [← hst] at hfirst
  generalize (Loop.run (D.body tEnd) N (start m t0 (List.ofFn u0) stepSize)).state = s at *
  induction i generalizing t y with
  | zero =>
    rw [hfirst, Option.some.injEq, Prod.mk.injEq] at hi
    obtain ⟨-, rfl⟩ := hi
    have hclock : ownClock t0 len s.attempts 0 = t0 := by simp [ownClock]
    rw [hclock]
    exact ⟨u0, rfl, .start⟩
  | succ i ih =>
    obtain ⟨hlen, -⟩ := List.getElem?_eq_some_iff.1 hi
    obtain ⟨⟨a, ya⟩, hprev⟩ : ∃ r, s.storage[i]? = some r := ⟨_, List.getElem?_eq_getElem (by omega)⟩
    obtain ⟨g, hg, m1, hA, m2, h2, hJ1, hpos1, -, hret, -, -⟩ := hrows i a ya t y hprev hi
    rw [ownClock_succ hg] at hb ⊢
    obtain ⟨hpos, hvalue⟩ := hsteps.returned hJ1 hpos1 hret
    obtain ⟨u, hu, htraj⟩ := ih hprev (by linarith)
    obtain ⟨s, T, u', hT, hp, rfl, hs⟩ := hvalue u hu
    refine ⟨u', rfl, htraj.step (by linarith) hb ?_ hT (by rw [hp, sub_self, abs_zero]) ?_⟩
    · rw [add_sub_cancel_left]
      exact hH g (List.mem_of_getElem? hg)
    · rw [add_sub_cancel_left]
      exact isStep_shift hs

/-! ## The tableaux of the solvers -/

section Solvers

variable {f : Rhs ℝ} (hf : Computes (fun _ => F) f)

include hf

theorem euler_congr (t : ℝ) (u : Fin n → ℝ) (h : ℝ) : EulerSolver.update f t (List.ofFn u) h =
    EulerSolver.update (ofField fun _ => F) t (List.ofFn u) h := by
  simp only [EulerSolver.update, hf _ _, ofField_ofFn]

theorem rk2_congr (t : ℝ) (u : Fin n → ℝ) (h : ℝ) : RK2Solver.update f t (List.ofFn u) h =
    RK2Solver.update (ofField fun _ => F) t (List.ofFn u) h := by
  simp only [RK2Solver.update, RK2Solver.stages, hf _ _, ofField_ofFn, ok_bind, multiplyScalarByVector_ofFn,
    addVectors_ofFn]

theorem rk23s_congr (t : ℝ) (u : Fin n → ℝ) (h : ℝ) : RK23SSolver.update f t (List.ofFn u) h =
    RK23SSolver.update (ofField fun _ => F) t (List.ofFn u) h := by
  simp only [RK23SSolver.update, RK23SSolver.stages, hf _ _, ofField_ofFn, ok_bind, multiplyScalarByVector_ofFn,
    addVectors_ofFn]

theorem steks_congr (t : ℝ) (u : Fin n → ℝ) (h : ℝ) : STEKSSolver.update f t (List.ofFn u) h =
    STEKSSolver.update (ofField fun _ => F) t (List.ofFn u) h := by
  simp only [STEKSSolver.update, STEKSSolver.stages, hf _ _, ofField_ofFn, ok_bind, multiplyScalarByVector_ofFn,
    addVectors_ofFn]

theorem dispd_congr (c : DISPDSolver.SchemeParams ℝ) (t : ℝ) (u : Fin n → ℝ) (h : ℝ) :
    DISPDSolver.update c f t (List.ofFn u) h = DISPDSolver.update c (ofField fun _ => F) t (List.ofFn u) h := by
  simp only [DISPDSolver.update, DISPDSolver.computeKTerms, hf _ _, ofField_ofFn, ok_bind,
    multiplyScalarByVector_ofFn, addVectors_ofFn]

end Solvers

theorem tableauEuler_within {P : ℝ} (hP : 1 ≤ P) : Within tableauEuler 4 P where
  explicit := tableauEuler_explicit
  times i := by fin_cases i; norm_num [tableauEuler]
  stages i := by fin_cases i; norm_num [tableauEuler]
  weights := by norm_num [tableauEuler, hP]

theorem tableauRK2_within {P : ℝ} (hP : 1 ≤ P) : Within tableauRK2 4 P where
  explicit := tableauRK2_explicit
  times i := by fin_cases i <;> norm_num [tableauRK2]
  stages i := by fin_cases i <;> norm_num [tableauRK2, Fin.sum_univ_succ]
  weights := by norm_num [tableauRK2, Fin.sum_univ_succ, abs_of_pos, hP]

theorem tableauRK23S_within {P : ℝ} (hP : 1 ≤ P) : Within tableauRK23S 4 P where
  explicit := tableauRK23S_explicit
  times i := by fin_cases i <;> norm_num [tableauRK23S]
  stages i := by fin_cases i <;> norm_num [tableauRK23S, Fin.sum_univ_succ]
  weights := by norm_num [tableauRK23S, Fin.sum_univ_succ, abs_of_pos, hP]

theorem tableauSTEKS_within {P : ℝ} (hP : 1 ≤ P) : Within tableauSTEKS 4 P where
  explicit := tableauSTEKS_explicit
  times i := by fin_cases i <;> norm_num [tableauSTEKS]
  stages i := by fin_cases i <;> norm_num [tableauSTEKS, Fin.sum_univ_succ, abs_of_pos, abs_of_neg]
  weights := by norm_num [tableauSTEKS, Fin.sum_univ_succ, abs_of_pos, hP]

theorem tableauDISPD_within {c : DISPDSolver.SchemeParams ℝ} {P : ℝ} (hP : |c.p1| + |c.p2| + |c.p3| ≤ P) :
    Within (tableauDISPD c) 4 P where
  explicit := tableauDISPD_explicit c
  times i := by fin_cases i <;> norm_num [tableauDISPD]
  stages i := by fin_cases i <;> norm_num [tableauDISPD, Fin.sum_univ_succ]
  weights := by simpa [tableauDISPD, Fin.sum_univ_succ, add_assoc] using hP

/-- a solver whose accepted steps return the values of one tableau -/
theorem stepsBy_of_value {D : Driver M G ℝ} {J : M → Prop} {len : G → ℝ} {A P : ℝ} (value : Stepper) {s : ℕ}
    {T : Tableau s} (hT : Within T A P) (hp : ∑ i, T.p i = 1) (href : Refines value T)
    (hret : ∀ {m t y h m' y' h' g}, J m → 0 < h → D.step m t y h = .returned m' y' h' g →
      0 < len g ∧ ∀ u : Fin n → ℝ, y = List.ofFn u → value (fun _ => F) t u (len g) = .ok y') :
    StepsBy D J len F A P := by
  constructor
  intro m t y h m' y' h' g hJ hh hs
  obtain ⟨hpos, hvalue⟩ := hret hJ hh hs
  refine ⟨hpos, fun u hu => ?_⟩
  obtain ⟨u', hu', hstep⟩ := href (fun _ => F) t u (len g)
  dsimp only at hu'
  rw [hvalue u hu, Except.ok.injEq] at hu'
  exact ⟨s, T, u', hT, hp, hu', hstep⟩

section Solvers

variable {f : Rhs ℝ} (hf : Computes (fun _ => F) f) {tolerance P : ℝ} (htol : 0 < tolerance) (hP : 1 ≤ P)

include hf htol hP

theorem euler_stepsBy : StepsBy (EulerSolver.driver f tolerance) (fun _ => True) id F 4 P := by
  refine stepsBy_of_value (fun F t y h => EulerSolver.update (ofField F) t (List.ofFn y) h) (tableauEuler_within hP)
    (by norm_num [tableauEuler]) euler_refines ?_
  intro m t y h m' y' h' g hJ hh hs
  obtain ⟨hu, hg, -, -⟩ := (Clock.euler_spec htol).returned hJ hh hs
  exact ⟨hg, fun u hy => by rw [← euler_congr hf, ← hy]; exact hu⟩

theorem rk2_stepsBy (fuel : ℕ) : StepsBy (RK2Solver.driver f tolerance fuel) (fun _ => True) id F 4 P := by
  refine stepsBy_of_value (fun F t y h => RK2Solver.update (ofField F) t (List.ofFn y) h) (tableauRK2_within hP)
    (by norm_num [tableauRK2, Fin.sum_univ_succ]) rk2_refines ?_
  intro m t y h m' y' h' g hJ hh hs
  obtain ⟨hu, hg, -, -⟩ := (Clock.rk2_spec htol fuel).returned hJ hh hs
  exact ⟨hg, fun u hy => by rw [← rk2_congr hf, ← hy]; exact hu⟩

theorem rk23s_stepsBy : StepsBy (RK23SSolver.driver f tolerance) (fun _ => True) id F 4 P := by
  refine stepsBy_of_value (fun F t y h => RK23SSolver.update (ofField F) t (List.ofFn y) h) (tableauRK23S_within hP)
    (by norm_num [tableauRK23S, Fin.sum_univ_succ]) rk23s_refines ?_
  intro m t y h m' y' h' g hJ hh hs
  obtain ⟨hu, hg, -, -⟩ := (Clock.rk23s_spec htol).returned hJ hh hs
  exact ⟨hg, fun u hy => by rw [← rk23s_congr hf, ← hy]; exact hu⟩

theorem steks_stepsBy : StepsBy (STEKSSolver.driver f tolerance) (fun _ => True) id F 4 P := by
  refine stepsBy_of_value (fun F t y h => STEKSSolver.update (ofField F) t (List.ofFn y) h) (tableauSTEKS_within hP)
    (by norm_num [tableauSTEKS, Fin.sum_univ_succ]) steks_refines ?_
  intro m t y h m' y' h' g hJ hh hs
  obtain ⟨hu, hg, -, -⟩ := (Clock.steks_spec htol).returned hJ hh hs
  exact ⟨hg, fun u hy => by rw [← steks_congr hf, ← hy]; exact hu⟩

end Solvers

/-! ## The schemes of DISPD -/

section Dispd

open DISPDSolver

/-- the two schemes of a run: A with the g that `Solve` finds in the member, and B -/
def Scheme (currentScheme c : SchemeParams ℝ) : Prop :=
  c = switchScheme currentScheme false ∨ c = switchScheme currentScheme true

/-- the weights of both schemes have the sum 1, whatever g was in the member -/
theorem scheme_sum {currentScheme c : SchemeParams ℝ} (hc : Scheme currentScheme c) : c.p1 + c.p2 + c.p3 = 1 := by
  rcases hc with rfl | rfl
  · norm_num [switchScheme]
    ring
  · norm_num [switchScheme]

/-- a bound of the weights of both schemes -/
noncomputable def schemeWeight (currentScheme : SchemeParams ℝ) : ℝ :=
  let a := switchScheme currentScheme false
  max 1 (|a.p1| + |a.p2| + |a.p3|)

theorem scheme_weight {currentScheme c : SchemeParams ℝ} (hc : Scheme currentScheme c) :
    |c.p1| + |c.p2| + |c.p3| ≤ schemeWeight currentScheme := by
  rcases hc with rfl | rfl
  · exact le_max_right _ _
  · refine le_max_of_le_left ?_
    norm_num [switchScheme, abs_of_pos]

variable {f : Rhs ℝ} {tolerance : ℝ} (htol : 0 < tolerance)

include htol

theorem dispd_sound (currentScheme : SchemeParams ℝ) :
    (driver f tolerance).Sound (Scheme currentScheme) where
  clip_eq _ _ _ := rfl
  returned := by
    intro c t y h c' y' h' g hJ hh hs
    obtain ⟨-, -, -, -, hc', -⟩ := attemptLoop_returned htol hh hs
    refine ⟨?_, ((driver_sound htol).returned trivial hh hs).2⟩
    rw [hc']
    split_ifs
    · exact Or.inr rfl
    · exact hJ
  threw := by
    intro s h e c' y' h' hJ hsh hh hs hc
    obtain ⟨-, hrest⟩ := (driver_sound htol).threw trivial hsh hh hs hc
    exact ⟨(attemptLoop_threw hs).2 ▸ hJ, hrest⟩

theorem dispd_stepsBy (hf : Computes (fun _ => F) f) (currentScheme : SchemeParams ℝ) :
    StepsBy (driver f tolerance) (Scheme currentScheme) Attempt.h F 4 (schemeWeight currentScheme) := by
  constructor
  intro c t y h c' y' h' g hJ hh hs
  obtain ⟨hscheme, hpos, -, hu, -⟩ := attemptLoop_returned htol hh hs
  refine ⟨hpos, ?_⟩
  rintro u rfl
  obtain ⟨u', hu', hstep⟩ := dispd_refines c (fun _ => F) t u g.h
  dsimp only at hu'
  rw [← dispd_congr hf, hu, Except.ok.injEq] at hu'
  refine ⟨3, tableauDISPD c, u', tableauDISPD_within (scheme_weight hJ), ?_, hu', hstep⟩
  simpa [tableauDISPD, Fin.sum_univ_succ, add_assoc] using scheme_sum hJ

end Dispd

/-- while the attempts are at most H long, the rows are within E of x at the times that the attempts add up to -/
def FollowsOwnClock (x : ℝ → Fin n → ℝ) (t0 b : ℝ) (len : G → ℝ) (H E : ℝ) (s : RunState M G ℝ) : Prop :=
  (∀ g ∈ s.attempts, len g ≤ H) → ∀ i t y, s.storage[i]? = some (t, y) → ownClock t0 len s.attempts i ≤ b →
    ∃ u, y = List.ofFn u ∧ ‖u - x (ownClock t0 len s.attempts i)‖ ≤ E

/-- a run whose trajectories stay near x follows x -/
theorem followsOwnClock {D : Driver M G ℝ} {J : M → Prop} (hD : D.Sound J) {m : M} (hJ : J m) {len : G → ℝ}
    {A P : ℝ} (hsteps : StepsBy D J len F A P) {stepSize t0 b H E : ℝ} (hstep : 0 < stepSize) {u0 : Fin n → ℝ}
    {x : ℝ → Fin n → ℝ}
    (hnear : ∀ t u, t ≤ b → OneStep.Trajectory (fun _ => F) A P 0 H t0 b u0 t u → ‖u - x t‖ ≤ E) (tEnd : ℝ) (N : ℕ) :
    FollowsOwnClock x t0 b len H E (Loop.run (D.body tEnd) N (start m t0 (List.ofFn u0) stepSize)).state := by
  intro hlen i t y hi hb
  obtain ⟨u, hu, htraj⟩ := ownClock_trajectory hD hJ hsteps hstep hlen i hi hb
  exact ⟨u, hu, hnear _ u hb htraj⟩

/-- **Convergence at the own clock.** On an autonomous system with a continuously differentiable right-hand side, the
rows of Euler, RK2, RK23S, STEKS and DISPD with attempts up to H are within C H of the exact solution at the times that
their accepted attempts add up to, with one C for all runs. -/
theorem ownClock_rows_converge (hF : ContDiff ℝ 1 F) {x : ℝ → Fin n → ℝ} {t0 b : ℝ} (hx : Solves (fun _ => F) t0 b x)
    (currentScheme : DISPDSolver.SchemeParams ℝ) :
    ∃ C > 0, ∀ (f : Rhs ℝ) (stepSize tEnd tolerance H : ℝ) (fuel N : ℕ), Computes (fun _ => F) f → 0 < stepSize →
      0 < tolerance → 0 ≤ H → C * H ≤ 1 →
      FollowsOwnClock x t0 b id H (C * H) (EulerSolver.solve f stepSize t0 (List.ofFn (x t0)) tEnd tolerance N).state ∧
      FollowsOwnClock x t0 b id H (C * H)
        (RK2Solver.solve f stepSize t0 (List.ofFn (x t0)) tEnd tolerance fuel N).state ∧
      FollowsOwnClock x t0 b id H (C * H) (RK23SSolver.solve f stepSize t0 (List.ofFn (x t0)) tEnd tolerance N).state ∧
      FollowsOwnClock x t0 b id H (C * H) (STEKSSolver.solve f stepSize t0 (List.ofFn (x t0)) tEnd tolerance N).state ∧
      FollowsOwnClock x t0 b DISPDSolver.Attempt.h H (C * H)
        (DISPDSolver.solve currentScheme f stepSize t0 (List.ofFn (x t0)) tEnd tolerance N).state := by
  have hP : 1 ≤ schemeWeight currentScheme := le_max_left _ _
  have hF' : ContDiff ℝ 1 (Function.uncurry fun (_ : ℝ) => F) := hF.comp contDiff_snd
  obtain ⟨C, hC, hconv⟩ := convergence hF' hx (A := 4) (by norm_num) (zero_le_one.trans hP)
  refine ⟨C, hC, fun f stepSize tEnd tolerance H fuel N hf hstep htol hH hsmall => ?_⟩
  have hnear : ∀ t u, t ≤ b → OneStep.Trajectory (fun _ => F) 4 (schemeWeight currentScheme) 0 H t0 b (x t0) t u →
      ‖u - x t‖ ≤ C * H := by
    intro t u ht htraj
    have herr := hconv H 0 t u hH le_rfl (by rwa [add_zero]) ht htraj
    rwa [add_zero] at herr
  exact ⟨followsOwnClock (EulerSolver.driver_sound htol) trivial (euler_stepsBy hf htol hP) hstep hnear tEnd N,
    followsOwnClock (RK2Solver.driver_sound htol fuel) trivial (rk2_stepsBy hf htol hP fuel) hstep hnear tEnd N,
    followsOwnClock (RK23SSolver.driver_sound htol) trivial (rk23s_stepsBy hf htol hP) hstep hnear tEnd N,
    followsOwnClock STEKSSolver.driver_sound trivial (steks_stepsBy hf htol hP) hstep hnear tEnd N,
    followsOwnClock (dispd_sound htol currentScheme) (Or.inl rfl) (dispd_stepsBy htol hf currentScheme) hstep hnear
      tEnd N⟩

end OwnClock

/-! ## The harmonic oscillator -/

/-- the right-hand side of Van der Pol's equation with mu = 0 and p = 1 -/
def oscillator (u : Fin 2 → ℝ) : Fin 2 → ℝ := ![u 1, -u 0]

theorem oscillator_computes : Computes (fun _ => oscillator) (TaskManager.vanDerPol Coverage.harmonic) := by
  intro t u
  have hu : List.ofFn u = [u 0, u 1] := by simp [List.ofFn_succ]
  rw [hu, Coverage.harmonic_rhs]
  simp [oscillator, List.ofFn_succ]

theorem oscillator_contDiff : ContDiff ℝ 1 oscillator := by
  refine contDiff_pi.2 fun i => ?_
  fin_cases i
  · exact contDiff_apply ℝ ℝ (1 : Fin 2)
  · exact (contDiff_apply ℝ ℝ (0 : Fin 2)).neg

noncomputable def oscillation (t : ℝ) : Fin 2 → ℝ := ![Real.cos t, -Real.sin t]

theorem oscillation_solves (a b : ℝ) : Solves (fun _ => oscillator) a b oscillation := by
  intro t _
  refine (hasDerivAt_pi.2 fun i => ?_).hasDerivWithinAt
  fin_cases i
  · exact Real.hasDerivAt_cos t
  · exact (Real.hasDerivAt_sin t).neg

theorem oscillation_le (t : ℝ) : ‖oscillation t‖ ≤ 1 := by
  refine (pi_norm_le_iff_of_nonneg zero_le_one).2 fun i => ?_
  fin_cases i
  · exact Real.abs_cos_le_one t
  · simpa [oscillation] using Real.abs_sin_le_one t

theorem oscillator_norm (u : Fin 2 → ℝ) : ‖oscillator u‖ ≤ ‖u‖ := by
  refine (pi_norm_le_iff_of_nonneg (norm_nonneg u)).2 fun i => ?_
  fin_cases i
  · exact norm_le_pi_norm u 1
  · simpa [oscillator] using norm_le_pi_norm u 0

theorem oscillator_regular (a b : ℝ) : Regular (fun _ => oscillator) a b 2 1 2 where
  pos := ⟨one_pos, zero_le_two⟩
  lipschitz := by
    intro t _ s _ u v _ _
    have hsub : oscillator u - oscillator v = oscillator (u - v) := by
      funext i
      fin_cases i
      · rfl
      · simp [oscillator]; ring
    rw [hsub, one_mul]
    exact (oscillator_norm _).trans (le_add_of_nonneg_left (abs_nonneg _))
  bounded := fun t _ u hu => (oscillator_norm u).trans hu

/-- the rows of a DISPS run are at most as far apart as the interval is long -/
theorem spaced_of_within {f : Rhs ℝ} {variants : List (DISPSSolver.DispsVariant ℝ)} {t0 tEnd : ℝ} {y0 : Vec ℝ}
    {rows : List (ℝ × Vec ℝ)} (hrows : Trajectory.ValidTrajectory f variants t0 y0 tEnd rows) :
    Spaced (tEnd - t0) rows := by
  intro i t y t' y' h1 h2
  have hhigh := hrows.within _ (List.mem_of_getElem? h2)
  have hlow : t0 ≤ t := by
    rcases Nat.eq_zero_or_pos i with rfl | hi
    · rw [hrows.first, Option.some.injEq, Prod.mk.injEq] at h1
      exact h1.1.le
    · obtain ⟨hlen, hget⟩ := List.getElem?_eq_some_iff.1 h1
      obtain ⟨hlen0, hget0⟩ := List.getElem?_eq_some_iff.1 hrows.first
      have hp := List.pairwise_iff_getElem.1 hrows.increasing 0 i (by simpa using hlen0) (by simpa using hlen) hi
      simp only [List.getElem_map, hget0, hget] at hp
      exact hp.le
  dsimp only at hhigh
  linarith

/-- the oscillator over [0, 0.001] -/
theorem disps_rows_error_oscillator :
    RowsNear oscillation (fun t => gronwallBound 0 1 (slopeError 1 2 (0.001 - 0)) (t - 0))
      (DISPSSolver.solve (TaskManager.vanDerPol Coverage.harmonic)
        (DISPSSolver.variants ⟨true, true, true, true, true, true⟩) 0.001 0 0 (List.ofFn (oscillation 0)) 0.001 1e-6
        1000).state.results := by
  refine disps_rows_error (x := oscillation) ⟨true, true, true, true, true, true⟩ 1000 oscillator_computes
    (oscillator_regular 0 0.001) (oscillation_solves 0 0.001) (fun t _ => oscillation_le t) (by norm_num) (by norm_num)
    (by norm_num) (spaced_of_within (Trajectory.rows_form_trajectory _ _ _ _ _ _ _ _ (by norm_num) (by norm_num)
      (by norm_num))) ?_
  have hexp : Real.exp (1 * (0.001 - 0)) ≤ 3 :=
    (Real.exp_le_exp.2 (by norm_num)).trans Real.exp_one_lt_three.le
  rw [gronwallBound_of_K_ne_0 one_ne_zero]
  norm_num [slopeError] at hexp ⊢
  linarith

theorem ownClock_rows_converge_oscillator :
    ∃ C > 0, ∀ H, 0 ≤ H → C * H ≤ 1 → FollowsOwnClock oscillation 0 1 id H (C * H)
      (EulerSolver.solve (TaskManager.vanDerPol Coverage.harmonic) 0.001 0 (List.ofFn (oscillation 0)) 1 1e-6
        1000).state := by
  obtain ⟨C, hC, h⟩ := ownClock_rows_converge oscillator_contDiff (oscillation_solves 0 1) ⟨0, 0, 0, 0⟩
  exact ⟨C, hC, fun H hH hsmall => (h _ 0.001 1 1e-6 H 0 1000 oscillator_computes (by norm_num) (by norm_num) hH
    hsmall).1⟩

end OdeClientServer.Convergence
