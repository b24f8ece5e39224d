/-
The steps of the solvers as steps of Runge-Kutta tableaux. A tableau holds the stage coefficients, stage times and
weights that the code spreads over its stage formulas. Each theorem connects one step of the code, on a system given by
a total function, to `Tableau.IsStep`: the step returns, and its value is the value of the tableau.
-/
import OdeClientServer.Core.RungeKutta
import OdeClientServer.Solvers.EulerSolver
import OdeClientServer.Solvers.RK2Solver
import OdeClientServer.Solvers.RK23SSolver
import OdeClientServer.Solvers.STEKSSolver
import OdeClientServer.Solvers.DISPDSolver
import OdeClientServer.Solvers.DISPFSolver
import OdeClientServer.Solvers.DISPSSolver

namespace OdeClientServer.Tableaux

open RungeKutta

/-- a step of the code from (t, y) with step length h on the system F, in any dimension -/
abbrev Stepper := ∀ {n : ℕ}, (ℝ → (Fin n → ℝ) → Fin n → ℝ) → ℝ → (Fin n → ℝ) → ℝ → Except Exn (Vec ℝ)

/-- the step of the code returns the value of the tableau -/
def Refines {s : ℕ} (step : Stepper) (T : Tableau s) : Prop :=
  ∀ {n : ℕ} (F : ℝ → (Fin n → ℝ) → Fin n → ℝ) (t : ℝ) (y : Fin n → ℝ) (h : ℝ),
    ∃ y', step F t y h = .ok (List.ofFn y') ∧ T.IsStep F t y h y'

/-! ## DISPS -/

section Disps

open DISPSSolver

variable {n : ℕ}

theorem mul_ofFn (c : ℝ) (u : Fin n → ℝ) : mul c (List.ofFn u) = List.ofFn (c • u) := multiplyScalarByVector_ofFn c u

theorem add_ofFn (u v : Fin n → ℝ) : add (List.ofFn u) (List.ofFn v) = .ok (List.ofFn (u + v)) := by
  simp only [add, List.length_ofFn, ne_eq, not_true_eq_false, if_false, zipWith_ofFn]; rfl

/-- the tableau of `Step3Stage` -/
noncomputable def tableau3 (p : Fin 3 → ℝ) : Tableau 3 where
  a := ![![0, 0, 0], ![2 / 3, 0, 0], ![1 / 3, 1 / 3, 0]]
  c := ![0, 2 / 3, 1]
  p := p

/-- the tableau of `Step5Stage` -/
noncomputable def tableau5 (p : Fin 5 → ℝ) : Tableau 5 where
  a := ![![0, 0, 0, 0, 0], ![1 / 3, 0, 0, 0, 0], ![1 / 6, 1 / 6, 0, 0, 0], ![1 / 8, 0, 1 / 8, 0, 0],
    ![1 / 2, 0, -3 / 2, 2, 0]]
  c := ![0, 1 / 3, 1 / 2, 3 / 4, 1]
  p := p

/-- the tableau of `Step6Stage` -/
noncomputable def tableau6 (p : Fin 6 → ℝ) : Tableau 6 where
  a := ![![0, 0, 0, 0, 0, 0], ![1 / 2, 0, 0, 0, 0, 0], ![0, 1 / 2, 0, 0, 0, 0], ![0, 0, 1 / 2, 0, 0, 0],
    ![0.497828275994247056, 0, 0, 0.002171724005752944, 0, 0], ![0, 0, 0, 0, 1, 0]]
  c := ![0, 1 / 2, 1 / 2, 1 / 2, 1 / 2, 1]
  p := p

theorem read_zero (a : ℝ) (l : List ℝ) : read (a :: l) 0 = .ok a := rfl

theorem read_succ (a : ℝ) (l : List ℝ) (i : ℕ) : read (a :: l) (i + 1) = read l i := rfl

theorem step3Stage_refines (p0 p1 p2 : ℝ) :
    Refines (fun F t y h => (·.1) <$> step3Stage t (List.ofFn y) h (ofField F) [p0, p1, p2])
      (tableau3 ![p0, p1, p2]) := by
  intro n F t y h
  let k1 := h • F t y
  let k2 := h • F (t + 2.0 / 3.0 * h) (y + (2.0 / 3.0 : ℝ) • k1)
  let k3 := h • F (t + h) (y + (1.0 / 3.0 : ℝ) • k1 + (1.0 / 3.0 : ℝ) • k2)
  refine ⟨y + p0 • k1 + p1 • k2 + p2 • k3, ?_, ![k1, k2, k3], ?_, ?_⟩
  · simp only [step3Stage, ofField_ofFn, ok_bind, mul_ofFn, add_ofFn, read_zero, read_succ, except_pure, except_map]
    rfl
  · intro i
    fin_cases i <;> norm_num [tableau3, Fin.sum_univ_succ, k1, k2, k3, add_assoc]
  · simp [tableau3, Fin.sum_univ_succ, add_assoc]

theorem step5Stage_refines (p0 p1 p2 p3 p4 : ℝ) :
    Refines (fun F t y h => (·.1) <$> step5Stage t (List.ofFn y) h (ofField F) [p0, p1, p2, p3, p4])
      (tableau5 ![p0, p1, p2, p3, p4]) := by
  intro n F t y h
  let k1 := h • F t y
  let k2 := h • F (t + 1.0 / 3.0 * h) (y + (1.0 / 3.0 : ℝ) • k1)
  let k3 := h • F (t + 1.0 / 2.0 * h) (y + (1.0 / 6.0 : ℝ) • k1 + (1.0 / 6.0 : ℝ) • k2)
  let k4 := h • F (t + 3.0 / 4.0 * h) (y + (1.0 / 8.0 : ℝ) • k1 + (1.0 / 8.0 : ℝ) • k3)
  let k5 := h • F (t + h) (y + (1.0 / 2.0 : ℝ) • k1 + (-3.0 / 2.0 : ℝ) • k3 + (2.0 : ℝ) • k4)
  refine ⟨y + p0 • k1 + p1 • k2 + p2 • k3 + p3 • k4 + p4 • k5, ?_, ![k1, k2, k3, k4, k5], ?_, ?_⟩
  · simp -implicitDefEqProofs only [step5Stage, ofField_ofFn, ok_bind, mul_ofFn, add_ofFn, read_zero, read_succ,
      except_pure, except_map]
    rfl
  · intro i
    fin_cases i <;> norm_num [tableau5, Fin.sum_univ_succ, k1, k2, k3, k4, k5, add_assoc]
  · simp [tableau5, Fin.sum_univ_succ, add_assoc]

theorem step6Stage_refines (p0 p1 p2 p3 p4 p5 : ℝ) :
    Refines (fun F t y h => (·.1) <$> step6Stage t (List.ofFn y) h (ofField F) [p0, p1, p2, p3, p4, p5])
      (tableau6 ![p0, p1, p2, p3, p4, p5]) := by
  intro n F t y h
  let k1 := h • F t y
  let k2 := h • F (t + 0.5 * h) (y + (0.5 : ℝ) • k1)
  let k3 := h • F (t + 0.5 * h) (y + (0.5 : ℝ) • k2)
  let k4 := h • F (t + 0.5 * h) (y + (0.5 : ℝ) • k3)
  let k5 := h • F (t + 0.5 * h) (y + (0.497828275994247056 : ℝ) • k1 + (0.002171724005752944 : ℝ) • k4)
  let k6 := h • F (t + h) (y + k5)
  refine ⟨y + p0 • k1 + p1 • k2 + p2 • k3 + p3 • k4 + p4 • k5 + p5 • k6, ?_, ![k1, k2, k3, k4, k5, k6], ?_, ?_⟩
  · simp -implicitDefEqProofs only [step6Stage, ofField_ofFn, ok_bind, mul_ofFn, add_ofFn, read_zero, read_succ,
      except_pure, except_map]
    rfl
  · intro i
    fin_cases i <;> norm_num [tableau6, Fin.sum_univ_succ, k1, k2, k3, k4, k5, k6, add_assoc]
  · simp [tableau6, Fin.sum_univ_succ, add_assoc]

/-- one step of a variant -/
noncomputable def dispsStep (v : DispsVariant ℝ) : Stepper := fun F t y h =>
  (·.1) <$> doOneStep (ofField F) t (List.ofFn y) h v

theorem tableau3_explicit (p : Fin 3 → ℝ) : (tableau3 p).Explicit := by
  intro i j hij
  fin_cases i <;> fin_cases j <;> simp_all [tableau3, Fin.le_def]

theorem tableau5_explicit (p : Fin 5 → ℝ) : (tableau5 p).Explicit := by
  intro i j hij
  fin_cases i <;> fin_cases j <;> simp_all [tableau5, Fin.le_def]

theorem tableau6_explicit (p : Fin 6 → ℝ) : (tableau6 p).Explicit := by
  intro i j hij
  fin_cases i <;> fin_cases j <;> simp_all [tableau6, Fin.le_def]

theorem dispsStep_refines3 {order : ℕ} {p0 p1 p2 gamma : ℝ} :
    Refines (dispsStep ⟨3, order, [p0, p1, p2], gamma⟩) (tableau3 ![p0, p1, p2]) := by
  intro n F t y h
  simpa [dispsStep, doOneStep] using step3Stage_refines p0 p1 p2 F t y h

theorem dispsStep_refines5 {order : ℕ} {p0 p1 p2 p3 p4 gamma : ℝ} :
    Refines (dispsStep ⟨5, order, [p0, p1, p2, p3, p4], gamma⟩) (tableau5 ![p0, p1, p2, p3, p4]) := by
  intro n F t y h
  simpa [dispsStep, doOneStep] using step5Stage_refines p0 p1 p2 p3 p4 F t y h

theorem dispsStep_refines6 {order : ℕ} {p0 p1 p2 p3 p4 p5 gamma : ℝ} :
    Refines (dispsStep ⟨6, order, [p0, p1, p2, p3, p4, p5], gamma⟩) (tableau6 ![p0, p1, p2, p3, p4, p5]) := by
  intro n F t y h
  simpa [dispsStep, doOneStep] using step6Stage_refines p0 p1 p2 p3 p4 p5 F t y h

theorem mem_variants {flags : DispsEnabledFlags} {v : DispsVariant ℝ} (hv : v ∈ variants flags) :
    v = disps13 ∨ v = disps15 ∨ v = disps23 ∨ v = disps25 ∨ v = disps35 ∨ v = disps36 := by
  simp only [variants, List.mem_append, List.mem_ite_nil_right, List.mem_singleton] at hv
  tauto

/-- every flag set: the constructor enables the six variants -/
def allEnabled : DispsEnabledFlags := ⟨true, true, true, true, true, true⟩

end Disps

/-! ## Euler, RK2, RK23S, STEKS and DISPD -/

/-- the tableau of the explicit Euler step -/
noncomputable def tableauEuler : Tableau 1 where
  a := ![![0]]
  c := ![0]
  p := ![1]

/-- the tableau of RK2: both stages are at the time t -/
noncomputable def tableauRK2 : Tableau 2 where
  a := ![![0, 0], ![2 / 3, 0]]
  c := ![0, 0]
  p := ![1 / 4, 3 / 4]

noncomputable def tableauRK23S : Tableau 3 where
  a := ![![0, 0, 0], ![2 / 3, 0, 0], ![1 / 3, 1 / 3, 0]]
  c := ![0, 2 / 3, 2 / 3]
  p := ![1 / 4, 15 / 32, 9 / 32]

noncomputable def tableauSTEKS : Tableau 5 where
  a := ![![0, 0, 0, 0, 0], ![1 / 3, 0, 0, 0, 0], ![1 / 6, 1 / 6, 0, 0, 0], ![1 / 8, 0, 3 / 8, 0, 0],
    ![1 / 2, 0, -3 / 2, 2, 0]]
  c := ![0, 1 / 3, 1 / 3, 1 / 2, 1]
  p := ![1 / 6, 0, 0, 2 / 3, 1 / 6]

/-- the tableau of DISPD with the weights of a scheme: all three stages are at the time t -/
noncomputable def tableauDISPD (scheme : DISPDSolver.SchemeParams ℝ) : Tableau 3 where
  a := ![![0, 0, 0], ![2 / 3, 0, 0], ![1 / 3, 1 / 3, 0]]
  c := ![0, 0, 0]
  p := ![scheme.p1, scheme.p2, scheme.p3]

theorem tableauEuler_explicit : tableauEuler.Explicit := by
  intro i j hij
  fin_cases i; fin_cases j; rfl

theorem tableauRK2_explicit : tableauRK2.Explicit := by
  intro i j hij
  fin_cases i <;> fin_cases j <;> simp_all [tableauRK2]

theorem tableauRK23S_explicit : tableauRK23S.Explicit := by
  intro i j hij
  fin_cases i <;> fin_cases j <;> simp_all [tableauRK23S, Fin.le_def]

theorem tableauSTEKS_explicit : tableauSTEKS.Explicit := by
  intro i j hij
  fin_cases i <;> fin_cases j <;> simp_all [tableauSTEKS, Fin.le_def]

theorem tableauDISPD_explicit (scheme : DISPDSolver.SchemeParams ℝ) : (tableauDISPD scheme).Explicit := by
  intro i j hij
  fin_cases i <;> fin_cases j <;> simp_all [tableauDISPD, Fin.le_def]

theorem euler_refines : Refines (fun F t y h => EulerSolver.update (ofField F) t (List.ofFn y) h) tableauEuler := by
  intro n F t y h
  refine ⟨y + h • F t y, ?_, ![h • F t y], ?_, ?_⟩
  · simp only [EulerSolver.update, ofField_ofFn, ok_bind, multiplyScalarByVector_ofFn, addVectors_ofFn]
  · intro i
    fin_cases i; simp [tableauEuler]
  · simp [tableauEuler]

theorem rk2_refines : Refines (fun F t y h => RK2Solver.update (ofField F) t (List.ofFn y) h) tableauRK2 := by
  intro n F t y h
  let k1 := h • F t y
  let k2 := h • F t (y + (RK2Solver.b21 : ℝ) • k1)
  refine ⟨y + ((RK2Solver.p1 : ℝ) • k1 + (RK2Solver.p2 : ℝ) • k2), ?_, ![k1, k2], ?_, ?_⟩
  · simp only [RK2Solver.update, RK2Solver.stages, RK2Solver.nextValue, ofField_ofFn, ok_bind,
      multiplyScalarByVector_ofFn, addVectors_ofFn, except_pure]
    rfl
  · intro i
    fin_cases i <;> norm_num [tableauRK2, Fin.sum_univ_succ, k1, k2, RK2Solver.b21]
  · norm_num [tableauRK2, Fin.sum_univ_succ, RK2Solver.p1, RK2Solver.p2]

theorem rk23s_refines : Refines (fun F t y h => RK23SSolver.update (ofField F) t (List.ofFn y) h) tableauRK23S := by
  intro n F t y h
  let k1 := h • F t y
  let k2 := h • F (t + RK23SSolver.alpha2 * h) (y + (RK23SSolver.beta21 : ℝ) • k1)
  let k3 := h • F (t + RK23SSolver.alpha3 * h) (y + ((RK23SSolver.beta31 : ℝ) • k1 + (RK23SSolver.beta32 : ℝ) • k2))
  refine ⟨y + ((RK23SSolver.p1 : ℝ) • k1 + ((RK23SSolver.p2 : ℝ) • k2 + (RK23SSolver.p3 : ℝ) • k3)), ?_,
    ![k1, k2, k3], ?_, ?_⟩
  · simp only [RK23SSolver.update, RK23SSolver.stages, RK23SSolver.nextValue, ofField_ofFn, ok_bind,
      multiplyScalarByVector_ofFn, addVectors_ofFn, except_pure]
    rfl
  · intro i
    fin_cases i <;> norm_num [tableauRK23S, Fin.sum_univ_succ, k1, k2, k3, RK23SSolver.alpha2, RK23SSolver.alpha3,
      RK23SSolver.beta21, RK23SSolver.beta31, RK23SSolver.beta32]
  · norm_num [tableauRK23S, Fin.sum_univ_succ, RK23SSolver.p1, RK23SSolver.p2, RK23SSolver.p3]

theorem dispd_refines (scheme : DISPDSolver.SchemeParams ℝ) :
    Refines (fun F t y h => DISPDSolver.update scheme (ofField F) t (List.ofFn y) h) (tableauDISPD scheme) := by
  intro n F t y h
  let k1 := h • F t y
  let k2 := h • F t (y + (2.0 / 3.0 : ℝ) • k1)
  let k3 := h • F t (y + (1.0 / 3.0 : ℝ) • k1 + (1.0 / 3.0 : ℝ) • k2)
  refine ⟨y + (scheme.p1 • k1 + (scheme.p2 • k2 + scheme.p3 • k3)), ?_, ![k1, k2, k3], ?_, ?_⟩
  · simp only [DISPDSolver.update, DISPDSolver.computeKTerms, DISPDSolver.nextValue, ofField_ofFn, ok_bind,
      multiplyScalarByVector_ofFn, addVectors_ofFn, except_pure]
    rfl
  · intro i
    fin_cases i <;> norm_num [tableauDISPD, Fin.sum_univ_succ, k1, k2, k3, add_assoc]
  · simp [tableauDISPD, Fin.sum_univ_succ]

theorem steks_refines : Refines (fun F t y h => STEKSSolver.update (ofField F) t (List.ofFn y) h) tableauSTEKS := by
  intro n F t y h
  let k1 := h • F t y
  let k2 := h • F (t + h / 3.0) (y + (1.0 / 3.0 : ℝ) • k1)
  let k3 := h • F (t + h / 3.0) (y + (1.0 / 6.0 : ℝ) • k1 + (1.0 / 6.0 : ℝ) • k2)
  let k4 := h • F (t + h / 2.0) (y + (1.0 / 8.0 : ℝ) • k1 + (3.0 / 8.0 : ℝ) • k3)
  let k5 := h • F (t + h) (y + (0.5 : ℝ) • k1 + (-1.5 : ℝ) • k3 + (2.0 : ℝ) • k4)
  refine ⟨y + (1.0 / 6.0 : ℝ) • k1 + ((2.0 / 3.0 : ℝ) • k4 + (1.0 / 6.0 : ℝ) • k5), ?_, ![k1, k2, k3, k4, k5], ?_, ?_⟩
  · simp -implicitDefEqProofs only [STEKSSolver.update, STEKSSolver.stages, STEKSSolver.nextValue, ofField_ofFn,
      ok_bind, multiplyScalarByVector_ofFn, addVectors_ofFn, except_pure]
    rfl
  · intro i
    fin_cases i <;> norm_num [tableauSTEKS, Fin.sum_univ_succ, k1, k2, k3, k4, k5, add_assoc, div_eq_inv_mul]
  · norm_num [tableauSTEKS, Fin.sum_univ_succ, add_assoc]

/-! ## DISPF

The stage table B has one row less than there are stages, and its row of stage i is read up to column i - 1. -/

section Dispf

open DISPFSolver

variable {n : ℕ}

/-- the tableau of DISPF with weights p -/
noncomputable def tableauDISPF (p : List ℝ) : Tableau 6 where
  a i j := if i.val = 0 then 0 else ((B.getD (i.val - 1) []).take i.val).getD j.val 0
  c i := if i.val = 0 then 0 else aCoef.getD (i.val - 1) 0
  p j := p.getD j.val 0

theorem foldlM_zip_ofFn {s : ℕ} (w : List ℝ) (K : Fin s → Fin n → ℝ) (i : Fin n) (acc : ℝ) :
    (w.zip (List.ofFn fun j => List.ofFn (K j))).foldlM
        (fun (sum : ℝ) (p : ℝ × Vec ℝ) => do return sum + p.1 * (← read p.2 i.val)) acc =
      .ok (acc + ∑ j : Fin s, w.getD j 0 * K j i) := by
  induction w generalizing s acc with
  | nil => simp
  | cons a w ih =>
    cases s with
    | zero => simp
    | succ s =>
      rw [List.ofFn_succ, List.zip_cons_cons, List.foldlM_cons, read_ofFn, ok_bind, except_pure, ok_bind,
        ih (fun j => K j.succ), Fin.sum_univ_succ]
      simp [add_assoc]

/-- a sum over the columns that have been computed -/
theorem weightedSum_ofFn {w : List ℝ} {k : Stages ℝ} {K : Fin 6 → Fin n → ℝ}
    (hk : ∀ j : Fin 6, j.val < w.length → k j = List.ofFn (K j)) (i : Fin n) :
    weightedSum w k i.val = .ok (∑ j : Fin 6, w.getD j.val 0 * K j i) := by
  have hcols : weightedSum w k i.val = weightedSum w (fun j => List.ofFn (K j)) i.val := weightedSum_congr hk i.val
  rw [hcols, weightedSum, foldlM_zip_ofFn, zero_add]

theorem tableauDISPF_explicit (p : List ℝ) : (tableauDISPF p).Explicit := by
  intro i j hij
  simp only [tableauDISPF]
  split_ifs with h0
  · rfl
  · have hle : i.val ≤ j.val := hij
    rw [List.getD_eq_getElem?_getD, List.getElem?_eq_none ((List.length_take_le _ _).trans hle), Option.getD_none]

variable {F : ℝ → (Fin n → ℝ) → Fin n → ℝ} {t h : ℝ} {y : Fin n → ℝ} {k : Stages ℝ} {K : Fin 6 → Fin n → ℝ}

theorem stagePoint_ofFn (p : List ℝ) {m : Fin 6} (hm : 1 ≤ m.val)
    (hk : ∀ j : Fin 6, j.val < m.val → k j = List.ofFn (K j)) :
    stagePoint (List.ofFn y) k m.val = .ok (List.ofFn (y + ∑ l, (tableauDISPF p).a m l • K l)) := by
  rw [stagePoint, List.length_ofFn]
  refine tabulate_ofFn fun i => ?_
  have hw := weightedSum_ofFn (w := (B.getD (m.val - 1) []).take m.val)
    (fun j hj => hk j (lt_of_lt_of_le hj (List.length_take_le _ _))) i
  rw [read_ofFn, ok_bind, stadScalar, hw, ok_bind, except_pure]
  simp only [tableauDISPF, if_neg (show m.val ≠ 0 by omega), Pi.add_apply, Finset.sum_apply, Pi.smul_apply, smul_eq_mul]

theorem column_ofFn (v : Fin n → ℝ) (h : ℝ) : column n (List.ofFn v) h = .ok (List.ofFn (h • v)) := by
  refine tabulate_ofFn fun i => ?_
  rw [read_ofFn, ok_bind, except_pure, Pi.smul_apply, smul_eq_mul, mul_comm]

/-- the stage loop computes the stages of the tableau, one column after the other -/
theorem stageLoop_ofFn {f : Rhs ℝ} (hf : Computes F f) (p : List ℝ) {m r : ℕ} (hm : 1 ≤ m) (hmr : m + r ≤ 6)
    (hk : ∀ j : Fin 6, j.val < m → k j = List.ofFn (K j)) :
    ∃ (k' : Stages ℝ) (K' : Fin 6 → Fin n → ℝ), stageLoop f t (List.ofFn y) h (List.range' m r) k = .ok k' ∧
      (∀ j : Fin 6, j.val < m → K' j = K j) ∧
      (∀ j : Fin 6, m ≤ j.val → j.val < m + r →
        K' j = h • F (t + (tableauDISPF p).c j * h) (y + ∑ l, (tableauDISPF p).a j l • K' l)) ∧
      ∀ j : Fin 6, j.val < m + r → k' j = List.ofFn (K' j) := by
  induction r generalizing m k K with
  | zero => exact ⟨k, K, rfl, fun _ _ => rfl, fun j h1 h2 => absurd h2 (by omega), hk⟩
  | succ r ih =>
    let i : Fin 6 := ⟨m, by omega⟩
    let new := h • F (t + (tableauDISPF p).c i * h) (y + ∑ l, (tableauDISPF p).a i l • K l)
    have hset : ∀ j : Fin 6, j.val < m + 1 →
        setStage k m (List.ofFn new) j = List.ofFn (Function.update K i new j) := by
      intro j hj
      rcases Nat.lt_succ_iff_lt_or_eq.1 hj with hlt | heq
      · rw [setStage_of_ne k hlt.ne, Function.update_of_ne (Fin.ne_of_val_ne hlt.ne), hk j hlt]
      · rw [show j = i from Fin.ext heq, Function.update_self]
        exact setStage_same k i _
    obtain ⟨k', K', hloop, hold, hnew, hcols⟩ := ih (by omega) (by omega) hset
    have hbefore : ∀ j : Fin 6, j.val < m → K' j = K j := by
      intro j hj
      rw [hold j (by omega), Function.update_of_ne (Fin.ne_of_val_ne hj.ne)]
    refine ⟨k', K', ?_, hbefore, ?_, fun j hj => hcols j (by omega)⟩
    · have hpoint : stagePoint (List.ofFn y) k m = .ok (List.ofFn (y + ∑ l, (tableauDISPF p).a i l • K l)) :=
        stagePoint_ofFn p (m := i) hm hk
      have hc : aCoef.getD (m - 1) 0 = (tableauDISPF p).c i := by
        simp only [tableauDISPF, i, if_neg (show m ≠ 0 by omega)]
      rw [List.range'_succ, stageLoop, hpoint, ok_bind, hf, ok_bind, List.length_ofFn, column_ofFn, hc]
      exact hloop
    · intro j h1 h2
      rcases Nat.eq_or_lt_of_le h1 with heq | hlt
      · have hij : j = i := Fin.ext heq.symm
        subst hij
        rw [hold i (by simp [i]), Function.update_self]
        have hsum : ∑ l, (tableauDISPF p).a i l • K l = ∑ l, (tableauDISPF p).a i l • K' l := by
          refine Finset.sum_congr rfl fun l _ => ?_
          rcases lt_or_ge l.val m with hl | hl
          · rw [hbefore l hl]
          · rw [tableauDISPF_explicit p i l hl, zero_smul, zero_smul]
        rw [← hsum]
      · exact hnew j hlt (by omega)

theorem newPoint_ofFn (p : List ℝ) (hk : ∀ j, k j = List.ofFn (K j)) :
    newPoint (List.ofFn y) k p = .ok (List.ofFn (y + ∑ j, (tableauDISPF p).p j • K j)) := by
  rw [newPoint, List.length_ofFn]
  refine tabulate_ofFn fun i => ?_
  rw [read_ofFn, ok_bind, weightedSum_ofFn (fun j _ => hk j) i, ok_bind, except_pure]
  simp only [tableauDISPF, Pi.add_apply, Finset.sum_apply, Pi.smul_apply, smul_eq_mul]

/-- the stage coefficients of DISPF as a matrix -/
theorem tableauDISPF_a (p : List ℝ) :
    (tableauDISPF p).a = ![![0, 0, 0, 0, 0, 0], ![1.0 / 4.0, 0, 0, 0, 0, 0], ![3.0 / 32.0, 9.0 / 32.0, 0, 0, 0, 0],
      ![1932.0 / 2197.0, -7200.0 / 2197.0, 7296.0 / 2197.0, 0, 0, 0],
      ![439.0 / 216.0, -8.0, 3680.0 / 513.0, -845.0 / 4104.0, 0, 0],
      ![-8.0 / 27.0, 2.0, -3544.0 / 2565.0, 1859.0 / 4104.0, -11.0 / 40.0, 0]] := by
  funext i j
  fin_cases i <;> fin_cases j <;> rfl

theorem tableauDISPF_c_one (p : List ℝ) : (tableauDISPF p).c 1 = 0.25 := by norm_num [tableauDISPF, aCoef]

/-- the second stage uses the first one only -/
theorem tableauDISPF_second (p : List ℝ) (K : Fin 6 → Fin n → ℝ) :
    ∑ l, (tableauDISPF p).a 1 l • K l = (1.0 / 4.0 : ℝ) • K 0 := by
  rw [Fin.sum_univ_succ, Finset.sum_eq_zero fun l _ => ?_, add_zero]
  · rfl
  · rw [tableauDISPF_explicit p 1 l.succ (by rw [Fin.le_def]; simp), zero_smul]

/-- both formulas compute the second stage of the tableau, from the first column -/
theorem secondStage_ofFn {f : Rhs ℝ} (hf : Computes F f) (p : List ℝ) {G : Formula ℝ}
    (hG : G = formulaA ∨ G = formulaB) (hk : k 0 = List.ofFn (K 0)) :
    secondStage G f t (List.ofFn y) h k =
      .ok (List.ofFn (h • F (t + (tableauDISPF p).c 1 * h) (y + ∑ l, (tableauDISPF p).a 1 l • K l))) := by
  have hpoint : G.second (List.ofFn y) k = .ok (List.ofFn (y + ∑ l, (tableauDISPF p).a 1 l • K l)) := by
    rcases hG with rfl | rfl
    · refine stagePoint_ofFn p (m := 1) le_rfl fun j hj => ?_
      have hj0 : j = 0 := Fin.ext (Nat.lt_one_iff.1 hj)
      rw [hj0, hk]
    · rw [tableauDISPF_second]
      simp only [formulaB, List.length_ofFn, hk]
      refine tabulate_ofFn fun i => ?_
      rw [read_ofFn, ok_bind, read_ofFn, ok_bind, except_pure, Pi.add_apply, Pi.smul_apply, smul_eq_mul]
  rw [secondStage, hpoint, ok_bind, hf, ok_bind, List.length_ofFn, column_ofFn, tableauDISPF_c_one]

theorem endDifference_ofFn (a b : Fin n → ℝ) (h : ℝ) :
    endDifference n (List.ofFn a) h (List.ofFn b) = .ok ‖h • a - b‖ := by
  refine maxOver_ofFn fun i => ?_
  rw [read_ofFn, ok_bind, read_ofFn, ok_bind, except_pure, Pi.sub_apply, Pi.smul_apply, smul_eq_mul, mul_comm]

/-- the difference of the embedded formulas -/
theorem embeddedDifference_ofFn (hk : ∀ j, k j = List.ofFn (K j)) :
    embeddedDifference n k = .ok ‖∑ j : Fin 6, ((P36 : List ℝ).getD j 0 - P4.getD j 0) • K j‖ := by
  refine maxOver_ofFn fun i => ?_
  rw [weightedSum_ofFn (fun j _ => hk j) i, ok_bind, except_pure, Finset.sum_apply]
  refine congrArg _ (congrArg _ (Finset.sum_congr rfl fun j _ => ?_))
  rw [Pi.smul_apply, smul_eq_mul]
  fin_cases j <;> rfl

/-- the value of a full matrix is the value of the tableau -/
theorem isStep_of_columns (p : List ℝ) (h0 : K 0 = h • F t y)
    (hK : ∀ j : Fin 6, 1 ≤ j.val →
      K j = h • F (t + (tableauDISPF p).c j * h) (y + ∑ l, (tableauDISPF p).a j l • K l)) :
    (tableauDISPF p).IsStep F t y h (y + ∑ j, (tableauDISPF p).p j • K j) := by
  refine ⟨K, fun j => ?_, rfl⟩
  rcases Nat.eq_zero_or_pos j.val with hj | hj
  · have hj0 : j = 0 := Fin.ext hj
    have hsum : ∑ l, (tableauDISPF p).a j l • K l = 0 := Finset.sum_eq_zero fun l _ => by
      rw [tableauDISPF_explicit p j l (hj0 ▸ Fin.zero_le l), zero_smul]
    have hc : (tableauDISPF p).c j = 0 := if_pos hj
    rw [hsum, hc, zero_mul, add_zero, add_zero, hj0, h0]
  · exact hK j hj

/-- an attempt of StepDISPFA or StepDISPFB from any first stage v -/
theorem trial_ofFn {f : Rhs ℝ} (hf : Computes F f) {G : Formula ℝ} (hG : G = formulaA ∨ G = formulaB)
    (v : Fin n → ℝ) :
    ∃ K : Fin 6 → Fin n → ℝ, K 0 = v ∧
      (∀ j : Fin 6, 1 ≤ j.val →
        K j = h • F (t + (tableauDISPF G.p).c j * h) (y + ∑ l, (tableauDISPF G.p).a j l • K l)) ∧
      trial G f t (List.ofFn y) h (List.ofFn v) =
        .ok (List.ofFn (y + ∑ j, (tableauDISPF G.p).p j • K j),
          List.ofFn (F (t + h) (y + ∑ j, (tableauDISPF G.p).p j • K j)),
          ‖h • F (t + h) (y + ∑ j, (tableauDISPF G.p).p j • K j) - v‖ * G.coef) := by
  let K0 : Fin 6 → Fin n → ℝ := fun _ => v
  let second := h • F (t + (tableauDISPF G.p).c 1 * h) (y + ∑ l, (tableauDISPF G.p).a 1 l • K0 l)
  let k0 : Stages ℝ := setStage (fun _ => []) 0 (List.ofFn v)
  have hk0 : k0 0 = List.ofFn (K0 0) := setStage_same (fun _ => []) 0 _
  have hk1 : ∀ j : Fin 6, j.val < 2 →
      setStage k0 1 (List.ofFn second) j = List.ofFn (Function.update K0 1 second j) := by
    intro j hj
    rcases Nat.lt_succ_iff_lt_or_eq.1 hj with hlt | heq
    · have hj0 : j = 0 := Fin.ext (Nat.lt_one_iff.1 hlt)
      rw [hj0, Function.update_of_ne (by decide), setStage_of_ne k0 (by decide), hk0]
    · rw [show j = 1 from Fin.ext heq, Function.update_self]
      exact setStage_same k0 1 _
  obtain ⟨k, K, hloop, hold, hnew, hcols⟩ :=
    stageLoop_ofFn (t := t) (y := y) (h := h) hf G.p (m := 2) (r := 4) (by norm_num) (by norm_num) hk1
  have hall : ∀ j, k j = List.ofFn (K j) := fun j => hcols j j.isLt
  have hK0 : K 0 = v := by rw [hold 0 (by decide), Function.update_of_ne (by decide)]
  refine ⟨K, hK0, fun j hj => ?_, ?_⟩
  · rcases Nat.eq_or_lt_of_le hj with heq | hlt
    · have hj1 : j = 1 := Fin.ext heq.symm
      rw [hj1, hold 1 (by decide), Function.update_self, tableauDISPF_second, hK0]
      simp only [second, tableauDISPF_second, K0]
    · exact hnew j hlt j.isLt
  · rw [show List.range' 2 4 = [2, 3, 4, 5] from rfl] at hloop
    have hend : endPoint G f t (List.ofFn y) h k =
        .ok (List.ofFn (y + ∑ j, (tableauDISPF G.p).p j • K j),
          List.ofFn (F (t + h) (y + ∑ j, (tableauDISPF G.p).p j • K j)),
          ‖h • F (t + h) (y + ∑ j, (tableauDISPF G.p).p j • K j) - v‖ * G.coef) := by
      rw [endPoint, newPoint_ofFn G.p hall, ok_bind, hf, ok_bind, List.length_ofFn, hall 0, hK0, endDifference_ofFn,
        ok_bind, except_pure]
    rw [trial, secondStage_ofFn hf G.p hG hk0, ok_bind, hloop]
    dsimp only
    rw [hend]

theorem trial_refines (p : List ℝ) {G : Formula ℝ} (hG : G = formulaA ∨ G = formulaB) (hp : G.p = p) :
    Refines (fun F t y h => (·.1) <$> trial G (ofField F) t (List.ofFn y) h (List.ofFn (h • F t y)))
      (tableauDISPF p) := by
  intro n F t y h
  subst hp
  obtain ⟨K, hK0, hK, htrial⟩ := trial_ofFn (t := t) (h := h) (y := y) (ofField_ofFn F) hG (h • F t y)
  refine ⟨y + ∑ j, (tableauDISPF G.p).p j • K j, ?_, isStep_of_columns G.p hK0 hK⟩
  change (·.1) <$> trial G (ofField F) t (List.ofFn y) h (List.ofFn (h • F t y)) = _
  rw [htrial, except_map]

theorem dispfA_refines :
    Refines (fun F t y h => (·.1) <$> trial formulaA (ofField F) t (List.ofFn y) h (List.ofFn (h • F t y)))
      (tableauDISPF P72) :=
  trial_refines P72 (Or.inl rfl) rfl

theorem dispfB_refines :
    Refines (fun F t y h => (·.1) <$> trial formulaB (ofField F) t (List.ofFn y) h (List.ofFn (h • F t y)))
      (tableauDISPF P28) :=
  trial_refines P28 (Or.inr rfl) rfl

theorem calcVn_ofFn (hall : ∀ j, k j = List.ofFn (K j)) : ∃ vn, calcVn k = .ok vn := by
  obtain ⟨vn, hvn⟩ := maxOver_ok (n := n) (g := fun i => do
    let d := (← read (k 1) i) - (← read (k 0) i)
    let d := if |d| < 1e-15 then 1e-15 else d
    return |(32.0 * (← read (k 2) i) - 48.0 * (← read (k 1) i) + 16.0 * (← read (k 0) i)) / d|) fun i => by
      simp only [hall, read_ofFn, ok_bind, except_pure, Except.ok.injEq, exists_eq']
  refine ⟨vn / 9.0, ?_⟩
  rw [calcVn, show (k 0).length = n by rw [hall, List.length_ofFn], hvn, ok_bind, except_pure]

theorem dispfC_refines :
    Refines (fun F t y h => (·.1) <$> trialC (ofField F) t (List.ofFn y) h (List.ofFn (h • F t y)))
      (tableauDISPF P36) := by
  intro n F t y h
  let first := h • F t y
  let K0 : Fin 6 → Fin n → ℝ := fun _ => first
  have hk0 : ∀ j : Fin 6, j.val < 1 → setStage (fun _ => []) 0 (List.ofFn first) j = List.ofFn (K0 j) := by
    intro j hj
    rw [show j = 0 from Fin.ext (Nat.lt_one_iff.1 hj)]
    exact setStage_same (fun _ => []) 0 _
  obtain ⟨k, K, hloop, hold, hnew, hcols⟩ :=
    stageLoop_ofFn (t := t) (y := y) (h := h) (ofField_ofFn F) P36 (m := 1) (r := 5) (by norm_num) (by norm_num) hk0
  have hall : ∀ j, k j = List.ofFn (K j) := fun j => hcols j j.isLt
  have hK0 : K 0 = first := hold 0 (by decide)
  refine ⟨y + ∑ j, (tableauDISPF P36).p j • K j, ?_, isStep_of_columns P36 hK0 fun j hj => hnew j hj j.isLt⟩
  have hd := endDifference_ofFn (F (t + h) (y + ∑ j, (tableauDISPF P36).p j • K j)) first h
  obtain ⟨vn, hvn⟩ := calcVn_ofFn hall
  rw [show List.range' 1 5 = [1, 2, 3, 4, 5] from rfl] at hloop
  have hend : endPointC (ofField F) t (List.ofFn (y + ∑ j, (tableauDISPF P36).p j • K j)) h k =
      .ok (‖h • F (t + h) (y + ∑ j, (tableauDISPF P36).p j • K j) - first‖ * (CA1B * dCoef), vn) := by
    rw [endPointC, ofField_ofFn, ok_bind, List.length_ofFn, hall 0, hK0, hd, ok_bind, hvn, ok_bind, except_pure]
  change (·.1) <$> trialC (ofField F) t (List.ofFn y) h (List.ofFn first) = _
  rw [trialC, hloop]
  dsimp only
  rw [newPoint_ofFn P36 hall, ok_bind, hend, ok_bind, except_pure, except_map]

end Dispf

end OdeClientServer.Tableaux
