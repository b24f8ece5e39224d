/-
Linear conservation laws. If a weighted sum of f(t, y) is 0 for all t and y, the weighted sum of the state is the same
in every row that a request records: with every method, however often steps are rejected, retried or switched between
schemes. Each step adds multiples of values of f to its state, also where DISPF takes its first stage from an earlier
step.
-/
import OdeClientServer.Solvers.Levels
import OdeClientServer.Server.Routers

namespace OdeClientServer.Conservation

open Loop Levels Routers

/-- the weighted sum of f(t, y) is 0 wherever f returns -/
def Conserves (w : ℕ → ℝ) (f : Rhs ℝ) : Prop := ∀ t y v, f t y = .ok v → dot w y.length v = 0

theorem Conserves.flat {w : ℕ → ℝ} {f : Rhs ℝ} (hf : Conserves w f) (n : ℕ) : FlatRhs False w n f := by
  intro t y hy
  cases hr : f t y with
  | error e => exact False.elim
  | ok v => exact ⟨hy ▸ hf t y v hr, False.elim⟩

/-- what a run of a solver keeps, read through its rows -/
theorem rows_keep {σ : Type} {rows : σ → List (ℝ × Vec ℝ)} {L : Vec ℝ → Prop} {E : Exn → Prop} {p : Pass Exn σ}
    (hp : (∀ r ∈ rows p.state, L r.2) ∧ ∀ e s, p = .raise e s → E e) :
    (∀ r ∈ (p.map rows).state, L r.2) ∧ ∀ e s, p.map rows = .raise e s → E e := by
  refine ⟨by rw [Pass.state_map]; exact hp.1, fun e a h => ?_⟩
  obtain ⟨s, hs, -⟩ := Pass.map_eq_raise h
  exact hp.2 e s hs

/-- an exception without rows -/
theorem raise_keeps {L : Vec ℝ → Prop} {E : Exn → Prop} {e : Exn} (he : E e) :
    (∀ r ∈ (Pass.raise e ([] : List (ℝ × Vec ℝ))).state, L r.2) ∧
      ∀ e' s, Pass.raise e ([] : List (ℝ × Vec ℝ)) = .raise e' s → E e' :=
  ⟨fun r hr => (List.not_mem_nil hr).elim, fun e' s h => by cases h; exact he⟩

/-- **What a request keeps.** Its rows are on the level of y0, and an exception that ends it is regular. -/
theorem solve_keeps {strict : Prop} {w : ℕ → ℝ} {n : ℕ} {c : ℝ} {req : SolveRequest ℝ}
    (hf : FlatRhs strict w n req.odeFunction) (hy : Level w n c req.y0) (currentScheme : DISPDSolver.SchemeParams ℝ)
    (fuel passes : ℕ) :
    (∀ r ∈ (Routers.solve req currentScheme fuel passes).state, Level w n c r.2) ∧
      ∀ e rows, Routers.solve req currentScheme fuel passes = .raise e rows → Regular strict e := by
  unfold Routers.solve
  split_ifs
  · exact rows_keep (run_keeps (euler_keeps hf) trivial hy _ _ _ _)
  · exact rows_keep (run_keeps (rk2_keeps hf fuel) trivial hy _ _ _ _)
  · exact rows_keep (run_keeps (rk23s_keeps hf) trivial hy _ _ _ _)
  · exact rows_keep (run_keeps (steks_keeps hf) trivial hy _ _ _ _)
  · exact rows_keep (run_keeps (dispd_keeps hf) trivial hy _ _ _ _)
  · rw [DISPFSolver.solve, hy.1]
    exact rows_keep (run_keeps (dispf_keeps hf fuel) (reset_firstFlat req.I n) hy _ _ _ _)
  · rcases DISPSSolver.construct_cases req.flags with ⟨-, hconstruct⟩ | ⟨hne, hconstruct⟩
    · rw [hconstruct]
      exact raise_keeps (regular_runtimeError _)
    · rw [hconstruct]
      have hpos := List.length_pos_iff.2 hne
      exact rows_keep (disps_keeps hf (fun _ v hv => variants_wellFormed hv) (fun _ => hpos) hy _ _ _ _)
  · exact raise_keeps (regular_runtimeError _)

/-! ## RobertsonSystem -/

/-- the three components of RobertsonSystem add up to 0 -/
theorem robertson_conserves (parameters : String → ℝ) :
    Conserves (fun _ => 1) (TaskManager.robertsonSystem parameters) := by
  rintro t (_ | ⟨y0, _ | ⟨y1, _ | ⟨y2, y⟩⟩⟩) v hv
  · cases hv
  · cases hv
  · cases hv
  · cases hv
    simp only [dot, List.length_cons, Finset.sum_range_succ', one_mul, List.getD_cons_succ, List.getD_cons_zero,
      List.getD_nil, Finset.sum_const_zero]
    ring

/-- **Conservation.** The components of RobertsonSystem add up to 0. Whatever weighted sum of f is 0 everywhere, the
weighted sum of the state is the same in every row of a request. -/
theorem weighted_sum_conserved :
    (∀ parameters : String → ℝ, Conserves (fun _ => 1) (TaskManager.robertsonSystem parameters)) ∧
      ∀ (w : ℕ → ℝ) (req : SolveRequest ℝ) (currentScheme : DISPDSolver.SchemeParams ℝ) (fuel passes : ℕ),
        Conserves w req.odeFunction → ∀ r ∈ (Routers.solve req currentScheme fuel passes).state,
          dot w req.y0.length r.2 = dot w req.y0.length req.y0 := by
  refine ⟨robertson_conserves, fun w req currentScheme fuel passes hf r hr => ?_⟩
  have hy : Level w req.y0.length (dot w req.y0.length req.y0) req.y0 := ⟨rfl, rfl⟩
  exact ((solve_keeps (hf.flat req.y0.length) hy currentScheme fuel passes).1 r hr).2

/-- the rates 0.04, 1e4 and 3e7 -/
noncomputable def rates (name : String) : ℝ :=
  if name = "k1" then 0.04 else if name = "k2" then 10000 else if name = "k3" then 30000000 else 0

/-- RobertsonSystem over [0, 40] -/
noncomputable def robertsonRequest : SolveRequest ℝ where
  method := "DISPF"
  odeFunction := TaskManager.robertsonSystem rates
  t0 := 0
  tEnd := 40
  tolerance := 0.001
  y0 := [1, 0, 0]
  I := 0
  J := 0
  K := 0
  flags := ⟨false, false, false, false, false, false⟩

/-- the same request as an instance of `weighted_sum_conserved` -/
theorem weighted_sum_conserved_robertson :
    ∀ r ∈ (Routers.solve robertsonRequest ⟨0, 0, 0, 0⟩ 100 100).state, dot (fun _ => 1) 3 r.2 = 1 := by
  intro r hr
  have hf : Conserves (fun _ => 1) robertsonRequest.odeFunction := robertson_conserves rates
  have hsum := weighted_sum_conserved.2 (fun _ => 1) robertsonRequest ⟨0, 0, 0, 0⟩ 100 100 hf r hr
  have h0 : dot (fun _ => 1) 3 [1, 0, 0] = 1 := by simp [dot, Finset.sum_range_succ]
  exact hsum.trans h0

end OdeClientServer.Conservation
