/-
The times of the rows, for all methods at once. The simple solvers add the step that comes next to t, so the clock of a
row need not be the one of its attempt; but it goes forward, and no attempt starts at or behind the end of the interval.

- `Before`, `driver_chain`: two consecutive rows of a solver.
- `rows_forward`: the rows of a request that is answered with status success.
-/
import OdeClientServer.Results.Coverage
import OdeClientServer.Results.Trajectory

namespace OdeClientServer.Timeline

open Loop Routers Coverage

/-- the second row is later, and the first one is not at the end yet -/
def Before (tEnd : ℝ) (r r' : ℝ × Vec ℝ) : Prop := r.1 < r'.1 ∧ r.1 < tEnd

/-- **Forward.** The rows begin with the initial values and go forward in time. All but the last one are before the end,
and for the methods that do not give up the last one reaches it. The rows of DISPS are a trajectory of its variants. -/
structure RunsForward (req : SolveRequest ℝ) (rows : List (ℝ × Vec ℝ)) : Prop where
  first : rows.head? = some (req.t0, req.y0)
  increasing : (rows.map Prod.fst).Pairwise (· < ·)
  inside : ∀ r ∈ rows.dropLast, r.1 < req.tEnd
  reaches : req.method ∈ ["ExplicitEuler", "RungeKutta2", "DISPF"] → ∃ r, rows.getLast? = some r ∧ req.tEnd ≤ r.1
  trajectory : req.method = "DISPS" →
    Trajectory.ValidTrajectory req.odeFunction (DISPSSolver.variants req.flags) req.t0 req.y0 req.tEnd rows

variable {tEnd : ℝ} {rows : List (ℝ × Vec ℝ)}

theorem increasing_of_chain (h : rows.IsChain (Before tEnd)) : (rows.map Prod.fst).Pairwise (· < ·) := by
  rw [← List.isChain_iff_pairwise, List.isChain_map]
  exact h.imp fun _ _ hrow => hrow.1

theorem inside_of_chain (h : rows.IsChain (Before tEnd)) : ∀ r ∈ rows.dropLast, r.1 < tEnd := by
  intro r hr
  obtain ⟨i, hi, rfl⟩ := List.mem_iff_getElem.1 hr
  rw [List.length_dropLast] at hi
  rw [List.getElem_dropLast]
  exact (List.isChain_iff_getElem.1 h i (by omega)).2

/-! ## Solvers -/

section Driver

variable {M G : Type} {D : Driver M G ℝ} {J : M → Prop} {t0 stepSize : ℝ} {y0 : Vec ℝ} {m : M} {n : ℕ}
    {s : RunState M G ℝ}

/-- an accepted step starts before the end, and the next step is positive -/
theorem driver_chain (hD : D.Sound J) (hJ : J m) (hstep : 0 < stepSize) (hstops : ∀ m rest h, D.stops m rest h = false)
    (hr : run (D.body tEnd) n (start m t0 y0 stepSize) = .exit s) :
    s.storage.head? = some (t0, y0) ∧ s.storage.IsChain (Before tEnd) := by
  obtain ⟨s1, h1, hb⟩ := run_exit hr
  obtain ⟨rfl, -⟩ := (body_exit_iff hstops s1 s).1 hb
  have hinv := head_inv hD hJ hstep h1
  refine ⟨by rw [List.head?_eq_getElem?]; exact hinv.first, List.isChain_iff_getElem.2 fun i hi => ?_⟩
  obtain ⟨g, -, m', hAttempt, -, h, -, hpos, hclip, -, hh, htime⟩ :=
    hinv.rows i s.storage[i].1 s.storage[i].2 s.storage[i + 1].1 s.storage[i + 1].2
      (List.getElem?_eq_getElem (Nat.lt_of_succ_lt hi)) (List.getElem?_eq_getElem hi)
  constructor
  · rw [htime]
    exact lt_add_of_pos_right _ hh
  · exact sub_pos.1 (hpos.trans_le hclip)

end Driver

/-! ## Requests -/

/-- the methods that do not give up, and DISPS -/
theorem timeline_of_chain {req : SolveRequest ℝ} (hfirst : rows.head? = some (req.t0, req.y0))
    (hchain : rows.IsChain (Before req.tEnd))
    (hreaches : req.method ∈ ["ExplicitEuler", "RungeKutta2", "DISPF"] → Covers req.tEnd 0 rows)
    (htrajectory : req.method = "DISPS" →
      Trajectory.ValidTrajectory req.odeFunction (DISPSSolver.variants req.flags) req.t0 req.y0 req.tEnd rows) :
    RunsForward req rows where
  first := hfirst
  increasing := increasing_of_chain hchain
  inside := inside_of_chain hchain
  reaches hm := by
    obtain ⟨r, hr, hend⟩ := hreaches hm
    exact ⟨r, hr, by rwa [sub_zero] at hend⟩
  trajectory := htrajectory

/-- **Rows of a request.** Whatever the method, the rows of a request with a positive tolerance that is answered with
status success run forward. -/
theorem rows_forward (req : SolveRequest ℝ) (currentScheme : DISPDSolver.SchemeParams ℝ) (fuel n : ℕ)
    (h0 : req.t0 < req.tEnd) (htol : 0 < req.tolerance) (hr : Routers.solve req currentScheme fuel n = .exit rows) :
    RunsForward req rows := by
  have hnot : ∀ {method}, req.method = method → method ∉ ["ExplicitEuler", "RungeKutta2", "DISPF"] →
      req.method ∈ ["ExplicitEuler", "RungeKutta2", "DISPF"] → Covers req.tEnd 0 rows :=
    fun hm hout hin => absurd (hm ▸ hin) hout
  have hother : ∀ {method}, req.method = method → method ≠ "DISPS" → req.method = "DISPS" →
      Trajectory.ValidTrajectory req.odeFunction (DISPSSolver.variants req.flags) req.t0 req.y0 req.tEnd rows :=
    fun hm hne hS => absurd (hm.symm.trans hS) hne
  unfold Routers.solve at hr
  split_ifs at hr with h1 h2 h3 h4 h5 h6 h7
  · obtain ⟨s, hs, rfl⟩ := Pass.map_eq_exit hr
    obtain ⟨hfirst, hchain⟩ := driver_chain (EulerSolver.driver_sound htol) trivial initialStep_pos
      (fun _ _ _ => rfl) hs
    have hcovers := driver_covers (EulerSolver.driver_sound htol) trivial initialStep_pos (fun _ _ _ => rfl)
      (fun h hh => decide_eq_false (not_le.2 hh)) hs
    exact timeline_of_chain hfirst hchain (fun _ => hcovers) (hother h1 (by decide))
  · obtain ⟨s, hs, rfl⟩ := Pass.map_eq_exit hr
    obtain ⟨hfirst, hchain⟩ := driver_chain (RK2Solver.driver_sound htol fuel) trivial initialStep_pos
      (fun _ _ _ => rfl) hs
    have hcovers := driver_covers (RK2Solver.driver_sound htol fuel) trivial initialStep_pos (fun _ _ _ => rfl)
      (fun _ _ => rfl) hs
    exact timeline_of_chain hfirst hchain (fun _ => hcovers) (hother h2 (by decide))
  · obtain ⟨s, hs, rfl⟩ := Pass.map_eq_exit hr
    obtain ⟨hfirst, hchain⟩ := driver_chain (RK23SSolver.driver_sound htol) trivial initialStep_pos
      (fun _ _ _ => rfl) hs
    exact timeline_of_chain hfirst hchain (hnot h3 (by decide)) (hother h3 (by decide))
  · obtain ⟨s, hs, rfl⟩ := Pass.map_eq_exit hr
    obtain ⟨hfirst, hchain⟩ := driver_chain STEKSSolver.driver_sound trivial initialStep_pos (fun _ _ _ => rfl) hs
    exact timeline_of_chain hfirst hchain (hnot h4 (by decide)) (hother h4 (by decide))
  · obtain ⟨s, hs, rfl⟩ := Pass.map_eq_exit hr
    obtain ⟨hfirst, hchain⟩ := driver_chain (DISPDSolver.driver_sound htol) trivial initialStep_pos
      (fun _ _ _ => rfl) hs
    exact timeline_of_chain hfirst hchain (hnot h5 (by decide)) (hother h5 (by decide))
  · obtain ⟨s, hs, rfl⟩ := Pass.map_eq_exit hr
    have hstops : ∀ m rest h, (DISPFSolver.driver (DISPFSolver.config 0 req.I req.J req.K) req.odeFunction
        (req.tolerance * c) fuel).stops m rest h = false := fun m rest h => decide_eq_false fun hh => hh.2.1 rfl
    obtain ⟨hfirst, hchain⟩ := driver_chain (DISPFSolver.driver_sound fuel) trivial initialStep_pos hstops hs
    have hcovers := driver_covers (DISPFSolver.driver_sound fuel) trivial initialStep_pos hstops (fun _ _ => rfl) hs
    exact timeline_of_chain hfirst hchain (fun _ => hcovers) (hother h6 (by decide))
  · rcases DISPSSolver.construct_cases req.flags with ⟨-, hconstruct⟩ | ⟨-, hconstruct⟩
    · rw [hconstruct] at hr
      cases hr
    · rw [hconstruct] at hr
      obtain ⟨s, hs, rfl⟩ := Pass.map_eq_exit hr
      have hinv := DISPSSolver.solve_inv req.odeFunction
        (DISPSSolver.variants req.flags) 0 req.y0 initialStep_pos h0.le htol n
      rw [hs, Pass.state_exit] at hinv
      have hchain := hinv.chain.imp fun r r' hrow => show Before req.tEnd r r' from ⟨hrow.1, hrow.1.trans_le hrow.2.1⟩
      exact timeline_of_chain hinv.first hchain (hnot h7 (by decide)) fun _ =>
        Trajectory.validTrajectory_of_chain hinv.first hinv.chain hinv.within

end OdeClientServer.Timeline
