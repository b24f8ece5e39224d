/-
How far a request that is answered with status success has been solved. RK23S, STEKS, DISPD and DISPS leave their loop
without an exception when the attempted step is tiny. It is tiny at the end of the interval, and also after enough
rejections anywhere in it.

- `success_covers_iff`: the rows of a successful request reach the end of the interval, up to the threshold of the
  method, always for Euler, RK2 and DISPF, and for the other methods exactly when the step never falls below the
  threshold while more than the threshold is left.
- `rk23s_success_at_t0`: a fast oscillator that is answered with its initial row only.
-/
import OdeClientServer.Server.Routers

namespace OdeClientServer.Coverage

open Loop

/-- the last row is at most `threshold` before tEnd -/
def Covers (tEnd threshold : ℝ) (rows : List (ℝ × Vec ℝ)) : Prop :=
  ∃ r, rows.getLast? = some r ∧ tEnd - threshold ≤ r.1

theorem covers_iff_last {tEnd threshold t : ℝ} {y : Vec ℝ} {rows : List (ℝ × Vec ℝ)}
    (hlast : rows.getLast? = some (t, y)) : Covers tEnd threshold rows ↔ tEnd - threshold ≤ t := by
  constructor
  · rintro ⟨r, hr, hle⟩
    rw [hlast] at hr
    cases hr
    exact hle
  · exact fun h => ⟨(t, y), hlast, h⟩

/-- wherever the loop head is reached with more than the threshold left, the step is at least the threshold -/
def StepsHold {σ : Type} (body : σ → Pass Exn σ) (s0 : σ) (t h : σ → ℝ) (tEnd threshold : ℝ) : Prop :=
  ∀ s, Head body s0 s → threshold < tEnd - t s → threshold ≤ h s

/-! ## The solvers that share the driver -/

section Driver

variable {M G : Type} {D : Driver M G ℝ} {J : M → Prop} {tEnd t0 stepSize threshold : ℝ} {y0 : Vec ℝ} {m : M} {n : ℕ}
variable {s : RunState M G ℝ}

/-- a finished run ends at a loop head whose t and y are the last row -/
theorem exit_at_head (hD : D.Sound J) (hJ : J m) (hstep : 0 < stepSize) (hstops : ∀ m rest h, D.stops m rest h = false)
    (hr : run (D.body tEnd) n (start m t0 y0 stepSize) = .exit s) :
    0 < s.h ∧ s.storage.getLast? = some (s.t, s.y) ∧ (tEnd ≤ s.t ∨ D.tiny (min s.h (tEnd - s.t)) = true) := by
  obtain ⟨s1, h1, hb⟩ := run_exit hr
  obtain ⟨rfl, hend⟩ := (body_exit_iff hstops s1 s).1 hb
  have hinv := head_inv hD hJ hstep h1
  rw [hD.clip_eq] at hend
  exact ⟨hinv.pos, hinv.wf.last, hend⟩

/-- a solver that never gives up covers the interval -/
theorem driver_covers (hD : D.Sound J) (hJ : J m) (hstep : 0 < stepSize) (hstops : ∀ m rest h, D.stops m rest h = false)
    (htiny : ∀ h, 0 < h → D.tiny h = false) (hr : run (D.body tEnd) n (start m t0 y0 stepSize) = .exit s) :
    Covers tEnd 0 s.storage := by
  obtain ⟨hpos, hlast, hend⟩ := exit_at_head hD hJ hstep hstops hr
  rw [covers_iff_last hlast, sub_zero]
  rcases hend with hend | hend
  · exact hend
  · by_contra hlt
    rw [htiny _ (lt_min hpos (sub_pos.2 (not_le.1 hlt)))] at hend
    cases hend

/-- a solver that gives up below a threshold -/
theorem driver_covers_iff (hD : D.Sound J) (hJ : J m) (hstep : 0 < stepSize)
    (hstops : ∀ m rest h, D.stops m rest h = false) (hthr : 0 ≤ threshold)
    (htiny : ∀ h, D.tiny h = true ↔ h < threshold) (hr : run (D.body tEnd) n (start m t0 y0 stepSize) = .exit s) :
    Covers tEnd threshold s.storage ↔
      StepsHold (D.body tEnd) (start m t0 y0 stepSize) RunState.t RunState.h tEnd threshold := by
  rw [covers_iff_last (exit_at_head hD hJ hstep hstops hr).2.1]
  refine exit_near_end_iff hthr (fun s s' => ?_) hr
  rw [body_exit_iff hstops, hD.clip_eq, htiny]

end Driver

/-! ## DISPS -/

section Disps

open DISPSSolver

variable {f : Rhs ℝ} {variants : List (DispsVariant ℝ)} {tEnd tolerance t0 stepSize : ℝ} {y0 : Vec ℝ}

theorem disps_body_exit_iff (s s' : State ℝ) :
    body f variants tEnd tolerance s = .exit s' ↔ s' = s ∧ (tEnd ≤ s.t ∨ min s.stepSize (tEnd - s.t) < 1e-14) := by
  unfold body
  by_cases ht : s.t < tEnd
  · rw [if_pos ht]
    dsimp only
    by_cases htiny : min s.stepSize (tEnd - s.t) < 1e-14
    · rw [if_pos htiny]
      constructor
      · rintro ⟨⟩; exact ⟨rfl, Or.inr htiny⟩
      · rintro ⟨rfl, -⟩; rfl
    · rw [if_neg htiny]
      refine ⟨fun h => ?_, fun h => absurd (h.2.resolve_left (not_le.2 ht)) htiny⟩
      split at h <;> cases h
  · rw [if_neg ht]
    constructor
    · rintro ⟨⟩; exact ⟨rfl, Or.inl (not_lt.1 ht)⟩
    · rintro ⟨rfl, -⟩; rfl

theorem disps_covers_iff {n currentIndex : ℕ} {s : State ℝ} (hstep : 0 < stepSize) (h0 : t0 ≤ tEnd)
    (htol : 0 < tolerance) (hr : solve f variants stepSize currentIndex t0 y0 tEnd tolerance n = .exit s) :
    Covers tEnd 1e-14 s.results ↔ StepsHold (body f variants tEnd tolerance)
      ⟨t0, y0, stepSize, currentIndex, [(t0, y0)]⟩ State.t State.stepSize tEnd 1e-14 := by
  have hinv := solve_inv f variants currentIndex y0 hstep h0 htol n
  rw [hr, Pass.state_exit] at hinv
  rw [covers_iff_last hinv.last]
  exact exit_near_end_iff (by norm_num) disps_body_exit_iff hr

end Disps

/-! ## Requests -/

open Routers

/-- the end-of-interval threshold of a method -/
noncomputable def threshold (method : String) : ℝ :=
  if method = "RK23S" ∨ method = "STEKS" ∨ method = "DISPD" then 1e-12 else if method = "DISPS" then 1e-14 else 0

/-- the step of a method that can give up stays at its threshold or above while more than the threshold is left -/
def KeepsStep (req : SolveRequest ℝ) (currentScheme : DISPDSolver.SchemeParams ℝ) : Prop :=
  if req.method = "RK23S" then
    StepsHold ((RK23SSolver.driver req.odeFunction req.tolerance).body req.tEnd) (start () req.t0 req.y0 initialStep)
      RunState.t RunState.h req.tEnd 1e-12
  else if req.method = "STEKS" then
    StepsHold ((STEKSSolver.driver req.odeFunction req.tolerance).body req.tEnd) (start () req.t0 req.y0 initialStep)
      RunState.t RunState.h req.tEnd 1e-12
  else if req.method = "DISPD" then
    StepsHold ((DISPDSolver.driver req.odeFunction req.tolerance).body req.tEnd)
      (start (DISPDSolver.switchScheme currentScheme false) req.t0 req.y0 initialStep) RunState.t RunState.h req.tEnd
      1e-12
  else if req.method = "DISPS" then
    StepsHold (DISPSSolver.body req.odeFunction (DISPSSolver.variants req.flags) req.tEnd req.tolerance)
      ⟨req.t0, req.y0, initialStep, 0, [(req.t0, req.y0)]⟩ DISPSSolver.State.t DISPSSolver.State.stepSize req.tEnd 1e-14
  else True

theorem initialStep_pos : 0 < (initialStep : ℝ) := by norm_num [initialStep]

/-- **When success means done.** The rows of a request that is answered with status success reach the end of the
interval, up to the threshold of the method, exactly when the method keeps its step. -/
theorem success_covers_iff (req : SolveRequest ℝ) (currentScheme : DISPDSolver.SchemeParams ℝ) (fuel n : ℕ)
    (rows : List (ℝ × Vec ℝ)) (h0 : req.t0 < req.tEnd) (htol : 0 < req.tolerance)
    (hr : Routers.solve req currentScheme fuel n = .exit rows) :
    Covers req.tEnd (threshold req.method) rows ↔ KeepsStep req currentScheme := by
  have hc : 0 < req.tolerance * c := mul_pos htol (by norm_num [c])
  unfold Routers.solve at hr
  split_ifs at hr with h1 h2 h3 h4 h5 h6 h7
  · obtain ⟨s, hs, rfl⟩ := Pass.map_eq_exit hr
    have hcov := driver_covers (EulerSolver.driver_sound htol) trivial initialStep_pos (fun _ _ _ => rfl)
      (fun h hh => decide_eq_false (not_le.2 hh)) hs
    simp only [threshold, KeepsStep, h1, String.reduceEq, or_self, if_false]
    exact iff_true_intro hcov
  · obtain ⟨s, hs, rfl⟩ := Pass.map_eq_exit hr
    have hcov := driver_covers (RK2Solver.driver_sound htol fuel) trivial initialStep_pos (fun _ _ _ => rfl)
      (fun _ _ => rfl) hs
    simp only [threshold, KeepsStep, h2, String.reduceEq, or_self, if_false]
    exact iff_true_intro hcov
  · obtain ⟨s, hs, rfl⟩ := Pass.map_eq_exit hr
    simp only [threshold, KeepsStep, h3, true_or, if_true]
    exact driver_covers_iff (RK23SSolver.driver_sound htol) trivial initialStep_pos (fun _ _ _ => rfl) (by norm_num)
      (fun _ => decide_eq_true_iff) hs
  · obtain ⟨s, hs, rfl⟩ := Pass.map_eq_exit hr
    simp only [threshold, KeepsStep, h4, String.reduceEq, true_or, or_true, if_true, if_false]
    exact driver_covers_iff STEKSSolver.driver_sound trivial initialStep_pos (fun _ _ _ => rfl) (by norm_num)
      (fun _ => decide_eq_true_iff) hs
  · obtain ⟨s, hs, rfl⟩ := Pass.map_eq_exit hr
    simp only [threshold, KeepsStep, h5, String.reduceEq, or_true, if_true, if_false]
    exact driver_covers_iff (DISPDSolver.driver_sound htol) trivial initialStep_pos (fun _ _ _ => rfl) (by norm_num)
      (fun _ => decide_eq_true_iff) hs
  · obtain ⟨s, hs, rfl⟩ := Pass.map_eq_exit hr
    have hcov := driver_covers (DISPFSolver.driver_sound fuel) trivial initialStep_pos
      (fun m rest h => decide_eq_false fun hh => hh.2.1 rfl) (fun _ _ => rfl) hs
    simp only [threshold, KeepsStep, h6, String.reduceEq, or_self, if_false]
    exact iff_true_intro hcov
  · rcases DISPSSolver.construct_cases req.flags with ⟨-, hconstruct⟩ | ⟨-, hconstruct⟩
    · rw [hconstruct] at hr
      cases hr
    · rw [hconstruct] at hr
      obtain ⟨s, hs, rfl⟩ := Pass.map_eq_exit hr
      simp only [threshold, KeepsStep, h7, String.reduceEq, or_self, if_true, if_false]
      exact disps_covers_iff initialStep_pos h0.le htol hs

/-! ## A successful request with one row -/

/-- the parameters of the harmonic oscillator: `VanDerPol` with mu = 0 and p = 1 -/
def harmonic (name : String) : ℝ := if name = "p" then 1 else 0

theorem harmonic_rhs (t a b : ℝ) : TaskManager.vanDerPol harmonic t [a, b] = .ok [b, -a] := by
  simp [TaskManager.vanDerPol, harmonic, read]

section Stiff

open RK23SSolver

/-- a fast oscillator: `VanDerPol` with mu = 0 and p = 1e-30 -/
noncomputable def stiff (name : String) : ℝ := if name = "p" then 1e-30 else 0

theorem stiff_rhs (t a b : ℝ) : TaskManager.vanDerPol stiff t [a, b] = .ok [b, -(1e30 * a)] := by
  have hmu : stiff "mu" = 0 := rfl
  have hp : stiff "p" = 1e-30 := rfl
  norm_num [TaskManager.vanDerPol, hmu, hp, read]
  ring

theorem stiff_stages (t h : ℝ) :
    stages (TaskManager.vanDerPol stiff) t [1, 0] h =
      .ok ([0, -(1e30 * h)], [-(2 / 3 * 1e30 * h ^ 2), -(1e30 * h)],
        [-(2 / 3 * 1e30 * h ^ 2), -(1e30 * h) + 2 / 9 * 1e60 * h ^ 3]) := by
  norm_num [stages, stiff_rhs, addVectors, multiplyScalarByVector, beta21, beta31, beta32]
  refine ⟨?_, ?_, ?_⟩
  · ring
  · constructor <;> ring
  · constructor <;> ring

/-- a ratio of two equal differences is 1 unless they are tiny -/
theorem stiff_ratio {h : ℝ} (hh : 1e-12 ≤ h) :
    3.0 * |2 / 9 * 1e60 * h ^ 3 / (if |2 / 9 * 1e60 * h ^ 3| < 1e-12 then 1e-12 else 2 / 9 * 1e60 * h ^ 3)| = 3 := by
  have hpow : (1e-36 : ℝ) ≤ h ^ 3 := by
    have := pow_le_pow_left₀ (by norm_num) hh 3
    norm_num at this ⊢
    exact this
  have hlarge : (1 : ℝ) ≤ 2 / 9 * 1e60 * h ^ 3 := by
    norm_num at hpow ⊢
    linarith
  rw [if_neg (by rw [abs_of_pos (by linarith)]; norm_num; linarith), div_self (by linarith), abs_one]
  norm_num

/-- the stability ratio of the second component is 3 at every attempt -/
theorem stiff_error {t h : ℝ} (hh : 1e-12 ≤ h) :
    ∃ e, localError (TaskManager.vanDerPol stiff) 1e-3 t [1, 0] h = .ok e ∧ 3 ≤ e := by
  simp only [localError, stiff_stages, ok_bind, computeError, subtractVectors, List.length_cons, List.length_nil,
    ne_eq, not_true_eq_false, if_false, except_pure, stability, maxOver, List.range_succ, List.range_zero,
    List.nil_append, List.cons_append, List.foldlM_cons, List.foldlM_nil, read, List.getElem?_cons_zero,
    List.getElem?_cons_succ]
  refine ⟨_, rfl, le_max_of_le_right (le_max_of_le_right ?_)⟩
  have hd : -(1e30 * h) + 2 / 9 * 1e60 * h ^ 3 - -(1e30 * h) = 2 / 9 * 1e60 * h ^ 3 := by ring
  rw [hd, stiff_ratio hh]

/-- a pass shrinks the step to a tenth and changes nothing else -/
theorem stiff_pass {h : ℝ} (hh : 1e-12 ≤ h) (h1 : h ≤ 1) :
    (driver (TaskManager.vanDerPol stiff) 1e-3).body 1 (start () 0 [1, 0] h) =
      .next (start () 0 [1, 0] (h * 0.1)) := by
  have hclip : min h (1 - 0) = h := min_eq_left (by linarith)
  have htiny : ¬ decide (h < 1e-12) = true := by rw [decide_eq_true_iff]; exact not_lt.2 hh
  obtain ⟨e, he, hle⟩ := stiff_error (t := 0) hh
  have hstep := step_rejected (by norm_num) he (le_trans (by norm_num) hle)
  simp only [Driver.body, driver, start, hclip, hstep, if_neg htiny, zero_lt_one, if_true, Exn.isRuntimeError]
  norm_num [mul_assoc]

/-- after j more tenths the step is below the threshold and the loop is left -/
theorem stiff_run (j : ℕ) (hj : j ≤ 13) :
    run ((driver (TaskManager.vanDerPol stiff) 1e-3).body 1) (j + 1) (start () 0 [1, 0] (1e-13 * 10 ^ j)) =
      .exit (start () 0 [1, 0] 1e-13) := by
  induction j with
  | zero =>
    refine run_succ_exit ?_ 0
    rw [body_exit_iff (fun _ _ _ => rfl)]
    norm_num [start, driver]
  | succ j ih =>
    have hlow : (1e-12 : ℝ) ≤ 1e-13 * 10 ^ (j + 1) := by
      have := one_le_pow₀ (n := j) (by norm_num : (1 : ℝ) ≤ 10)
      rw [pow_succ]
      norm_num at this ⊢
      linarith
    have hhigh : (1e-13 : ℝ) * 10 ^ (j + 1) ≤ 1 := by
      have := pow_le_pow_right₀ (by norm_num : (1 : ℝ) ≤ 10) hj
      norm_num at this ⊢
      linarith
    rw [run_succ_next (stiff_pass hlow hhigh), show (1e-13 : ℝ) * 10 ^ (j + 1) * 0.1 = 1e-13 * 10 ^ j by
      rw [pow_succ]; norm_num; ring]
    exact ih (by omega)

/-- a request for the fast oscillator over [0, 1] with a tolerance of 1e-3 -/
noncomputable def stiffRequest : SolveRequest ℝ where
  method := "RK23S"
  odeFunction := TaskManager.vanDerPol stiff
  t0 := 0
  tEnd := 1
  tolerance := 1e-3
  y0 := [1, 0]
  I := 0
  J := 0
  K := 0
  flags := ⟨false, false, false, false, false, false⟩

theorem stiffRequest_solve (currentScheme : DISPDSolver.SchemeParams ℝ) (fuel : ℕ) :
    Routers.solve stiffRequest currentScheme fuel 11 = .exit [(0, [1, 0])] := by
  have hrun := stiff_run 10 (by norm_num)
  rw [show (1e-13 : ℝ) * 10 ^ 10 = initialStep by norm_num [initialStep]] at hrun
  simp only [Routers.solve, stiffRequest, RK23SSolver.solve, String.reduceEq, if_false, if_true]
  rw [show 11 = 10 + 1 from rfl, hrun]
  rfl

theorem not_covers_initial_row : ¬ Covers 1 1e-12 [((0 : ℝ), ([1, 0] : Vec ℝ))] := by
  rw [covers_iff_last (t := 0) (y := [1, 0]) rfl]
  norm_num

/-- **Success after nothing.** The request returns after ten rejections with its initial row, and is answered with
status success. -/
theorem rk23s_success_at_t0 :
    Routers.solve stiffRequest ⟨0, 0, 0, 0⟩ 0 11 = .exit [(0, [1, 0])] ∧
      ¬ Covers stiffRequest.tEnd (threshold stiffRequest.method) [(0, [1, 0])] := by
  refine ⟨stiffRequest_solve _ _, ?_⟩
  simp only [stiffRequest, threshold, true_or, if_true]
  exact not_covers_initial_row

/-- the same request as an instance of `success_covers_iff` -/
theorem success_covers_iff_stiff : ¬ KeepsStep stiffRequest ⟨0, 0, 0, 0⟩ := by
  intro hkeeps
  have hcov := (success_covers_iff stiffRequest ⟨0, 0, 0, 0⟩ 0 11 [(0, [1, 0])] (by norm_num [stiffRequest])
    (by norm_num [stiffRequest]) (stiffRequest_solve _ _)).2 hkeeps
  simp only [stiffRequest, threshold, true_or, if_true] at hcov
  exact not_covers_initial_row hcov

end Stiff

end OdeClientServer.Coverage
