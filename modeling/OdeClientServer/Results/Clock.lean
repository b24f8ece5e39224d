/-
The clock of the solvers. `Solve` adds to t the h that `Step` leaves in its reference argument. `Step` computes the new
y with one step length and then scales h for the next step, so the time that is recorded with the new y belongs to
another step length.

- `keepsTime_iff`: for a solver whose accepted steps are balanced for exactly the attempts in `Balanced`, a run keeps
  time and state in step if and only if all its accepted attempts are balanced.
- `simple_solvers_keepTime_iff`: the attempts that are balanced for Euler, RK2, RK23S and STEKS.
- `variable_order_solvers_inStep_iff`: the same for DISPD and DISPF, whose accepted attempts follow retries.
- `euler_time_runs_ahead`, `dispd_time_runs_ahead`: runs that record the state of a step 0.001 at the time 0.002, and
  the state of a step 1 at the time 4.
-/
import OdeClientServer.Solvers.EulerSolver
import OdeClientServer.Solvers.RK2Solver
import OdeClientServer.Solvers.RK23SSolver
import OdeClientServer.Solvers.STEKSSolver
import OdeClientServer.Solvers.DISPDSolver
import OdeClientServer.Solvers.DISPFSolver
import OdeClientServer.Solvers.TaskManager

namespace OdeClientServer.Clock

open Loop

variable {M G : Type}

/-- every row carries the state that `Computed` gives for the attempt, at the time of that attempt's step length -/
def InStep (Computed : ℝ → Vec ℝ → G → Vec ℝ → Prop) (len : G → ℝ) (s : RunState M G ℝ) : Prop :=
  s.Rows fun t y g t' y' => Computed t y g y' ∧ t' - t = len g

/-- the recorded times increase strictly and none exceeds tEnd -/
def TimesInOrder (tEnd : ℝ) (s : RunState M G ℝ) : Prop :=
  (s.storage.map Prod.fst).Pairwise (· < ·) ∧ ∀ r ∈ s.storage, r.1 ≤ tEnd

/-- what an accepted step of a solver says about its clock -/
structure Spec (D : Driver M G ℝ) (J : M → Prop) (Computed : ℝ → Vec ℝ → G → Vec ℝ → Prop) (len : G → ℝ)
    (Balanced : ℝ → Vec ℝ → G → Prop) : Prop where
  sound : D.Sound J
  returned : ∀ {m t y h m' y' h' g}, J m → 0 < h → D.step m t y h = .returned m' y' h' g →
    Computed t y g y' ∧ 0 < len g ∧ len g ≤ h ∧ (h' = len g ↔ Balanced t y g)

/-- rows that follow each other in time within the interval -/
theorem times_of_rows {tEnd t0 : ℝ} {y0 : Vec ℝ} {s : RunState M G ℝ} (hfirst : s.storage[0]? = some (t0, y0))
    (h0 : t0 ≤ tEnd) (hrows : s.Rows fun t _ _ t' _ => t < t' ∧ t' ≤ tEnd) : TimesInOrder tEnd s := by
  constructor
  · rw [← List.isChain_iff_pairwise, List.isChain_iff_getElem]
    intro i hi
    rw [List.length_map] at hi
    obtain ⟨_, -, hlt, -⟩ := hrows i _ _ _ _ (List.getElem?_eq_getElem (by omega)) (List.getElem?_eq_getElem hi)
    simpa using hlt
  · intro r hr
    obtain ⟨i, hi, rfl⟩ := List.getElem_of_mem hr
    cases i with
    | zero =>
      rw [List.getElem?_eq_getElem hi, Option.some.injEq] at hfirst
      rw [hfirst]; exact h0
    | succ i =>
      obtain ⟨_, -, -, hle⟩ := hrows i _ _ _ _ (List.getElem?_eq_getElem (by omega)) (List.getElem?_eq_getElem hi)
      exact hle

/-- time and state are in step, and the times stay in order within the interval -/
def KeepsTime (Computed : ℝ → Vec ℝ → G → Vec ℝ → Prop) (len : G → ℝ) (tEnd : ℝ) (s : RunState M G ℝ) : Prop :=
  InStep Computed len s ∧ TimesInOrder tEnd s

/-- every accepted attempt of the run is balanced -/
def AllBalanced (Balanced : ℝ → Vec ℝ → G → Prop) (s : RunState M G ℝ) : Prop :=
  s.Rows fun t y g _ _ => Balanced t y g

section Run

variable {D : Driver M G ℝ} {J : M → Prop} {Computed : ℝ → Vec ℝ → G → Vec ℝ → Prop} {len : G → ℝ}
variable {Balanced : ℝ → Vec ℝ → G → Prop} {m : M} {stepSize t0 tEnd : ℝ}

/-- time and state of a run are in step if and only if its accepted attempts are balanced -/
theorem inStep_iff (hD : Spec D J Computed len Balanced) (hJ : J m) (hstep : 0 < stepSize) (y0 : Vec ℝ) (n : ℕ) :
    InStep Computed len (run (D.body tEnd) n (start m t0 y0 stepSize)).state ↔
      AllBalanced Balanced (run (D.body tEnd) n (start m t0 y0 stepSize)).state := by
  refine RunState.Rows.iff (rows_of_run hD.sound hJ hstep tEnd t0 y0 n) ?_
  rintro t y g t' y' ⟨m, hA, m', h, hJm, hpos, -, hs, -, rfl⟩
  obtain ⟨hc, -, -, hiff⟩ := hD.returned hJm hpos hs
  rw [add_sub_cancel_left, hiff]
  exact and_iff_right hc

/-- a balanced run moves forward and stays within the interval -/
theorem timesInOrder_of_balanced (hD : Spec D J Computed len Balanced) (hJ : J m) (hstep : 0 < stepSize)
    (h0 : t0 < tEnd) (y0 : Vec ℝ) (n : ℕ)
    (hbal : AllBalanced Balanced (run (D.body tEnd) n (start m t0 y0 stepSize)).state) :
    TimesInOrder tEnd (run (D.body tEnd) n (start m t0 y0 stepSize)).state := by
  have hrows := rows_of_run hD.sound hJ hstep tEnd t0 y0 n
  have hfirst : (run (D.body tEnd) n (start m t0 y0 stepSize)).state.storage[0]? = some (t0, y0) := by
    obtain ⟨s1, hs1, hst, -⟩ := run_rows_of_head D tEnd n (start m t0 y0 stepSize)
    rw [hst]
    exact (head_inv hD.sound hJ hstep hs1).first
  refine times_of_rows hfirst h0.le ((hrows.and hbal).imp ?_)
  rintro t y g t' y' ⟨⟨m, hA, m', h, hJm, hpos, hle, hs, hh, rfl⟩, hb⟩
  obtain ⟨-, -, hlen, hiff⟩ := hD.returned hJm hpos hs
  have hh' := hiff.2 hb
  exact ⟨by linarith, by linarith⟩

/-- **Clock of a run.** A run of any length keeps time if and only if every accepted attempt is balanced. -/
theorem keepsTime_iff (hD : Spec D J Computed len Balanced) (hJ : J m) (hstep : 0 < stepSize) (h0 : t0 < tEnd)
    (y0 : Vec ℝ) (n : ℕ) :
    KeepsTime Computed len tEnd (run (D.body tEnd) n (start m t0 y0 stepSize)).state ↔
      AllBalanced Balanced (run (D.body tEnd) n (start m t0 y0 stepSize)).state :=
  ⟨fun h => (inStep_iff hD hJ hstep y0 n).1 h.1,
    fun h => ⟨(inStep_iff hD hJ hstep y0 n).2 h, timesInOrder_of_balanced hD hJ hstep h0 y0 n h⟩⟩

theorem inStep_within_iff (hD : Spec D J Computed len Balanced) (hJ : J m) (hstep : 0 < stepSize) (h0 : t0 < tEnd)
    (y0 : Vec ℝ) (n : ℕ) :
    (InStep Computed len (run (D.body tEnd) n (start m t0 y0 stepSize)).state ∧
        ∀ r ∈ (run (D.body tEnd) n (start m t0 y0 stepSize)).state.storage, r.1 ≤ tEnd) ↔
      AllBalanced Balanced (run (D.body tEnd) n (start m t0 y0 stepSize)).state :=
  ⟨fun h => (inStep_iff hD hJ hstep y0 n).1 h.1,
    fun h => ⟨(inStep_iff hD hJ hstep y0 n).2 h, (timesInOrder_of_balanced hD hJ hstep h0 y0 n h).2⟩⟩

end Run

/-! ## Euler, RK2, RK23S and STEKS

An attempt is its step length here. -/

section Simple

variable {f : Rhs ℝ} {tolerance : ℝ}

theorem euler_spec (htol : 0 < tolerance) :
    Spec (EulerSolver.driver f tolerance) (fun _ => True) (fun t y g y' => EulerSolver.update f t y g = .ok y') id
      fun t y g => EulerSolver.localError f t y g = .ok (0.81 * tolerance - 1e-12) where
  sound := EulerSolver.driver_sound htol
  returned := by
    intro m t y h m' y' h' g _ hh hs
    obtain ⟨hu, rfl, hiff⟩ := EulerSolver.step_clock htol hh hs
    exact ⟨hu, hh, le_rfl, hiff⟩

theorem rk2_spec (htol : 0 < tolerance) (fuel : ℕ) :
    Spec (RK2Solver.driver f tolerance fuel) (fun _ => True) (fun t y g y' => RK2Solver.update f t y g = .ok y') id
      fun t y g => RK2Solver.localError f t y g = .ok (0.729 * tolerance) where
  sound := RK2Solver.driver_sound htol fuel
  returned := by
    intro m t y h m' y' h' g _ hh hs
    exact RK2Solver.step_clock htol hh hs

theorem rk23s_spec (htol : 0 < tolerance) :
    Spec (RK23SSolver.driver f tolerance) (fun _ => True) (fun t y g y' => RK23SSolver.update f t y g = .ok y') id
      fun t y g => RK23SSolver.localError f tolerance t y g = .ok (0.729 * tolerance) where
  sound := RK23SSolver.driver_sound htol
  returned := by
    intro m t y h m' y' h' g _ hh hs
    obtain ⟨hu, rfl, hiff⟩ := RK23SSolver.step_clock htol hh hs
    exact ⟨hu, hh, le_rfl, hiff⟩

theorem steks_spec (htol : 0 < tolerance) :
    Spec (STEKSSolver.driver f tolerance) (fun _ => True) (fun t y g y' => STEKSSolver.update f t y g = .ok y') id
      fun t y g => STEKSSolver.localError f t y g = .ok (0.6561 * tolerance) where
  sound := STEKSSolver.driver_sound
  returned := by
    intro m t y h m' y' h' g _ hh hs
    obtain ⟨hu, rfl, hiff⟩ := STEKSSolver.step_clock htol hh hs
    exact ⟨hu, hh, le_rfl, hiff⟩

end Simple

/-- **When the clock is right.** A run of any length of Euler, RK2, RK23S or STEKS keeps time if and only if every
accepted attempt has the one error for which its growth factor is 1. -/
theorem simple_solvers_keepTime_iff (f : Rhs ℝ) (stepSize t0 : ℝ) (y0 : Vec ℝ) (tEnd tolerance : ℝ) (n fuel : ℕ)
    (hstep : 0 < stepSize) (h0 : t0 < tEnd) (htol : 0 < tolerance) :
    (KeepsTime (fun t y g y' => EulerSolver.update f t y g = .ok y') id tEnd
        (EulerSolver.solve f stepSize t0 y0 tEnd tolerance n).state ↔
      AllBalanced (fun t y g => EulerSolver.localError f t y g = .ok (0.81 * tolerance - 1e-12))
        (EulerSolver.solve f stepSize t0 y0 tEnd tolerance n).state) ∧
    (KeepsTime (fun t y g y' => RK2Solver.update f t y g = .ok y') id tEnd
        (RK2Solver.solve f stepSize t0 y0 tEnd tolerance fuel n).state ↔
      AllBalanced (fun t y g => RK2Solver.localError f t y g = .ok (0.729 * tolerance))
        (RK2Solver.solve f stepSize t0 y0 tEnd tolerance fuel n).state) ∧
    (KeepsTime (fun t y g y' => RK23SSolver.update f t y g = .ok y') id tEnd
        (RK23SSolver.solve f stepSize t0 y0 tEnd tolerance n).state ↔
      AllBalanced (fun t y g => RK23SSolver.localError f tolerance t y g = .ok (0.729 * tolerance))
        (RK23SSolver.solve f stepSize t0 y0 tEnd tolerance n).state) ∧
    (KeepsTime (fun t y g y' => STEKSSolver.update f t y g = .ok y') id tEnd
        (STEKSSolver.solve f stepSize t0 y0 tEnd tolerance n).state ↔
      AllBalanced (fun t y g => STEKSSolver.localError f t y g = .ok (0.6561 * tolerance))
        (STEKSSolver.solve f stepSize t0 y0 tEnd tolerance n).state) :=
  ⟨keepsTime_iff (euler_spec htol) trivial hstep h0 y0 n, keepsTime_iff (rk2_spec htol fuel) trivial hstep h0 y0 n,
    keepsTime_iff (rk23s_spec htol) trivial hstep h0 y0 n, keepsTime_iff (steks_spec htol) trivial hstep h0 y0 n⟩

/-! ## A run of Euler that loses its time -/

/-- the parameters of a constant force: F = 1, everything else 0 -/
def constantForce (name : String) : ℝ := if name = "F" then 1 else 0

theorem constantForce_rhs (t a b : ℝ) : TaskManager.forcedOscillator constantForce t [a, b] = .ok [b, 1] := by
  simp [TaskManager.forcedOscillator, constantForce, read]

theorem euler_constantForce_update :
    EulerSolver.update (TaskManager.forcedOscillator constantForce) 0 [0, 0] 0.001 = .ok [0, 0.001] := by
  rw [EulerSolver.update, constantForce_rhs, ok_bind]
  norm_num [addVectors, multiplyScalarByVector]

theorem euler_constantForce_attempt :
    EulerSolver.attempt (TaskManager.forcedOscillator constantForce) 0 [0, 0] 0.001 =
      .ok ([0, 0.001], 0.5 * 0.001 * 0.001) := by
  have hmax : (maxOver 2 fun i => do return |0.5 * 0.001 * ((← read [(0.001 : ℝ), 1] i) - (← read [0, 1] i))|) =
      .ok (0.5 * 0.001 * 0.001) := by
    norm_num [maxOver, read, List.range_succ]
  rw [EulerSolver.attempt, euler_constantForce_update, ok_bind, constantForce_rhs, ok_bind, constantForce_rhs, ok_bind]
  exact congrArg (· >>= fun error => pure (([0, 0.001] : Vec ℝ), error)) hmax

/-- the growth factor of that attempt is cut off at 2 -/
theorem euler_constantForce_step :
    EulerSolver.step (TaskManager.forcedOscillator constantForce) 1 0 [0, 0] 0.001 =
      .returned () [0, 0.001] (0.001 * 2.0) 0.001 := by
  have hroot : (10 : ℝ) ≤ √(1 / (0.5 * 0.001 * 0.001 + 1e-12)) := by
    refine Real.le_sqrt_of_sq_le ?_
    norm_num
  have hmin : min (EulerSolver.safetyFactor * √(1 / (0.5 * 0.001 * 0.001 + 1e-12))) EulerSolver.maxFactor = 2.0 := by
    refine min_eq_right ?_
    norm_num only [EulerSolver.safetyFactor, EulerSolver.maxFactor] at hroot ⊢
    linarith
  have hle : ¬ (0.5 * 0.001 * 0.001 > (1 : ℝ)) := by norm_num
  rw [EulerSolver.step, euler_constantForce_attempt]
  dsimp only
  rw [if_neg hle, cmath_sqrt, hmin]

theorem euler_constantForce_solve :
    (EulerSolver.solve (TaskManager.forcedOscillator constantForce) 0.001 0 [0, 0] 1 1 1).state =
      ⟨(), 0 + 0.001 * 2.0, [0, 0.001], 0.001 * 2.0, [(0, [0, 0]), (0 + 0.001 * 2.0, [0, 0.001])], [0.001]⟩ := by
  have hmin : min (0.001 : ℝ) (1 - 0) = 0.001 := by norm_num
  simp only [EulerSolver.solve, run, Driver.body, start, EulerSolver.driver, hmin, euler_constantForce_step]
  norm_num [RunState.record]

theorem euler_constantForce_not_keepsTime :
    ¬ KeepsTime (fun t y g y' => EulerSolver.update (TaskManager.forcedOscillator constantForce) t y g = .ok y') id 1
      (EulerSolver.solve (TaskManager.forcedOscillator constantForce) 0.001 0 [0, 0] 1 1 1).state := by
  rw [euler_constantForce_solve]
  intro hk
  obtain ⟨g, hg, -, hlen⟩ := hk.1 0 0 [0, 0] (0 + 0.001 * 2.0) [0, 0.001] rfl rfl
  cases hg
  norm_num at hlen

/-- **The clock runs ahead.** Under a constant force the first accepted step has length 0.001, and its state is recorded
at the time 0.002. -/
theorem euler_time_runs_ahead :
    (EulerSolver.solve (TaskManager.forcedOscillator constantForce) 0.001 0 [0, 0] 1 1 1).state.storage =
        [(0, [0, 0]), (0 + 0.001 * 2.0, [0, 0.001])] ∧
      (EulerSolver.solve (TaskManager.forcedOscillator constantForce) 0.001 0 [0, 0] 1 1 1).state.attempts = [0.001] ∧
      ¬ KeepsTime (fun t y g y' => EulerSolver.update (TaskManager.forcedOscillator constantForce) t y g = .ok y') id 1
        (EulerSolver.solve (TaskManager.forcedOscillator constantForce) 0.001 0 [0, 0] 1 1 1).state :=
  ⟨by rw [euler_constantForce_solve], by rw [euler_constantForce_solve], euler_constantForce_not_keepsTime⟩

/-- the first run of `simple_solvers_keepTime_iff` at that input -/
theorem simple_solvers_keepTime_iff_constantForce :
    ¬ AllBalanced (fun t y g => EulerSolver.localError (TaskManager.forcedOscillator constantForce) t y g =
        .ok (0.81 * 1 - 1e-12))
      (EulerSolver.solve (TaskManager.forcedOscillator constantForce) 0.001 0 [0, 0] 1 1 1).state :=
  fun h => euler_constantForce_not_keepsTime ((simple_solvers_keepTime_iff
    (TaskManager.forcedOscillator constantForce) 0.001 0 [0, 0] 1 1 1 0 (by norm_num) (by norm_num)
    (by norm_num)).1.2 h)

/-! ## DISPD and DISPF

An attempt carries its scheme or formula and its step length, which retries have changed before it was accepted. -/

section VariableOrder

open DISPDSolver in
/-- what an accepted attempt of DISPD computes -/
def DispdComputed (f : Rhs ℝ) (t : ℝ) (y : Vec ℝ) (g : Attempt ℝ) (y' : Vec ℝ) : Prop :=
  update g.scheme f t y g.h = .ok y'

open DISPDSolver in
/-- the worst estimate of the attempt is 0.64 of its limit -/
def DispdBalanced (f : Rhs ℝ) (tolerance t : ℝ) (y : Vec ℝ) (g : Attempt ℝ) : Prop :=
  ∃ a d v, estimates g.scheme f t y g.h = .ok (a, d, v) ∧ worst tolerance g.attempts a d v = 0.64

open DISPFSolver in
/-- what an accepted attempt of DISPF computes -/
def DispfComputed (f : Rhs ℝ) (t : ℝ) (y : Vec ℝ) (g : Attempt ℝ) (y' : Vec ℝ) : Prop :=
  (·.1) <$> g.method.trial f t y g.h g.first = .ok y'

open DISPFSolver in
/-- the end-point estimate An1 of the attempt is the tolerance -/
def DispfBalanced (f : Rhs ℝ) (tolerance t : ℝ) (y : Vec ℝ) (g : Attempt ℝ) : Prop :=
  (·.2) <$> g.method.trial f t y g.h g.first = .ok tolerance

variable {f : Rhs ℝ} {tolerance : ℝ}

theorem dispd_spec (htol : 0 < tolerance) :
    Spec (DISPDSolver.driver f tolerance) (fun _ => True) (DispdComputed f) DISPDSolver.Attempt.h
      (DispdBalanced f tolerance) where
  sound := DISPDSolver.driver_sound htol
  returned := by
    intro c t y h c' y' h' g _ hh hs
    obtain ⟨hc, hg0, hg1, hu, -, a, d, v, hest, ha, hd, hv, -, rfl⟩ := DISPDSolver.attemptLoop_returned htol hh hs
    refine ⟨by rw [DispdComputed, hc]; exact hu, hg0, hg1, ?_⟩
    rw [mul_eq_left₀ hg0.ne', DISPDSolver.factor_eq_one htol ha hd hv, DispdBalanced, hc]
    constructor
    · exact fun h => ⟨a, d, v, hest, h⟩
    · rintro ⟨a', d', v', hest', h⟩
      cases hest.symm.trans hest'
      exact h

theorem dispf_spec (cfg : DISPFSolver.Config ℝ) (htol : 0 < tolerance) (fuel : ℕ) :
    Spec (DISPFSolver.driver cfg f tolerance fuel) (fun _ => True) (DispfComputed f) DISPFSolver.Attempt.h
      (DispfBalanced f tolerance) where
  sound := DISPFSolver.driver_sound fuel
  returned := by
    intro m t y h m' y' h' g _ hh hs
    exact DISPFSolver.step_clock htol hh hs

end VariableOrder

/-- **When the clock is right, variable order.** A run of any length of DISPD or DISPF advances t by the step length of
the accepted attempt, and stays within the interval, if and only if every accepted attempt has growth factor 1. -/
theorem variable_order_solvers_inStep_iff (f : Rhs ℝ) (stepSize t0 : ℝ) (y0 : Vec ℝ) (tEnd tolerance : ℝ)
    (currentScheme : DISPDSolver.SchemeParams ℝ) (gamma : ℝ) (I J K : ℤ) (n fuel : ℕ) (hstep : 0 < stepSize)
    (h0 : t0 < tEnd) (htol : 0 < tolerance) :
    (InStep (DispdComputed f) DISPDSolver.Attempt.h
          (DISPDSolver.solve currentScheme f stepSize t0 y0 tEnd tolerance n).state ∧
        (∀ r ∈ (DISPDSolver.solve currentScheme f stepSize t0 y0 tEnd tolerance n).state.storage, r.1 ≤ tEnd) ↔
      AllBalanced (DispdBalanced f tolerance)
        (DISPDSolver.solve currentScheme f stepSize t0 y0 tEnd tolerance n).state) ∧
    (InStep (DispfComputed f) DISPFSolver.Attempt.h
          (DISPFSolver.solve (DISPFSolver.config gamma I J K) (DISPFSolver.construct I) f stepSize t0 y0 tEnd tolerance
            fuel n).state ∧
        (∀ r ∈ (DISPFSolver.solve (DISPFSolver.config gamma I J K) (DISPFSolver.construct I) f stepSize t0 y0 tEnd
          tolerance fuel n).state.storage, r.1 ≤ tEnd) ↔
      AllBalanced (DispfBalanced f tolerance)
        (DISPFSolver.solve (DISPFSolver.config gamma I J K) (DISPFSolver.construct I) f stepSize t0 y0 tEnd tolerance
          fuel n).state) :=
  ⟨inStep_within_iff (dispd_spec htol) trivial hstep h0 y0 n,
    inStep_within_iff (dispf_spec _ htol fuel) trivial hstep h0 y0 n⟩

/-! ## A run of DISPD that loses its time -/

section ConstantForce

open DISPDSolver

/-- the scheme that `Solve` starts with when g was 0 before -/
noncomputable def schemeOfZero : SchemeParams ℝ := switchScheme ⟨0, 0, 0, 0⟩ false

theorem dispd_constantForce_stages :
    computeKTerms (TaskManager.forcedOscillator constantForce) 0 [0, 0] 1 = .ok ([0, 1], [2 / 3, 1], [2 / 3, 1]) := by
  simp [computeKTerms, constantForce_rhs, addVectors, multiplyScalarByVector]
  norm_num

theorem dispd_constantForce_value :
    nextValue schemeOfZero [0, 0] [0, 1] [2 / 3, 1] [2 / 3, 1] = .ok [1 / 2, 1] := by
  simp [nextValue, schemeOfZero, switchScheme, addVectors, multiplyScalarByVector]
  norm_num

theorem dispd_constantForce_estimates :
    estimates schemeOfZero (TaskManager.forcedOscillator constantForce) 0 [0, 0] 1 = .ok (1 / 60, 1 / 60, 0) := by
  have ha : computeAprime schemeOfZero [0, 1] [2 / 3, 1] = .ok (1 / 60) := by
    simp [computeAprime, schemeOfZero, switchScheme, subtractVectors, norm]
    norm_num
  have hd : computeAddoublePrime schemeOfZero 1 [0, 1] (multiplyScalarByVector 1 [1, 1]) = .ok (1 / 60) := by
    simp [computeAddoublePrime, multiplyScalarByVector, schemeOfZero, switchScheme, subtractVectors, norm]
    norm_num
  have hv : computeV [0, 1] [2 / 3, 1] [2 / 3, 1] = .ok (0 : ℝ) := by
    simp [computeV, maxOver, read, List.range_succ]
  simp only [estimates, dispd_constantForce_stages, dispd_constantForce_value, constantForce_rhs, ok_bind, ha, hd, hv,
    except_pure]

theorem dispd_constantForce_step :
    step (TaskManager.forcedOscillator constantForce) 1 schemeOfZero 0 [0, 0] 1 =
      .returned (if shouldSwitchToSchemeB schemeOfZero (1 * 4) 1 then switchScheme schemeOfZero true else schemeOfZero)
        [1 / 2, 1] (1 * 4) ⟨schemeOfZero, 0, 1⟩ := by
  have hw : worst 1 0 (1 / 60) (1 / 60) 0 ≤ 1 / 25 := by norm_num [worst]
  have hu : update schemeOfZero (TaskManager.forcedOscillator constantForce) 0 [0, 0] 1 = .ok [1 / 2, 1] :=
    bind_eq_ok.2 ⟨_, dispd_constantForce_stages, dispd_constantForce_value⟩
  rw [step, attemptLoop, tryStep_accept one_pos hu dispd_constantForce_estimates (hw.trans (by norm_num)),
    factor_eq_four one_pos (by norm_num) (by norm_num) le_rfl hw]

theorem dispd_constantForce_solve :
    (solve ⟨0, 0, 0, 0⟩ (TaskManager.forcedOscillator constantForce) 1 0 [0, 0] 10 1 1).state.storage =
        [(0, [0, 0]), (0 + 1 * 4, [1 / 2, 1])] ∧
      (solve ⟨0, 0, 0, 0⟩ (TaskManager.forcedOscillator constantForce) 1 0 [0, 0] 10 1 1).state.attempts =
        [⟨schemeOfZero, 0, 1⟩] := by
  have hmin : min (1 : ℝ) (10 - 0) = 1 := by norm_num
  rw [solve, show switchScheme (⟨0, 0, 0, 0⟩ : SchemeParams ℝ) false = schemeOfZero from rfl]
  simp only [run, Driver.body, start, driver, hmin, dispd_constantForce_step]
  norm_num [RunState.record]

theorem dispd_constantForce_not_inStep :
    ¬ InStep (DispdComputed (TaskManager.forcedOscillator constantForce)) Attempt.h
      (solve ⟨0, 0, 0, 0⟩ (TaskManager.forcedOscillator constantForce) 1 0 [0, 0] 10 1 1).state := by
  intro hk
  obtain ⟨hst, hat⟩ := dispd_constantForce_solve
  obtain ⟨g, hg, -, hlen⟩ := hk 0 0 [0, 0] (0 + 1 * 4) [1 / 2, 1] (by rw [hst]; rfl) (by rw [hst]; rfl)
  rw [hat] at hg
  cases hg
  norm_num at hlen

/-- **The clock runs ahead, DISPD.** Under a constant force the first accepted attempt has length 1, and its state is
recorded at the time 4. -/
theorem dispd_time_runs_ahead :
    (solve ⟨0, 0, 0, 0⟩ (TaskManager.forcedOscillator constantForce) 1 0 [0, 0] 10 1 1).state.storage =
        [(0, [0, 0]), (0 + 1 * 4, [1 / 2, 1])] ∧
      (solve ⟨0, 0, 0, 0⟩ (TaskManager.forcedOscillator constantForce) 1 0 [0, 0] 10 1 1).state.attempts =
        [⟨schemeOfZero, 0, 1⟩] ∧
      ¬ InStep (DispdComputed (TaskManager.forcedOscillator constantForce)) Attempt.h
        (solve ⟨0, 0, 0, 0⟩ (TaskManager.forcedOscillator constantForce) 1 0 [0, 0] 10 1 1).state :=
  ⟨dispd_constantForce_solve.1, dispd_constantForce_solve.2, dispd_constantForce_not_inStep⟩

/-- the DISPD run of `variable_order_solvers_inStep_iff` at that input -/
theorem variable_order_solvers_inStep_iff_constantForce :
    ¬ AllBalanced (DispdBalanced (TaskManager.forcedOscillator constantForce) 1)
      (solve ⟨0, 0, 0, 0⟩ (TaskManager.forcedOscillator constantForce) 1 0 [0, 0] 10 1 1).state :=
  fun h => dispd_constantForce_not_inStep ((variable_order_solvers_inStep_iff
    (TaskManager.forcedOscillator constantForce) 1 0 [0, 0] 10 1 ⟨0, 0, 0, 0⟩ 0 0 0 0 1 0 one_pos (by norm_num)
    one_pos).1.2 h).1

end ConstantForce

end OdeClientServer.Clock
