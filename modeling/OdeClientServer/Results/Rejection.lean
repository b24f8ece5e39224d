/-
Rejected attempts. `Step` reports a rejection by an exception, after it has changed its reference arguments, and the
catch block of `Solve` chooses the next base step. `EulerSolver` and `RK23SSolver` halve the h that `Step` has left;
`STEKSSolver` and `DISPDSolver` halve the base step, whose excess over the remaining interval is cut off again.

- `caught_pass`: what a pass with a caught exception does.
- `rejects_cleanly_iff`: t, y and the rows are never touched. The next attempt is smaller in every run of the first two
  solvers, and in the runs of the others in which no rejected base step is twice the remaining interval or more.
- `steks_repeats`: an attempt of STEKS that is rejected and made again unchanged.
-/
import OdeClientServer.Results.Coverage

namespace OdeClientServer.Rejection

open Loop

variable {M G : Type}

/-! ## Rejections -/

/-- from s the loop calls `Step` and catches its exception -/
def RejectedAt (D : Driver M G ℝ) (tEnd : ℝ) (s : RunState M G ℝ) : Prop :=
  s.t < tEnd ∧ D.tiny (D.clip s.t s.h tEnd) = false ∧
    ∃ e m y h, D.step s.mem s.t s.y (D.clip s.t s.h tEnd) = .threw e m y h ∧ D.catches e = true

/-- the pass from s goes back to the loop head with t, y and the rows as before, and with a smaller next attempt -/
def NoTrace (D : Driver M G ℝ) (tEnd : ℝ) (s : RunState M G ℝ) : Prop :=
  ∃ s', D.body tEnd s = .next s' ∧ s'.t = s.t ∧ s'.y = s.y ∧ s'.storage = s.storage ∧
    D.clip s'.t s'.h tEnd < D.clip s.t s.h tEnd

/-- no rejection of a run leaves a trace or is repeated -/
def RejectsCleanly (D : Driver M G ℝ) (tEnd : ℝ) (s0 : RunState M G ℝ) : Prop :=
  ∀ s, Head (D.body tEnd) s0 s → RejectedAt D tEnd s → NoTrace D tEnd s

/-- no base step that is rejected in a run is twice the remaining interval or more -/
def ShortWhenRejected (D : Driver M G ℝ) (tEnd : ℝ) (s0 : RunState M G ℝ) : Prop :=
  ∀ s, Head (D.body tEnd) s0 s → RejectedAt D tEnd s → s.h < 2 * (tEnd - s.t)

/-- **Caught exception.** The pass goes back to the loop head in the state that the catch block leaves. -/
theorem caught_pass {D : Driver M G ℝ} {tEnd : ℝ} {s : RunState M G ℝ} (hs : RejectedAt D tEnd s) :
    ∃ e m y h, D.step s.mem s.t s.y (D.clip s.t s.h tEnd) = .threw e m y h ∧
      D.body tEnd s = .next { D.rejected s y h with mem := m } := by
  obtain ⟨ht, htiny, e, m, y, h, hstep, hc⟩ := hs
  refine ⟨e, m, y, h, hstep, ?_⟩
  simp only [Driver.body, if_pos ht, htiny, Bool.false_eq_true, if_false, hstep, hc, if_true]

/-! ## The two catch blocks -/

/-- `h = h_attempt * 0.5`: the next attempt is at most half of the rejected one -/
theorem noTrace_of_attempt {D : Driver M G ℝ} {tEnd : ℝ} {s : RunState M G ℝ}
    (hclip : ∀ t h, D.clip t h tEnd = min h (tEnd - t))
    (hrej : ∀ (s : RunState M G ℝ) y h, D.rejected s y h = { s with h := h * 0.5 })
    (hpos : D.tiny (D.clip s.t s.h tEnd) = false → 0 < D.clip s.t s.h tEnd)
    (hle : ∀ e m y h, 0 < D.clip s.t s.h tEnd →
      D.step s.mem s.t s.y (D.clip s.t s.h tEnd) = .threw e m y h → h ≤ D.clip s.t s.h tEnd)
    (hs : RejectedAt D tEnd s) : NoTrace D tEnd s := by
  obtain ⟨e, m, y, h, hstep, hb⟩ := caught_pass hs
  have hattempt := hpos hs.2.1
  have hh := hle e m y h hattempt hstep
  rw [hrej] at hb
  refine ⟨_, hb, rfl, rfl, rfl, ?_⟩
  dsimp only
  rw [hclip s.t (h * 0.5)]
  refine min_lt_of_left_lt ?_
  norm_num
  linarith

/-- `h *= 0.5`: the cut at the end of the interval takes the halving back when h is twice the rest or more -/
theorem noTrace_of_base {D : Driver M G ℝ} {tEnd : ℝ} {s : RunState M G ℝ}
    (hclip : ∀ t h, D.clip t h tEnd = min h (tEnd - t))
    (hrej : ∀ e m y h, D.step s.mem s.t s.y (D.clip s.t s.h tEnd) = .threw e m y h →
      D.rejected s y h = { s with h := s.h * 0.5 })
    (hpos : D.tiny (D.clip s.t s.h tEnd) = false → 0 < D.clip s.t s.h tEnd)
    (hs : RejectedAt D tEnd s) : NoTrace D tEnd s ↔ s.h < 2 * (tEnd - s.t) := by
  obtain ⟨e, m, y, h, hstep, hb⟩ := caught_pass hs
  have hattempt := hpos hs.2.1
  rw [hrej e m y h hstep] at hb
  rw [hclip] at hattempt
  obtain ⟨hh, hrest⟩ := lt_min_iff.1 hattempt
  have hiff : min (s.h * 0.5) (tEnd - s.t) < min s.h (tEnd - s.t) ↔ s.h < 2 * (tEnd - s.t) := by
    have hhalf : s.h * 0.5 = s.h / 2 := by norm_num [div_eq_mul_inv]
    rw [hhalf]
    rcases le_total s.h (2 * (tEnd - s.t)) with hle | hle
    · rw [min_eq_left (by linarith), lt_min_iff]
      constructor <;> intro hlt
      · linarith [hlt.2]
      · exact ⟨by linarith, by linarith⟩
    · rw [min_eq_right (by linarith), min_eq_right (by linarith)]
      exact ⟨fun hlt => absurd hlt (lt_irrefl _), fun hlt => absurd hlt (not_lt.2 hle)⟩
  constructor
  · rintro ⟨s', hb', -, -, -, hlt⟩
    rw [hb] at hb'
    cases hb'
    rw [hclip, hclip] at hlt
    exact hiff.1 hlt
  · intro hlt
    refine ⟨_, hb, rfl, rfl, rfl, ?_⟩
    rw [hclip, hclip]
    exact hiff.2 hlt

theorem rejects_cleanly_of_base {D : Driver M G ℝ} {tEnd : ℝ} {s0 : RunState M G ℝ}
    (h : ∀ s, RejectedAt D tEnd s → (NoTrace D tEnd s ↔ s.h < 2 * (tEnd - s.t))) :
    RejectsCleanly D tEnd s0 ↔ ShortWhenRejected D tEnd s0 :=
  forall_congr' fun s => imp_congr_right fun _ => ⟨fun hn hs => (h s hs).1 (hn hs), fun hn hs => (h s hs).2 (hn hs)⟩

/-! ## The four solvers -/

section Solvers

variable {f : Rhs ℝ} {tolerance tEnd : ℝ}

theorem euler_noTrace (htol : 0 < tolerance) {s : RunState Unit ℝ ℝ}
    (hs : RejectedAt (EulerSolver.driver f tolerance) tEnd s) : NoTrace (EulerSolver.driver f tolerance) tEnd s :=
  noTrace_of_attempt (fun _ _ => rfl) (fun _ _ _ => rfl) (fun h => not_le.1 (of_decide_eq_false h))
    (fun _ _ _ _ hpos hstep => EulerSolver.step_threw_le htol hpos hstep) hs

/-- an attempt that is not below the threshold is positive -/
theorem attempt_pos {h : ℝ} (hh : decide (h < 1e-12) = false) : 0 < h :=
  lt_of_lt_of_le (by norm_num) (not_lt.1 (of_decide_eq_false hh))

theorem rk23s_noTrace (htol : 0 < tolerance) {s : RunState Unit ℝ ℝ}
    (hs : RejectedAt (RK23SSolver.driver f tolerance) tEnd s) : NoTrace (RK23SSolver.driver f tolerance) tEnd s :=
  noTrace_of_attempt (fun _ _ => rfl) (fun _ _ _ => rfl) attempt_pos
    (fun _ _ _ _ hpos hstep => RK23SSolver.step_threw_le htol hpos hstep) hs

theorem steks_noTrace_iff {s : RunState Unit ℝ ℝ} (hs : RejectedAt (STEKSSolver.driver f tolerance) tEnd s) :
    NoTrace (STEKSSolver.driver f tolerance) tEnd s ↔ s.h < 2 * (tEnd - s.t) :=
  noTrace_of_base (fun _ _ => rfl) (fun _ _ _ _ _ => rfl) attempt_pos hs

theorem dispd_noTrace_iff {s : RunState (DISPDSolver.SchemeParams ℝ) (DISPDSolver.Attempt ℝ) ℝ}
    (hs : RejectedAt (DISPDSolver.driver f tolerance) tEnd s) :
    NoTrace (DISPDSolver.driver f tolerance) tEnd s ↔ s.h < 2 * (tEnd - s.t) := by
  refine noTrace_of_base (fun _ _ => rfl) (fun e m y h hstep => ?_) attempt_pos hs
  -- `Solve` hands its own y to `Step`, which changes it only when a try is accepted
  obtain ⟨rfl, -⟩ := DISPDSolver.attemptLoop_threw hstep
  rfl

/-- **Clean rejections.** Which runs of the four solvers reject cleanly. -/
theorem rejects_cleanly_iff (f : Rhs ℝ) (currentScheme : DISPDSolver.SchemeParams ℝ) (stepSize t0 tEnd tolerance : ℝ)
    (y0 : Vec ℝ) (htol : 0 < tolerance) :
    RejectsCleanly (EulerSolver.driver f tolerance) tEnd (start () t0 y0 stepSize) ∧
      RejectsCleanly (RK23SSolver.driver f tolerance) tEnd (start () t0 y0 stepSize) ∧
      (RejectsCleanly (STEKSSolver.driver f tolerance) tEnd (start () t0 y0 stepSize) ↔
        ShortWhenRejected (STEKSSolver.driver f tolerance) tEnd (start () t0 y0 stepSize)) ∧
      (RejectsCleanly (DISPDSolver.driver f tolerance) tEnd
          (start (DISPDSolver.switchScheme currentScheme false) t0 y0 stepSize) ↔
        ShortWhenRejected (DISPDSolver.driver f tolerance) tEnd
          (start (DISPDSolver.switchScheme currentScheme false) t0 y0 stepSize)) := by
  refine ⟨fun s _ hs => euler_noTrace htol hs, fun s _ hs => rk23s_noTrace htol hs, ?_, ?_⟩
  · exact rejects_cleanly_of_base fun s hs => steks_noTrace_iff hs
  · exact rejects_cleanly_of_base fun s hs => dispd_noTrace_iff hs

end Solvers

/-! ## A rejected attempt that is made again

The harmonic oscillator over [0, 0.0005] with the step 0.001 of the server: the base step is twice the interval. -/

section Harmonic

open Coverage STEKSSolver

theorem harmonic_steks_stages :
    ∃ k4 k5, stages (TaskManager.vanDerPol harmonic) 0 [1, 0] 0.0005 =
      .ok ⟨[0, -0.0005], [-(0.0005 ^ 2 / 3), -0.0005], [-(0.0005 ^ 2 / 3), -0.0005 + 0.0005 ^ 3 / 18], k4, k5⟩ ∧
        k4.length = 2 ∧ k5.length = 2 := by
  norm_num [stages, harmonic_rhs, addVectors, multiplyScalarByVector]
  exact ⟨_, _, ⟨rfl, rfl⟩, rfl, rfl⟩

/-- the second component keeps the error far above the tolerance -/
theorem harmonic_steks_error :
    ∃ e, localError (TaskManager.vanDerPol harmonic) 0 [1, 0] 0.0005 = .ok e ∧ 0.001 < e := by
  obtain ⟨k4, k5, hk, h4, h5⟩ := harmonic_steks_stages
  simp only [localError, hk, ok_bind, computeError, subtractVectors, addVectors, multiplyScalarByVector,
    List.length_map, List.length_zipWith, List.length_cons, List.length_nil, h4, h5, ne_eq, not_true_eq_false, if_false,
    except_pure, maxOver, List.range_succ, List.range_zero, List.nil_append, List.cons_append, List.foldlM_cons,
    List.foldlM_nil, read, List.getElem?_cons_zero, List.getElem?_cons_succ]
  norm_num

theorem harmonic_rejected :
    RejectedAt (driver (TaskManager.vanDerPol harmonic) 0.001) 0.0005 (start () 0 [1, 0] 0.001) := by
  have hclip : min (0.001 : ℝ) (0.0005 - 0) = 0.0005 := by norm_num
  obtain ⟨e, he, hlarge⟩ := harmonic_steks_error
  obtain ⟨h', hstep⟩ := step_rejected he hlarge
  refine ⟨by norm_num [start], ?_, .runtimeError "Step rejected", (), [1, 0], h', ?_, rfl⟩
  · simp only [driver, start, hclip]
    norm_num
  · simp only [driver, start, hclip]
    exact hstep

/-- **Repeated attempt.** STEKS rejects its first attempt and makes the same one again. -/
theorem steks_repeats :
    ¬ RejectsCleanly (driver (TaskManager.vanDerPol harmonic) 0.001) 0.0005 (start () 0 [1, 0] 0.001) := by
  intro hclean
  have hlt := (steks_noTrace_iff harmonic_rejected).1 (hclean _ .start harmonic_rejected)
  norm_num [start] at hlt

/-- the same run as an instance of `rejects_cleanly_iff` -/
theorem rejects_cleanly_iff_harmonic :
    ¬ ShortWhenRejected (driver (TaskManager.vanDerPol harmonic) 0.001) 0.0005 (start () 0 [1, 0] 0.001) := by
  intro hshort
  have hclean := (rejects_cleanly_iff (TaskManager.vanDerPol harmonic) ⟨0, 0, 0, 0⟩ 0.001 0 0.0005 0.001 [1, 0]
    (by norm_num)).2.2.1.2 hshort
  have hlt := (steks_noTrace_iff harmonic_rejected).1 (hclean _ .start harmonic_rejected)
  norm_num [start] at hlt

end Harmonic

end OdeClientServer.Rejection
