/-
What an earlier use leaves in a DISPD solver. `Solve` starts with `switchScheme(false)`, which computes the weights p2
and p3 of scheme A from the g that `currentScheme` holds before, and only then sets g to 0.15. The constructor leaves
`currentScheme` uninitialised, and a run that has switched to scheme B leaves g = 0.

- `rows_agree_iff`: two contents of `currentScheme` give the same rows on every problem exactly when they hold the same
  g.
- `leftover_changes_rows`: the state after one step of y' = -y is 1/2 - g, for the g that was left.
-/
import OdeClientServer.Solvers.DISPDSolver

namespace OdeClientServer.Leftover

open Loop DISPDSolver

/-- scheme A reads g alone of the scheme it replaces -/
theorem switchScheme_congr {c1 c2 : SchemeParams ℝ} (hg : c1.g = c2.g) (toSchemeB : Bool) :
    switchScheme c1 toSchemeB = switchScheme c2 toSchemeB := by
  simp only [switchScheme, hg]

/-! ## One step of y' = -y -/

/-- y' = -y -/
def decay : Rhs ℝ := fun _ y => .ok (y.map (- ·))

theorem decay_stages : computeKTerms decay 0 [1] 1 = .ok ([-1], [-(1 / 3)], [-(5 / 9)]) := by
  simp [computeKTerms, decay, addVectors, multiplyScalarByVector]
  norm_num

theorem decay_value (c : SchemeParams ℝ) :
    nextValue (switchScheme c false) [1] [-1] [-(1 / 3)] [-(5 / 9)] = .ok [1 / 2 - c.g] := by
  simp [nextValue, switchScheme, addVectors, multiplyScalarByVector]
  norm_num
  ring

theorem decay_estimates (c : SchemeParams ℝ) :
    estimates (switchScheme c false) decay 0 [1] 1 = .ok (1 / 60, |1 / 2 + c.g| / 60, 1) := by
  have ha : computeAprime (switchScheme c false) [-1] [-(1 / 3)] = .ok (1 / 60) := by
    simp [computeAprime, switchScheme, subtractVectors, norm]
    norm_num
  have hd : computeAddoublePrime (switchScheme c false) 1 [-1] (multiplyScalarByVector 1 [-(1 / 2 - c.g)]) =
      .ok (|1 / 2 + c.g| / 60) := by
    have hdiff : 1 * (1 * -(1 / 2 - c.g)) - -1 = 1 / 2 + c.g := by ring
    simp only [computeAddoublePrime, multiplyScalarByVector, subtractVectors, List.map_cons, List.map_nil,
      List.length_cons, List.length_nil, ne_eq, not_true_eq_false, if_false, List.zipWith_cons_cons,
      List.zipWith_nil_left, hdiff, norm, List.foldl_cons, List.foldl_nil, zero_add, cmath_sqrt,
      Real.sqrt_mul_self_eq_abs, switchScheme, ok_bind, except_pure]
    norm_num
    ring
  have hv : computeV [-1] [-(1 / 3)] [-(5 / 9)] = .ok (1 : ℝ) := by
    simp [computeV, maxOver, read]
    norm_num
  simp only [estimates, decay_stages, decay_value, decay, List.map_cons, List.map_nil, ok_bind, ha, hd, hv, except_pure]

theorem decay_update (c : SchemeParams ℝ) : update (switchScheme c false) decay 0 [1] 1 = .ok [1 / 2 - c.g] :=
  bind_eq_ok.2 ⟨_, decay_stages, decay_value c⟩

/-- with a large tolerance the first attempt is accepted -/
theorem decay_worst {g tolerance : ℝ} (htol : 1 + |g| ≤ tolerance) :
    worst tolerance 0 (1 / 60) (|1 / 2 + g| / 60) 1 ≤ 1 := by
  have hg := abs_nonneg g
  have hpos : 0 < tolerance := by linarith
  have hadd : |1 / 2 + g| ≤ 1 / 2 + |g| := (abs_add_le _ _).trans (by rw [abs_of_pos (by norm_num : (0 : ℝ) < 1 / 2)])
  rw [worst, pow_zero, one_mul, one_mul, one_mul]
  refine max_le (max_le ?_ ?_) (by norm_num)
  · rw [div_le_one hpos]; linarith
  · rw [div_le_one hpos]; linarith

/-- the rows after one pass: the state is 1/2 - g -/
theorem decay_rows (c : SchemeParams ℝ) (tolerance : ℝ) (htol : 1 + |c.g| ≤ tolerance) :
    ∃ t, (solve c decay 1 0 [1] 1 tolerance 1).state.storage = [(0, [1]), (t, [1 / 2 - c.g])] := by
  have hpos : 0 < tolerance := by have := abs_nonneg c.g; linarith
  have hmin : min (1 : ℝ) (1 - 0) = 1 := by norm_num
  have hstep : tryStep (switchScheme c false) decay tolerance 0 [1] 0 1 = _ :=
    tryStep_accept hpos (decay_update c) (decay_estimates c) (decay_worst htol)
  refine ⟨0 + 1 * factor tolerance 0 (1 / 60) (|1 / 2 + c.g| / 60) 1, ?_⟩
  simp only [solve, run, Driver.body, start, driver, hmin, step, attemptLoop, hstep]
  norm_num [RunState.record]

/-! ## Two contents -/

/-- **Rows depend on the leftover g.** Two contents of `currentScheme` give the same rows on every problem and in every
number of passes if and only if they hold the same g. -/
theorem rows_agree_iff (c1 c2 : SchemeParams ℝ) :
    (∀ (f : Rhs ℝ) (stepSize t0 : ℝ) (y0 : Vec ℝ) (tEnd tolerance : ℝ) (n : ℕ), 0 < tolerance →
      (solve c1 f stepSize t0 y0 tEnd tolerance n).state.storage =
        (solve c2 f stepSize t0 y0 tEnd tolerance n).state.storage) ↔ c1.g = c2.g := by
  constructor
  · intro h
    have h1 := abs_nonneg c1.g
    have h2 := abs_nonneg c2.g
    have hrows := h decay 1 0 [1] 1 (1 + |c1.g| + |c2.g|) 1 (by linarith)
    obtain ⟨t1, hr1⟩ := decay_rows c1 (1 + |c1.g| + |c2.g|) (by linarith)
    obtain ⟨t2, hr2⟩ := decay_rows c2 (1 + |c1.g| + |c2.g|) (by linarith)
    rw [hr1, hr2] at hrows
    simp only [List.cons.injEq, Prod.mk.injEq, true_and, and_true] at hrows
    linarith [hrows.2]
  · intro hg f stepSize t0 y0 tEnd tolerance n _
    rw [solve, solve, switchScheme_congr hg false]

/-- **A leftover changes the solution.** A solver that an earlier run has left at scheme B and one with g = 1 record
different rows for y' = -y. -/
theorem leftover_changes_rows :
    (solve ⟨7.0 / 9.0, 16.0 / 81.0, 2.0 / 81.0, 0⟩ decay 1 0 [1] 1 2 1).state.storage ≠
      (solve ⟨0, 0, 0, 1⟩ decay 1 0 [1] 1 2 1).state.storage := by
  intro h
  obtain ⟨t1, h1⟩ := decay_rows ⟨7.0 / 9.0, 16.0 / 81.0, 2.0 / 81.0, 0⟩ 2 (by norm_num)
  obtain ⟨t2, h2⟩ := decay_rows ⟨0, 0, 0, 1⟩ 2 (by norm_num)
  rw [h1, h2] at h
  norm_num at h

end OdeClientServer.Leftover
