/-
The rows of a DISPS run. Between two rows there can be up to 30 tries in each pass, any number of passes without an
accepted try, and a switch of the scheme in the middle of a rejection.

- `rows_form_trajectory`: the rows start at (t0, y0), their times increase and stay within the interval, and each
  consecutive pair is one step of one enabled variant over exactly the time between them.
-/
import OdeClientServer.Solvers.DISPSSolver

namespace OdeClientServer.Trajectory

open Loop DISPSSolver

/-- rows that are steps of the variants, one after the other, within the interval -/
structure ValidTrajectory (f : Rhs ℝ) (variants : List (DispsVariant ℝ)) (t0 : ℝ) (y0 : Vec ℝ) (tEnd : ℝ)
    (rows : List (ℝ × Vec ℝ)) : Prop where
  first : rows[0]? = some (t0, y0)
  increasing : (rows.map Prod.fst).Pairwise (· < ·)
  within : ∀ r ∈ rows, r.1 ≤ tEnd
  steps : ∀ i t y t' y', rows[i]? = some (t, y) → rows[i + 1]? = some (t', y') →
    ∃ v ∈ variants, ∃ k, doOneStep f t y (t' - t) v = .ok (y', k)

theorem validTrajectory_of_chain {f : Rhs ℝ} {variants : List (DispsVariant ℝ)} {t0 tEnd : ℝ} {y0 : Vec ℝ}
    {rows : List (ℝ × Vec ℝ)} (hfirst : rows.head? = some (t0, y0)) (hchain : rows.IsChain (RowStep f variants tEnd))
    (hwithin : ∀ r ∈ rows, r.1 ≤ tEnd) : ValidTrajectory f variants t0 y0 tEnd rows where
  first := by rw [← List.head?_eq_getElem?]; exact hfirst
  increasing := by
    rw [← List.isChain_iff_pairwise, List.isChain_map]
    exact hchain.imp fun _ _ h => h.1
  within := hwithin
  steps := by
    intro i t y t' y' h1 h2
    obtain ⟨hi, hr2⟩ := List.getElem?_eq_some_iff.1 h2
    obtain ⟨_, hr1⟩ := List.getElem?_eq_some_iff.1 h1
    have hrow := (List.isChain_iff_getElem.1 hchain) i hi
    rw [hr1, hr2] at hrow
    exact hrow.2.2

/-- **Valid trajectory.** The rows of a run of any length form a valid trajectory of the enabled variants, whatever was
rejected, shrunk or switched in between. -/
theorem rows_form_trajectory (f : Rhs ℝ) (flags : DispsEnabledFlags) (stepSize t0 : ℝ) (y0 : Vec ℝ)
    (tEnd tolerance : ℝ) (n : ℕ) (hstep : 0 < stepSize) (h0 : t0 < tEnd) (htol : 0 < tolerance) :
    ValidTrajectory f (variants flags) t0 y0 tEnd
      (solve f (variants flags) stepSize 0 t0 y0 tEnd tolerance n).state.results := by
  have hinv := solve_inv f (variants flags) 0 y0 hstep h0.le htol n
  exact validTrajectory_of_chain hinv.first hinv.chain hinv.within

/-- the trajectory of y' = y over [0, 1] with one variant of order 1 and one of order 2 -/
theorem rows_form_trajectory_growth :
    ValidTrajectory (fun _ y => .ok y) [disps13, disps25] 0 [1] 1
      (solve (fun _ y => .ok y) [disps13, disps25] 0.001 0 0 [1] 1 1e-6 100).state.results :=
  rows_form_trajectory (fun _ y => .ok y) ⟨true, false, false, true, false, false⟩ 0.001 0 [1] 1 1e-6 100
    (by norm_num) one_pos (by norm_num)

end OdeClientServer.Trajectory
