/-
The stability options J and K of DISPF as the server uses them. It constructs the solver with gamma = 0, and the count
vnBreakCount is raised only when `(h * lambdaEst) / length < gamma`. Neither Jacobian method has a negative estimate,
and h is positive, so the block does nothing. Its estimate evaluates f at perturbed states, so f may be any function
that does not throw at some states of a dimension only; a right-hand side that indexes its state is one
(`task_uniform`).

- `stabilityBlock_idle`: the block leaves members with count 0 as they are.
- `step_quiet`: a step with stability control is a step without it.
- `options_irrelevant`: runs with the same I have the same rows for all J and K, and never count a break or jump.
-/
import OdeClientServer.Solvers.DISPFSolver
import OdeClientServer.Solvers.TaskManager

namespace OdeClientServer.StabilityControl

open Loop DISPFSolver

/-! ## The estimate of the eigenvalue -/

theorem foldl_max_nonneg {α : Type} (g : α → ℝ) (l : List α) {m : ℝ} (hm : 0 ≤ m) :
    0 ≤ l.foldl (fun m i => max m (g i)) m := by
  induction l generalizing m with
  | nil => exact hm
  | cons a l ih => exact ih (le_max_of_le_left hm)

theorem foldl_add_nonneg {α : Type} {g : α → ℝ} (hg : ∀ a, 0 ≤ g a) (l : List α) {s : ℝ} (hs : 0 ≤ s) :
    0 ≤ l.foldl (fun s i => s + g i) s := by
  induction l generalizing s with
  | nil => exact hs
  | cons a l ih => exact ih (add_nonneg hs (hg a))

/-- the result of the power iteration is a norm -/
theorem powerIteration_nonneg (n : ℕ) (J : ℕ → ℕ → ℝ) (iter : ℕ) (x : ℕ → ℝ) {lambda : ℝ} (hl : 0 ≤ lambda) :
    0 ≤ powerIteration n J iter x lambda := by
  induction iter generalizing x lambda with
  | zero => exact hl
  | succ iter ih =>
    unfold powerIteration
    cases hp : powerStep n J x with
    | none => exact hl
    | some p =>
      refine ih p.1 ?_
      simp only [powerStep] at hp
      split_ifs at hp
      cases hp
      exact foldl_max_nonneg _ _ le_rfl

theorem estimate_nonneg {f : Rhs ℝ} {jacobianMethod : ℤ} {t lambda : ℝ} {y : Vec ℝ}
    (h : estimateJacobianEigenvalue f jacobianMethod t y = .ok lambda) : 0 ≤ lambda := by
  obtain ⟨f0, -, h⟩ := bind_eq_ok.1 h
  obtain ⟨columns, -, h⟩ := bind_eq_ok.1 h
  dsimp only at h
  split_ifs at h
  · cases h
    exact div_nonneg (foldl_add_nonneg (fun i => foldl_max_nonneg _ _ le_rfl) _ le_rfl) (Nat.cast_nonneg _)
  · cases h
    exact powerIteration_nonneg _ _ _ _ le_rfl

/-- **Eigenvalue estimate.** On an n-dimensional system it is computed without an exception and is not negative. -/
theorem estimate_ok {n : ℕ} {f : Rhs ℝ} (hf : IsSystem n f) (jacobianMethod : ℤ) (t : ℝ) {y : Vec ℝ}
    (hy : y.length = n) : ∃ lambda, estimateJacobianEigenvalue f jacobianMethod t y = .ok lambda ∧ 0 ≤ lambda := by
  obtain ⟨f0, h0, hlen0⟩ := hf t y hy
  have hcolumns : ∃ columns, ((List.range y.length).mapM fun j => do
      let fPert ← f t (y.modify j (· + 1e-8))
      tabulate y.length fun i => do return ((← read fPert i) - (← read f0 i)) / 1e-8) = .ok columns := by
    refine mapM_ok fun j _ => ?_
    obtain ⟨v, hv, hlen⟩ := hf t (y.modify j (· + 1e-8)) (by rw [List.length_modify, hy])
    obtain ⟨w, hw⟩ := tabulate_ok (n := y.length) (g := fun i => do return ((← read v i) - (← read f0 i)) / 1e-8)
      fun i hi => by
        obtain ⟨a, ha⟩ := read_ok (v := v) (i := i) (by omega)
        obtain ⟨b, hb⟩ := read_ok (v := f0) (i := i) (by omega)
        exact ⟨(a - b) / 1e-8, by rw [ha, hb]; rfl⟩
    exact ⟨w, by rw [hv, ok_bind, hw]⟩
  obtain ⟨columns, hc⟩ := hcolumns
  obtain ⟨lambda, hlambda⟩ : ∃ lambda, estimateJacobianEigenvalue f jacobianMethod t y = .ok lambda := by
    simp only [estimateJacobianEigenvalue, h0, ok_bind, hc]
    split_ifs <;> exact ⟨_, rfl⟩
  exact ⟨lambda, hlambda, estimate_nonneg hlambda⟩

/-! ## The stability block -/

/-- no break has been counted and no jump is due -/
def Idle (m : Members ℝ) : Prop := m.vnBreakCount = 0 ∧ m.jumpToRadau5 = false

section Steps

variable {cfg : Config ℝ} {n : ℕ} {f : Rhs ℝ} {tolerance t h : ℝ} {y : Vec ℝ} {m : Members ℝ}

theorem stabilityBlock_idle {length : ℝ} {jump : ℕ → Bool} (hgamma : cfg.gamma = 0) (hf : IsSystem n f)
    (hy : y.length = n) (hh : 0 < h) (hlength : 0 < length) (hm : Idle m) :
    stabilityBlock cfg f t y h length jump m = .ok m := by
  unfold stabilityBlock
  by_cases hc : cfg.stabilityControlEnabled = true
  · obtain ⟨lambda, he, hnn⟩ := estimate_ok hf cfg.jacobianMethod t hy
    have hnot : ¬ (h * lambda) / length < cfg.gamma := by rw [hgamma]; exact not_lt.2 (by positivity)
    rw [if_pos hc, he, ok_bind, if_neg fun hb => hnot hb.2]
    have hcount : 0 = m.vnBreakCount := hm.1.symm
    rw [hcount]
    rfl
  · rw [if_neg hc]; rfl

/-- the same solver without stability control -/
def quiet (cfg : Config ℝ) : Config ℝ := { cfg with stabilityControlEnabled := false, jacobianMethod := 0 }

theorem stabilityBlock_quiet (length : ℝ) (jump : ℕ → Bool) (m : Members ℝ) :
    stabilityBlock (quiet cfg) f t y h length jump m = .ok m := rfl

/-! ## Steps -/

/-- f returned where the step first called it, so the solver runs on a system of its dimension -/
theorem system_of_column {point col : Vec ℝ} (hf : Uniform f) (hpoint : point.length = y.length)
    (hc : (do column y.length (← f t point) h) = .ok col) : IsSystem y.length f := by
  obtain ⟨v, hv, hc⟩ := bind_eq_ok.1 hc
  rw [← hpoint]
  refine hf t point ⟨v, hv, ?_⟩
  rw [hpoint]
  exact length_of_tabulate hc fun i b hb => (bind_eq_ok.1 hb).imp fun x hx => hx.1

/-- the search for an accepted attempt changes the stage matrix and the record of calls only -/
theorem approach_mem (F : Formula ℝ) (fuel : ℕ) (m : Members ℝ) (h : ℝ) :
    ∃ k calls, (approach F f tolerance t y fuel m h).mem = { m with k := k, calls := calls } := by
  induction fuel generalizing m h with
  | zero => exact ⟨m.k, m.calls, rfl⟩
  | succ fuel ih =>
    unfold approach
    dsimp only
    split
    · exact ⟨_, _, rfl⟩
    · exact ⟨_, _, rfl⟩
    · split
      · exact ⟨_, _, rfl⟩
      · split
        · exact ⟨_, _, rfl⟩
        · split_ifs
          · exact ih _ _
          · exact ⟨_, _, rfl⟩

theorem approach_idle (F : Formula ℝ) (fuel : ℕ) (h : ℝ) (hm : Idle m) :
    Idle (approach F f tolerance t y fuel m h).mem := by
  obtain ⟨k, calls, hmem⟩ := approach_mem F fuel m h
  rw [hmem]
  exact hm

/-- an accepted attempt: f is a system of its dimension, the new point has that dimension, and the step is positive -/
theorem accepted_point {F : Formula ℝ} {fuel : ℕ} {a : Accepted ℝ} (hf : Uniform f) (hF : F.Valid)
    (hsecond : ∀ k p, F.second y k = .ok p → p.length = y.length) (hh : 0 < h)
    (ha : approach F f tolerance t y fuel m h = .accepted a) :
    IsSystem y.length f ∧ a.y0.length = y.length ∧ 0 < a.h := by
  obtain ⟨hspec, -⟩ := approach_accepted hF ha
  refine ⟨?_, trial_length hspec.trial_eq, (hspec.scaled.pos hh).1⟩
  obtain ⟨col, hcol, -⟩ := bind_eq_ok.1 hspec.trial_eq
  obtain ⟨p, hp, hcol⟩ := bind_eq_ok.1 hcol
  exact system_of_column hf (hsecond _ p hp) hcol

theorem acceptA_quiet {a : Accepted ℝ} (hgamma : cfg.gamma = 0) (hf : IsSystem n f) (hy : a.y0.length = n)
    (hh : 0 < a.h) (hm : Idle a.mem) : acceptA cfg f tolerance t y a = acceptA (quiet cfg) f tolerance t y a := by
  have hpos : 0 < a.h * growthFactor tolerance a.an1 := mul_pos hh (growthFactor_pos _ _)
  unfold acceptA
  dsimp only
  split
  · rfl
  · rename_i vn1 first _
    have hm1 : Idle { a.mem with k := setStage a.mem.k 0 first } := hm
    rw [stabilityBlock_idle hgamma hf hy hpos (by norm_num) hm1, stabilityBlock_quiet]
    rfl

theorem acceptB_quiet {a : Accepted ℝ} (hgamma : cfg.gamma = 0) (hf : IsSystem n f) (hy : a.y0.length = n)
    (hh : 0 < a.h) (hm : Idle a.mem) : acceptB cfg f tolerance t y a = acceptB (quiet cfg) f tolerance t y a := by
  have hpos : 0 < a.h * growthFactor tolerance a.an1 := mul_pos hh (growthFactor_pos _ _)
  unfold acceptB
  dsimp only
  split
  · rfl
  · rename_i d vn1 first _
    have hm1 : Idle { a.mem with k := setStage a.mem.k 0 first } := hm
    rw [stabilityBlock_idle hgamma hf hy hpos (by norm_num) hm1, stabilityBlock_quiet]
    dsimp only
    rw [stabilityBlock_idle hgamma hf hy hpos (by norm_num) (by split_ifs <;> exact hm), stabilityBlock_quiet]
    rfl

theorem stepDISPFC_quiet (fuel : ℕ) (hgamma : cfg.gamma = 0) (hf : Uniform f) (hh : 0 < h) (hm : Idle m) :
    stepDISPFC cfg f tolerance fuel m t y h = stepDISPFC (quiet cfg) f tolerance fuel m t y h := by
  unfold stepDISPFC
  split
  · rfl
  · rename_i first hfirst
    have hsys : IsSystem y.length f := system_of_column hf rfl hfirst
    split
    · rfl
    · rfl
    · rename_i k h1 hk
      obtain ⟨hscaled, -⟩ := approachC_ok hk
      have hm1 : Idle { m with k := k } := hm
      dsimp only
      split
      · rfl
      · rename_i y0 hy0
        split
        · rfl
        · rw [stabilityBlock_idle hgamma hsys (tabulate_length hy0) (hscaled.pos hh).1 (by norm_num) hm1,
            stabilityBlock_quiet]
          rfl

/-- **Quiet step.** With gamma = 0 a step with stability control is a step without it. -/
theorem step_quiet (fuel : ℕ) (hgamma : cfg.gamma = 0) (hf : Uniform f) (hh : 0 < h) (hm : Idle m) :
    step cfg f tolerance fuel m t y h = step (quiet cfg) f tolerance fuel m t y h := by
  unfold step
  split
  · unfold stepDISPFA
    split
    · rfl
    · rfl
    · rename_i a ha
      have hidle : Idle (approach formulaA f tolerance t y fuel m h).mem := approach_idle formulaA fuel h hm
      obtain ⟨hsys, hlen, hpos⟩ := accepted_point hf formulaA_valid (fun _ _ => tabulate_length) hh ha
      rw [ha] at hidle
      exact acceptA_quiet hgamma hsys hlen hpos hidle
  · unfold stepDISPFB
    split
    · rfl
    · rfl
    · rename_i a ha
      have hidle : Idle (approach formulaB f tolerance t y fuel m h).mem := approach_idle formulaB fuel h hm
      obtain ⟨hsys, hlen, hpos⟩ := accepted_point hf formulaB_valid (fun _ _ => tabulate_length) hh ha
      rw [ha] at hidle
      exact acceptB_quiet hgamma hsys hlen hpos hidle
  · exact stepDISPFC_quiet fuel hgamma hf hh hm

theorem kept_idle : Kept (quiet cfg) f Idle where
  stages _ h := h
  method _ h := h
  block hs h := by
    rw [stabilityBlock_quiet] at hs
    cases hs
    exact h

theorem step_idle (fuel : ℕ) (hm : Idle m) : Idle (step (quiet cfg) f tolerance fuel m t y h).mem := by
  unfold step
  split
  · have hidle : Idle (approach formulaA f tolerance t y fuel m h).mem := approach_idle formulaA fuel h hm
    unfold stepDISPFA
    cases ha : approach formulaA f tolerance t y fuel m h <;> rw [ha] at hidle
    · exact kept_idle.acceptA hidle
    · exact hidle
    · exact hidle
  · have hidle : Idle (approach formulaB f tolerance t y fuel m h).mem := approach_idle formulaB fuel h hm
    unfold stepDISPFB
    cases ha : approach formulaB f tolerance t y fuel m h <;> rw [ha] at hidle
    · exact kept_idle.acceptB hidle
    · exact hidle
    · exact hidle
  · exact kept_idle.stepDISPFC fuel hm

end Steps

/-! ## Runs -/

section Runs

variable {cfg : Config ℝ} {f : Rhs ℝ} {tolerance tEnd : ℝ} {fuel : ℕ}

/-- the state of a run: idle members and a positive step -/
structure Quiet (s : RunState (Members ℝ) (Attempt ℝ) ℝ) : Prop where
  idle : Idle s.mem
  pos : 0 < s.h

/-- from such a state a pass with stability control is a pass without it -/
theorem body_quiet (hgamma : cfg.gamma = 0) (hf : Uniform f) {s : RunState (Members ℝ) (Attempt ℝ) ℝ} (hs : Quiet s) :
    (driver cfg f tolerance fuel).body tEnd s = (driver (quiet cfg) f tolerance fuel).body tEnd s := by
  refine body_congr rfl rfl rfl rfl rfl fun ht => step_quiet fuel hgamma hf ?_ hs.idle
  have hD : (driver cfg f tolerance fuel).Sound fun _ => True := driver_sound fuel
  rw [hD.clip_eq]
  exact lt_min hs.pos (sub_pos.2 ht)

/-- what a pass of the quiet solver keeps, also when it ends the run -/
theorem body_quiet_idle {s : RunState (Members ℝ) (Attempt ℝ) ℝ} (hs : Idle s.mem) :
    Idle ((driver (quiet cfg) f tolerance fuel).body tEnd s).state.mem := by
  rw [body_mem rfl]
  split_ifs
  · exact step_idle fuel hs
  · exact hs

theorem body_quiet_next {s s' : RunState (Members ℝ) (Attempt ℝ) ℝ} (hs : Quiet s)
    (hb : (driver (quiet cfg) f tolerance fuel).body tEnd s = .next s') : Quiet s' := by
  have hidle : Idle s'.mem := by
    have h := @body_quiet_idle cfg f tolerance tEnd fuel s hs.idle
    rwa [hb] at h
  rcases body_next (driver_sound fuel) trivial hs.pos hb with ⟨m, y, h, g, rfl, -, hh, -⟩ | ⟨-, hh, -⟩
  · exact ⟨hidle, hh⟩
  · exact ⟨hidle, hh⟩

theorem reset_quiet (m : Members ℝ) (t0 : ℝ) (y0 : Vec ℝ) {stepSize : ℝ} (hh : 0 < stepSize) :
    Quiet (start (m.reset y0.length) t0 y0 stepSize : RunState (Members ℝ) (Attempt ℝ) ℝ) :=
  ⟨⟨rfl, rfl⟩, hh⟩

/-- with gamma = 0 a run with stability control is the run without it -/
theorem solve_quiet (hgamma : cfg.gamma = 0) (hf : Uniform f) (m : Members ℝ) (t0 : ℝ) (y0 : Vec ℝ) {stepSize : ℝ}
    (hh : 0 < stepSize) (passes : ℕ) :
    solve cfg m f stepSize t0 y0 tEnd tolerance fuel passes =
      solve (quiet cfg) m f stepSize t0 y0 tEnd tolerance fuel passes := by
  refine (run_congr (reset_quiet m t0 y0 hh) (fun s s' hs hb => body_quiet_next hs hb) (fun s hs => ?_) passes).symm
  exact (body_quiet hgamma hf hs).symm

/-- **Options without effect.** Whatever J and K are, the run is the same, and every state it leaves has counted no
break and is not due to jump. -/
theorem options_irrelevant (hf : Uniform f) (I J K J' K' : ℤ) (t0 : ℝ) (y0 : Vec ℝ) {stepSize : ℝ} (hh : 0 < stepSize)
    (passes : ℕ) :
    solve (config 0 I J K) (construct I) f stepSize t0 y0 tEnd tolerance fuel passes =
        solve (config 0 I J' K') (construct I) f stepSize t0 y0 tEnd tolerance fuel passes ∧
      (solve (config 0 I J K) (construct I) f stepSize t0 y0 tEnd tolerance fuel passes).state.mem.vnBreakCount = 0 ∧
      (solve (config 0 I J K) (construct I) f stepSize t0 y0 tEnd tolerance fuel passes).state.mem.jumpToRadau5 =
        false := by
  have hsame : quiet (config 0 I J' K') = quiet (config (0 : ℝ) I J K) := rfl
  rw [@solve_quiet (config 0 I J K) _ _ _ _ rfl hf _ t0 _ _ hh,
    @solve_quiet (config 0 I J' K') _ _ _ _ rfl hf _ t0 _ _ hh,
    hsame]
  refine ⟨rfl, ?_⟩
  exact run_state_invariant (P := fun s => Idle s.mem) (reset_quiet _ t0 y0 hh)
    (fun s s' hs hb => body_quiet_next hs hb)
    (fun s hs => hs.idle) (fun s hs => body_quiet_idle hs.idle) passes

/-- y' = -y -/
def decay : ℝ → (Fin 1 → ℝ) → Fin 1 → ℝ := fun _ y => -y

/-- y' = -y over [0, 1] with step 0.001, with stability control by the first Jacobian method and without -/
theorem options_irrelevant_decay :
    solve (config 0 0 0 1) (construct 0) (ofField decay) 0.001 0 [1] 1 0.001 100 1000 =
      solve (config 0 0 1 0) (construct 0) (ofField decay) 0.001 0 [1] 1 0.001 100 1000 :=
  (options_irrelevant (ofField_uniform decay) 0 0 1 1 0 0 [1] (by norm_num) 1000).1

/-- the right-hand sides of the server index their state without a check, and are uniform -/
theorem task_uniform {parameters : String → ℝ} {name : String} (hf : TaskManager.getTask parameters name = .ok f) :
    Uniform f := by
  have hd := TaskManager.getTask_indexes hf
  rintro t y ⟨v, hv, hle⟩ t' y' hy'
  rcases Nat.lt_or_ge y.length (TaskManager.dimension name) with hshort | hlong
  · rw [hd.short t y hshort] at hv
    cases hv
  · obtain ⟨v', hv', hlen⟩ := hd.ok t' y' (by omega)
    obtain ⟨w, hw, hlen'⟩ := hd.ok t y hlong
    cases hv.symm.trans hw
    exact ⟨v', hv', by omega⟩

end Runs

end OdeClientServer.StabilityControl
