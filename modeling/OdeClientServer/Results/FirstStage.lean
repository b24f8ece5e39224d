/-
The cached first stage of DISPF. StepDISPFA and StepDISPFB do not compute their first stage. They rely on the first
column of the stage matrix, which has to be h f(t, y) for the t, y and h they start from.

- `leftBy_eq`: what the passes before a loop head have left in that column.
- `entries_current_iff`: the runs in which every entry finds its own first stage.
- `order5_no_entries`: with I = 5 there are no entries.
- `first_entry_stale`: the first entry of a solver that has just been constructed does not.
-/
import OdeClientServer.Solvers.DISPFSolver

namespace OdeClientServer.FirstStage

open Loop DISPFSolver

section Model

variable {R : Type} [Field R] [LinearOrder R]

abbrev State (R : Type) := RunState (Members R) (Attempt R) R

/-- `k[i][0] = f(t, y)[i] * h` -/
def firstStage (f : Rhs R) (t : R) (y : Vec R) (h : R) : Except Exn (Vec R) := do column y.length (← f t y) h

/-- **Current.** The cached first stage of a call is the one of the t, y and h it starts from. -/
def Current (f : Rhs R) (c : Call R) : Prop := firstStage f c.t c.y c.h = .ok c.first

/-- what the passes before the loop head s have left in the first column: zeros before the first pass; after StepDISPFA
and StepDISPFB the stage of the new h at the end t + g.h of the accepted attempt; after StepDISPFC the stage of the
accepted attempt itself, at its start -/
def leftBy (f : Rhs R) (s : State R) : Except Exn (Vec R) :=
  match s.attempts.getLast?, s.storage.dropLast.getLast? with
  | some g, some (t, y) =>
    if g.method = .DISPFC then firstStage f t y g.h else firstStage f (t + g.h) s.y s.h
  | _, _ => .ok (List.replicate s.y.length 0)

/-- what is left in the column is the stage that the next pass needs, with the t, y and clipped h it starts from -/
def Supplied (f : Rhs R) (tEnd : R) (s : State R) : Prop :=
  leftBy f s = firstStage f s.t s.y (if s.t + s.h > tEnd then tEnd - s.t else s.h)

end Model

/-! ## Scaled first stages -/

section Scaled

variable {f : Rhs ℝ} {t h h' : ℝ} {y first first' : Vec ℝ}

theorem column_mul (n : ℕ) (v : Vec ℝ) (h c : ℝ) : column n v (h * c) = List.map (· * c) <$> column n v h := by
  rw [column, column, tabulate, tabulate, map_mapM]
  congr 1
  funext i
  cases read v i with
  | error e => rfl
  | ok x => simp [mul_assoc]

theorem firstStage_mul (f : Rhs ℝ) (t : ℝ) (y : Vec ℝ) (h c : ℝ) :
    firstStage f t y (h * c) = List.map (· * c) <$> firstStage f t y h := by
  unfold firstStage
  cases f t y with
  | error e => rfl
  | ok v => simp only [ok_bind, column_mul]

/-- a retry keeps a first stage current, and a stale one stale -/
theorem firstStage_scaled (hs : DISPFSolver.Scaled first h first' h') :
    firstStage f t y h' = .ok first' ↔ firstStage f t y h = .ok first := by
  obtain ⟨c, hc, -, rfl, rfl⟩ := hs
  have hinj : Function.Injective (List.map (· * c)) := List.map_injective_iff.2 (mul_left_injective₀ hc.ne')
  rw [firstStage_mul]
  constructor
  · intro h1
    cases hf : firstStage f t y h with
    | error e => rw [hf] at h1; cases h1
    | ok v =>
      rw [hf, except_map, Except.ok.injEq] at h1
      rw [hinj h1]
  · intro h1
    rw [h1, except_map]

end Scaled

/-! ## One pass -/

section Pass

variable {cfg : Config ℝ} {f : Rhs ℝ} {tolerance tEnd : ℝ} {fuel : ℕ} {s s' : State ℝ}

/-- a trial value lies in the same dimension, and f there is the value at the end of the attempt -/
theorem trial_end {F : Formula ℝ} {t h : ℝ} {y first y' fEnd : Vec ℝ} {an1 : ℝ}
    (ht : trial F f t y h first = .ok (y', fEnd, an1)) : y'.length = y.length ∧ f (t + h) y' = .ok fEnd := by
  unfold trial at ht
  obtain ⟨col, -, ht⟩ := bind_eq_ok.1 ht
  split at ht
  · cases ht
  · obtain ⟨y0, hy, ht⟩ := bind_eq_ok.1 ht
    obtain ⟨v, hv, ht⟩ := bind_eq_ok.1 ht
    obtain ⟨d, -, ht⟩ := bind_eq_ok.1 ht
    cases ht
    exact ⟨tabulate_length hy, hv⟩

/-- StepDISPFA and StepDISPFB leave the stage of the new h, with f at the end of the accepted attempt -/
theorem abStep_leaves {F : Formula ℝ} {method : Method} {a : Accepted ℝ} {m m' : Members ℝ} {t h h' : ℝ} {y y' : Vec ℝ}
    {g : Attempt ℝ} (hne : method ≠ .DISPFC) (ha : ABStep F method f tolerance m t y h m' y' h' g a) :
    g.method ≠ .DISPFC ∧ firstStage f (t + g.h) y' h' = .ok (m'.k 0) := by
  obtain ⟨hg, -, htrial, -, -⟩ := ha.returned
  obtain ⟨hlen, hend⟩ := trial_end htrial
  refine ⟨hg ▸ hne, ?_⟩
  rw [firstStage, hend, ok_bind, hlen]
  exact ha.first

/-- **What a step leaves in the first column.** -/
theorem step_leaves {m m' : Members ℝ} {t h h' : ℝ} {y y' : Vec ℝ} {g : Attempt ℝ}
    (hs : step cfg f tolerance fuel m t y h = .returned m' y' h' g) :
    (if g.method = .DISPFC then firstStage f t y g.h else firstStage f (t + g.h) y' h') = .ok (m'.k 0) := by
  unfold step at hs
  split at hs
  · obtain ⟨a, -, ha⟩ := stepDISPFA_returned hs
    obtain ⟨hg, hleft⟩ := abStep_leaves (by decide) ha
    rw [if_neg hg, hleft]
  · obtain ⟨a, -, ha⟩ := stepDISPFB_returned hs
    obtain ⟨hg, hleft⟩ := abStep_leaves (by decide) ha
    rw [if_neg hg, hleft]
  · obtain ⟨hg, hk, -, first, an1, hfirst, hscaled, -⟩ := stepDISPFC_returned hs
    rw [if_pos hg, hk]
    exact (firstStage_scaled hscaled).2 hfirst

/-- the record keeps its last row, and tells what is in the first column -/
structure Inv (f : Rhs ℝ) (s : State ℝ) : Prop where
  wf : s.WF
  left : leftBy f s = .ok (s.mem.k 0)

theorem start_inv (f : Rhs ℝ) (I : ℤ) (t0 : ℝ) (y0 : Vec ℝ) (stepSize : ℝ) :
    Inv f (start ((construct I).reset y0.length) t0 y0 stepSize) := by
  refine ⟨start_wf _ _ _ _, ?_⟩
  simp [leftBy, start, construct, Members.reset]

theorem body_inv (hs : Inv f s) (hb : (driver cfg f tolerance fuel).body tEnd s = .next s') : Inv f s' := by
  obtain ⟨-, ⟨m, y, h, g, hstep, rfl⟩ | ⟨e, m, y, h, -, hc, -⟩⟩ := body_next_cases hb
  · refine ⟨record_wf hs.wf m y h g, ?_⟩
    have hrow : (s.storage ++ [(s.t + h, y)]).dropLast.getLast? = some (s.t, s.y) := by
      rw [List.dropLast_concat, hs.wf.last]
    simp only [leftBy, RunState.record, List.getLast?_concat, hrow]
    exact step_leaves hstep
  · exact absurd hc Bool.false_ne_true

/-- **Entries of a pass.** A pass adds current entries only, if and only if it does not enter StepDISPFA or StepDISPFB
or finds its first stage in the matrix. -/
theorem body_current_iff (hs : Inv f s) :
    (∀ c ∈ ((driver cfg f tolerance (fuel + 1)).body tEnd s).state.mem.calls, Current f c) ↔
      (∀ c ∈ s.mem.calls, Current f c) ∧ (s.t < tEnd → s.mem.currentMethod ≠ .DISPFC → Supplied f tEnd s) := by
  rw [body_mem rfl]
  by_cases ht : s.t < tEnd
  · rw [if_pos ht]
    obtain ⟨new, hcalls, hall, hentry⟩ := step_calls cfg f tolerance (fuel + 1) s.mem s.t s.y
      (if s.t + s.h > tEnd then tEnd - s.t else s.h)
    have hmem : ((driver cfg f tolerance (fuel + 1)).step s.mem s.t s.y
        ((driver cfg f tolerance (fuel + 1)).clip s.t s.h tEnd)).mem.calls = s.mem.calls ++ new := hcalls
    rw [hmem, List.forall_mem_append]
    refine and_congr_right fun _ => ?_
    rw [Supplied, hs.left]
    constructor
    · intro hnew _ hm
      exact (hnew _ (hentry (Nat.succ_pos fuel) hm)).symm
    · intro hsup c hc
      obtain ⟨hm, hct, hcy, hscaled⟩ := hall c hc
      rw [Current, hct, hcy]
      exact (firstStage_scaled hscaled).2 (hsup ht hm).symm
  · rw [if_neg ht]
    exact ⟨fun h => ⟨h, fun ht' => absurd ht' ht⟩, fun h => h.1⟩

end Pass

/-! ## Runs -/

/-- **When the cached first stage is current.** In a run of any length of a freshly constructed solver, every entry of
StepDISPFA and StepDISPFB (recursive retries included) finds its own first stage, if and only if each pass that enters
one of them from the loop head finds it there: at the first pass h f(t0, y0) is zero; after StepDISPFA or StepDISPFB the
stage of the new h at the end of the accepted attempt is the one at the recorded time with the clipped h; after
StepDISPFC the stage of the accepted attempt at its start is the one at its end with the clipped new h. -/
theorem entries_current_iff (f : Rhs ℝ) (stepSize t0 : ℝ) (y0 : Vec ℝ) (tEnd tolerance gamma : ℝ) (I J K : ℤ)
    (fuel n : ℕ) :
    (∀ c ∈ (solve (config gamma I J K) (construct I) f stepSize t0 y0 tEnd tolerance (fuel + 1) n).state.mem.calls,
        Current f c) ↔
      ∀ m < n, ∀ s, solve (config gamma I J K) (construct I) f stepSize t0 y0 tEnd tolerance (fuel + 1) m = .next s →
        s.t < tEnd → s.mem.currentMethod ≠ .DISPFC → Supplied f tEnd s := by
  unfold solve
  refine (run_iff_passes (P := fun s : State ℝ => ∀ c ∈ s.mem.calls, Current f c) (start_inv f I t0 y0 stepSize)
    (fun s s' => body_inv) (fun s hs => body_current_iff hs) n).trans (and_iff_right ?_)
  intro c hc
  cases hc

/-- with a fixed order StepDISPFC stays the current method -/
theorem body_method {cfg : Config ℝ} {f : Rhs ℝ} {tolerance tEnd : ℝ} {fuel : ℕ} {s s' : State ℝ}
    (hv : cfg.variableOrder = false) (hs : s.mem.currentMethod = .DISPFC)
    (hb : (driver cfg f tolerance fuel).body tEnd s = .next s') : s'.mem.currentMethod = .DISPFC := by
  obtain ⟨-, ⟨m, y, h, g, hstep, rfl⟩ | ⟨e, m, y, h, -, hc, -⟩⟩ := body_next_cases hb
  · have hC : step cfg f tolerance fuel s.mem s.t s.y ((driver cfg f tolerance fuel).clip s.t s.h tEnd) =
        .returned m y h g := hstep
    rw [step, hs] at hC
    obtain ⟨-, -, hmethod, -⟩ := stepDISPFC_returned hC
    exact (hmethod hv).trans hs
  · exact absurd hc Bool.false_ne_true

/-- **I = 5.** A solver with the fixed order 5 enters neither of the two routines, in a run of any length. -/
theorem order5_no_entries (f : Rhs ℝ) (stepSize t0 : ℝ) (y0 : Vec ℝ) (tEnd tolerance gamma : ℝ) (J K : ℤ) (fuel n : ℕ) :
    (solve (config gamma 5 J K) (construct 5) f stepSize t0 y0 tEnd tolerance fuel n).state.mem.calls = [] := by
  have hpass : ∀ s : State ℝ, s.mem.currentMethod = .DISPFC →
      (((driver (config gamma 5 J K) f tolerance fuel).body tEnd s).state.mem.calls = [] ↔
        s.mem.calls = [] ∧ True) := by
    intro s hs
    rw [and_true, body_mem rfl]
    split_ifs
    · obtain ⟨new, hcalls, hall, -⟩ := step_calls (config gamma 5 J K) f tolerance fuel s.mem s.t s.y
        (if s.t + s.h > tEnd then tEnd - s.t else s.h)
      have hnew : new = [] := List.eq_nil_iff_forall_not_mem.2 fun c hc => (hall c hc).1 hs
      rw [hnew, List.append_nil] at hcalls
      exact iff_of_eq (congrArg (· = []) hcalls)
    · rfl
  unfold solve
  refine (run_iff_passes (P := fun s : State ℝ => s.mem.calls = []) ?_ (fun s s' => body_method rfl) hpass n).2 ⟨?_, ?_⟩
  · rfl
  · rfl
  · intros
    trivial

/-- the first pass enters StepDISPFA or StepDISPFB with the zeros that `k.resize` has filled in, unless I = 5 -/
theorem first_entry (cfg : Config ℝ) (f : Rhs ℝ) {I : ℤ} (hI : I ≠ 5) (stepSize : ℝ) {t0 tEnd : ℝ} (ht : t0 < tEnd)
    (y0 : Vec ℝ) (tolerance : ℝ) (fuel : ℕ) :
    ⟨t0, y0, if t0 + stepSize > tEnd then tEnd - t0 else stepSize, List.replicate y0.length 0⟩ ∈
      (solve cfg (construct I) f stepSize t0 y0 tEnd tolerance (fuel + 1) 1).state.mem.calls := by
  have hone : ∀ s : State ℝ, (run ((driver cfg f tolerance (fuel + 1)).body tEnd) 1 s).state =
      ((driver cfg f tolerance (fuel + 1)).body tEnd s).state := by
    intro s
    simp only [run]
    cases (driver cfg f tolerance (fuel + 1)).body tEnd s <;> rfl
  have hmethod : ((construct I).reset y0.length : Members ℝ).currentMethod ≠ .DISPFC := by
    simp only [construct, Members.reset]
    split_ifs <;> simp
  obtain ⟨new, hcalls, -, hentry⟩ := step_calls cfg f tolerance (fuel + 1) ((construct I).reset y0.length) t0 y0
    (if t0 + stepSize > tEnd then tEnd - t0 else stepSize)
  have hfirst : ((construct I).reset y0.length : Members ℝ).k 0 = List.replicate y0.length 0 := by
    simp [construct, Members.reset]
  rw [solve, hone, body_mem rfl, if_pos (show (start _ t0 y0 stepSize : State ℝ).t < tEnd from ht)]
  refine (congrArg _ hcalls).mpr (List.mem_append_right _ ?_)
  exact hfirst ▸ hentry (Nat.succ_pos fuel) hmethod

/-- **The first entry is stale.** On y' = 1 the first entry of StepDISPFA finds 0 where h f(t, y) is 1. -/
theorem first_entry_stale :
    ⟨0, [0], 1, [0]⟩ ∈ (solve (config 0 0 0 0) (construct 0) (fun _ _ => .ok [1]) 1 0 [0] 1 1 1 1 :
        Pass Exn (State ℝ)).state.mem.calls ∧
      firstStage (fun _ _ => .ok [1]) 0 [0] 1 = .ok [(1 : ℝ)] ∧
      ¬ Current (fun _ _ => .ok [1]) (⟨0, [0], 1, [0]⟩ : Call ℝ) := by
  have hfirst : firstStage (fun _ _ => .ok [1]) 0 [0] 1 = .ok [(1 : ℝ)] := by
    simp [firstStage, column, tabulate, read]
  refine ⟨?_, hfirst, ?_⟩
  · have h := first_entry (config 0 0 0 0) (fun _ _ => .ok [1]) (I := 0) (by decide) 1 one_pos [0] 1 0
    simpa using h
  · rw [Current, hfirst]
    simp

end OdeClientServer.FirstStage
