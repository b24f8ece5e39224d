/-
The loop that the `Solve` functions of `EulerSolver`, `RK2Solver`, `RK23SSolver`, `STEKSSolver`, `DISPDSolver` and
`DISPFSolver` share. Each computes the next attempt from the base step h and the remaining interval, calls `Step`, adds
the step length that `Step` leaves in its reference argument to t, records the row and goes on. `Driver` collects where
they differ: the clip, the break on a tiny attempt, the exceptions that are caught and what the catch block does.

`Step` changes its reference arguments y and h and the members of the solver also when it throws, so a `StepEnd` carries
them in both cases. Two fields are ghosts, which the source does not keep: the `attempt` of a returned step (with the
step length h that its stages and its new y were computed with) and the list of these beside `storage`.

- `body_next_cases`, `body_next`: a pass back to the loop head records one accepted step or is a caught exception.
- `rows_of_run`: in every run, each pair of consecutive rows comes from one accepted step (`RowStep`).
- `run_keeps`: what every step keeps of the members and the state holds in every row of a run.
- `RunState.Rows.iff`: two properties that agree on accepted steps agree on the rows of every run.
-/
import OdeClientServer.Core.Loop
import OdeClientServer.Solvers.CommonFunctions

namespace OdeClientServer

open Loop

/-! ## Model -/

/-- how a call of `Step` ends; M are the members of the solver, G describes the accepted attempt -/
inductive StepEnd (M G R : Type) where
  | returned (mem : M) (y : Vec R) (h : R) (attempt : G)
  | threw (e : Exn) (mem : M) (y : Vec R) (h : R)
  | starved (mem : M)

/-- the members after a call of `Step`, however it ends -/
def StepEnd.mem {M G R : Type} : StepEnd M G R → M
  | .returned m _ _ _ => m
  | .threw _ m _ _ => m
  | .starved m => m

structure RunState (M G R : Type) where
  mem : M
  t : R
  y : Vec R
  h : R
  /-- `Storage`: the rows recorded so far -/
  storage : List (R × Vec R)
  /-- the accepted attempts, one for each row after the first -/
  attempts : List G

/-- where the `Solve` functions differ -/
structure Driver (M G R : Type) where
  /-- the attempted step, from t, h and tEnd -/
  clip : R → R → R → R
  /-- the attempted steps that end the loop -/
  tiny : R → Bool
  step : M → R → Vec R → R → StepEnd M G R
  /-- the break after `Step`, from the members, tEnd - t and h -/
  stops : M → R → R → Bool
  catches : Exn → Bool
  /-- the catch block, with the y and h that `Step` left in its arguments -/
  rejected : RunState M G R → Vec R → R → RunState M G R

section Model

variable {M G R : Type} [Field R] [LinearOrder R]

/-- the state before the first pass: the initial row is recorded -/
def start (mem : M) (t0 : R) (y0 : Vec R) (stepSize : R) : RunState M G R :=
  ⟨mem, t0, y0, stepSize, [(t0, y0)], []⟩

/-- `t += h; y = ...; storage.Add(t, y)` -/
def RunState.record (s : RunState M G R) (mem : M) (y : Vec R) (h : R) (g : G) : RunState M G R :=
  ⟨mem, s.t + h, y, h, s.storage ++ [(s.t + h, y)], s.attempts ++ [g]⟩

/-- one pass of `while (t < tEnd)` -/
def Driver.body (D : Driver M G R) (tEnd : R) (s : RunState M G R) : Pass Exn (RunState M G R) :=
  if s.t < tEnd then
    let hAttempt := D.clip s.t s.h tEnd
    if D.tiny hAttempt then .exit s
    else
      match D.step s.mem s.t s.y hAttempt with
      | .returned mem y h g =>
        if D.stops mem (tEnd - s.t) h then .exit { s with mem := mem, y := y, h := h }
        else .next (s.record mem y h g)
      | .threw e mem y h =>
        if D.catches e then .next { D.rejected s y h with mem := mem } else .raise e { s with mem := mem }
      | .starved mem => .starved { s with mem := mem }
  else .exit s

/-- P holds of every pair of consecutive rows (t, y), (t', y') and the attempt between them -/
def RunState.Rows (P : R → Vec R → G → R → Vec R → Prop) (s : RunState M G R) : Prop :=
  ∀ i t y t' y', s.storage[i]? = some (t, y) → s.storage[i + 1]? = some (t', y') →
    ∃ g, s.attempts[i]? = some g ∧ P t y g t' y'

end Model

variable {M G : Type}

/-! ## The state and its rows -/

/-- the current t and y are the last row, and each later row has its attempt -/
structure RunState.WF (s : RunState M G ℝ) : Prop where
  last : s.storage.getLast? = some (s.t, s.y)
  count : s.storage.length = s.attempts.length + 1

theorem start_wf (mem : M) (t0 : ℝ) (y0 : Vec ℝ) (h : ℝ) : (start mem t0 y0 h : RunState M G ℝ).WF :=
  ⟨rfl, rfl⟩

theorem record_wf {s : RunState M G ℝ} (hs : s.WF) (mem : M) (y : Vec ℝ) (h : ℝ) (g : G) : (s.record mem y h g).WF :=
  ⟨by simp [RunState.record], by simp [RunState.record, hs.count]⟩

theorem start_rows (P : ℝ → Vec ℝ → G → ℝ → Vec ℝ → Prop) (mem : M) (t0 : ℝ) (y0 : Vec ℝ) (h : ℝ) :
    (start mem t0 y0 h : RunState M G ℝ).Rows P := by
  intro i t y t' y' _ h2
  simp [start] at h2

/-- recording a row adds one consecutive pair -/
theorem record_rows {s : RunState M G ℝ} (hs : s.WF) (P : ℝ → Vec ℝ → G → ℝ → Vec ℝ → Prop) (mem : M) (y : Vec ℝ)
    (h : ℝ) (g : G) (hrows : s.Rows P) (hp : P s.t s.y g (s.t + h) y) : (s.record mem y h g).Rows P := by
  intro i a ya b yb h1 h2
  simp only [RunState.record] at h1 h2 ⊢
  have hi : i + 1 < s.storage.length + 1 := by simpa using (List.getElem?_eq_some_iff.1 h2).1
  have hcount := hs.count
  rw [List.getElem?_append_left (by omega)] at h1
  rcases Nat.lt_or_ge (i + 1) s.storage.length with hlt | hge
  · rw [List.getElem?_append_left hlt] at h2
    obtain ⟨g', hg', hp'⟩ := hrows i a ya b yb h1 h2
    exact ⟨g', by rw [List.getElem?_append_left (by omega)]; exact hg', hp'⟩
  · -- the new pair: the old last row and the recorded one
    have hil : i = s.attempts.length := by omega
    have hlast : s.storage[i]? = some (s.t, s.y) := by
      rw [← hs.last, List.getLast?_eq_getElem?, hcount, Nat.add_sub_cancel, hil]
    rw [hlast] at h1
    rw [show i + 1 = s.storage.length by omega] at h2
    simp only [List.getElem?_concat_length, Option.some.injEq, Prod.mk.injEq] at h1 h2
    obtain ⟨rfl, rfl⟩ := h1
    obtain ⟨rfl, rfl⟩ := h2
    exact ⟨g, by rw [hil]; simp, hp⟩

theorem RunState.Rows.imp {s : RunState M G ℝ} {P Q : ℝ → Vec ℝ → G → ℝ → Vec ℝ → Prop} (h : s.Rows P)
    (hpq : ∀ t y g t' y', P t y g t' y' → Q t y g t' y') : s.Rows Q := by
  intro i t y t' y' h1 h2
  obtain ⟨g, hg, hp⟩ := h i t y t' y' h1 h2
  exact ⟨g, hg, hpq _ _ _ _ _ hp⟩

theorem RunState.Rows.and {s : RunState M G ℝ} {P Q : ℝ → Vec ℝ → G → ℝ → Vec ℝ → Prop} (hP : s.Rows P)
    (hQ : s.Rows Q) : s.Rows fun t y g t' y' => P t y g t' y' ∧ Q t y g t' y' := by
  intro i t y t' y' h1 h2
  obtain ⟨g, hg, hp⟩ := hP i t y t' y' h1 h2
  obtain ⟨g', hg', hq⟩ := hQ i t y t' y' h1 h2
  rw [hg] at hg'
  cases hg'
  exact ⟨g, hg, hp, hq⟩

/-- properties that agree where R holds agree on rows that all satisfy R -/
theorem RunState.Rows.iff {s : RunState M G ℝ} {P Q R : ℝ → Vec ℝ → G → ℝ → Vec ℝ → Prop} (hR : s.Rows R)
    (h : ∀ t y g t' y', R t y g t' y' → (P t y g t' y' ↔ Q t y g t' y')) : s.Rows P ↔ s.Rows Q :=
  ⟨fun hP => (hR.and hP).imp fun _ _ _ _ _ hh => (h _ _ _ _ _ hh.1).1 hh.2,
    fun hQ => (hR.and hQ).imp fun _ _ _ _ _ hh => (h _ _ _ _ _ hh.1).2 hh.2⟩

/-! ## What one pass can do -/

/-- what the passes of a solver rely on: the members keep J, the base step stays positive, and a caught exception
leaves t, y and the rows as they were -/
structure Driver.Sound (D : Driver M G ℝ) (J : M → Prop) : Prop where
  clip_eq : ∀ t h tEnd, D.clip t h tEnd = min h (tEnd - t)
  returned : ∀ {m t y h m' y' h' g}, J m → 0 < h → D.step m t y h = .returned m' y' h' g → J m' ∧ 0 < h'
  threw : ∀ {s : RunState M G ℝ} {h e m' y' h'}, J s.mem → 0 < s.h → 0 < h →
    D.step s.mem s.t s.y h = .threw e m' y' h' → D.catches e = true →
      J m' ∧ 0 < (D.rejected s y' h').h ∧ (D.rejected s y' h').t = s.t ∧ (D.rejected s y' h').y = s.y ∧
        (D.rejected s y' h').storage = s.storage ∧ (D.rejected s y' h').attempts = s.attempts

/-- the row (t', y') is recorded by an accepted step from (t, y) with attempt g -/
def Driver.RowStep (D : Driver M G ℝ) (J : M → Prop) (tEnd t : ℝ) (y : Vec ℝ) (g : G) (t' : ℝ) (y' : Vec ℝ) : Prop :=
  ∃ m hAttempt m' h, J m ∧ 0 < hAttempt ∧ hAttempt ≤ tEnd - t ∧ D.step m t y hAttempt = .returned m' y' h g ∧
    0 < h ∧ t' = t + h

/-- **Pass inversion.** A pass back to the loop head has recorded a step that returned, or caught an exception. -/
theorem body_next_cases {D : Driver M G ℝ} {tEnd : ℝ} {s s' : RunState M G ℝ} (hb : D.body tEnd s = .next s') :
    s.t < tEnd ∧
      ((∃ m y h g, D.step s.mem s.t s.y (D.clip s.t s.h tEnd) = .returned m y h g ∧ s' = s.record m y h g) ∨
        ∃ e m y h, D.step s.mem s.t s.y (D.clip s.t s.h tEnd) = .threw e m y h ∧ D.catches e = true ∧
          s' = { D.rejected s y h with mem := m }) := by
  unfold Driver.body at hb
  by_cases ht : s.t < tEnd
  · rw [if_pos ht] at hb
    dsimp only at hb
    by_cases htiny : D.tiny (D.clip s.t s.h tEnd) = true
    · rw [if_pos htiny] at hb; cases hb
    · rw [if_neg htiny] at hb
      refine ⟨ht, ?_⟩
      cases hstep : D.step s.mem s.t s.y (D.clip s.t s.h tEnd) with
      | returned m y h g =>
        rw [hstep] at hb
        dsimp only at hb
        split_ifs at hb
        cases hb
        exact Or.inl ⟨m, y, h, g, rfl, rfl⟩
      | threw e m y h =>
        rw [hstep] at hb
        dsimp only at hb
        split_ifs at hb with hc
        cases hb
        exact Or.inr ⟨e, m, y, h, rfl, hc, rfl⟩
      | starved m => rw [hstep] at hb; cases hb
  · rw [if_neg ht] at hb; cases hb

/-- two solvers that differ in `Step` only make the same pass when `Step` ends the same -/
theorem body_congr {D D' : Driver M G ℝ} {tEnd : ℝ} {s : RunState M G ℝ} (hclip : D.clip = D'.clip)
    (htiny : D.tiny = D'.tiny) (hstops : D.stops = D'.stops) (hcatches : D.catches = D'.catches)
    (hrejected : D.rejected = D'.rejected)
    (hstep : s.t < tEnd → D.step s.mem s.t s.y (D.clip s.t s.h tEnd) = D'.step s.mem s.t s.y (D.clip s.t s.h tEnd)) :
    D.body tEnd s = D'.body tEnd s := by
  unfold Driver.body
  by_cases ht : s.t < tEnd
  · rw [if_pos ht, if_pos ht]
    dsimp only
    rw [hstep ht, hclip, htiny, hstops, hcatches, hrejected]
  · rw [if_neg ht, if_neg ht]

/-- the same for a sound driver: the row comes from an accepted step, and an exception leaves t, y and the rows -/
theorem body_next {D : Driver M G ℝ} {J : M → Prop} (hD : D.Sound J) {tEnd : ℝ} {s s' : RunState M G ℝ}
    (hJ : J s.mem) (hh : 0 < s.h) (hb : D.body tEnd s = .next s') :
    (∃ m y h g, s' = s.record m y h g ∧ J m ∧ 0 < h ∧ D.RowStep J tEnd s.t s.y g (s.t + h) y) ∨
      (J s'.mem ∧ 0 < s'.h ∧ s'.t = s.t ∧ s'.y = s.y ∧ s'.storage = s.storage ∧ s'.attempts = s.attempts) := by
  obtain ⟨ht, hcases⟩ := body_next_cases hb
  have hclip : D.clip s.t s.h tEnd = min s.h (tEnd - s.t) := hD.clip_eq _ _ _
  have hpos : 0 < D.clip s.t s.h tEnd := by rw [hclip]; exact lt_min hh (sub_pos.2 ht)
  rcases hcases with ⟨m, y, h, g, hstep, rfl⟩ | ⟨e, m, y, h, hstep, hc, rfl⟩
  · obtain ⟨hJ', hh'⟩ := hD.returned hJ hpos hstep
    exact Or.inl ⟨m, y, h, g, rfl, hJ', hh', s.mem, _, m, h, hJ, hpos, hclip ▸ min_le_right _ _, hstep, hh', rfl⟩
  · exact Or.inr (hD.threw hJ hh hpos hstep hc)

/-- the rows are never changed by a pass that does not go back to the loop head -/
theorem body_storage (D : Driver M G ℝ) (tEnd : ℝ) (s : RunState M G ℝ) :
    (∃ s', D.body tEnd s = .next s') ∨
      ((D.body tEnd s).state.storage = s.storage ∧ (D.body tEnd s).state.attempts = s.attempts) := by
  unfold Driver.body
  by_cases ht : s.t < tEnd
  · rw [if_pos ht]
    dsimp only
    split_ifs
    · exact Or.inr ⟨rfl, rfl⟩
    · cases hstep : D.step s.mem s.t s.y (D.clip s.t s.h tEnd) with
      | returned m y h g =>
        dsimp only
        split_ifs
        · exact Or.inr ⟨rfl, rfl⟩
        · exact Or.inl ⟨_, rfl⟩
      | threw e m y h =>
        dsimp only
        split_ifs
        · exact Or.inl ⟨_, rfl⟩
        · exact Or.inr ⟨rfl, rfl⟩
      | starved m => exact Or.inr ⟨rfl, rfl⟩
  · rw [if_neg ht]; exact Or.inr ⟨rfl, rfl⟩

/-- a pass leaves the members that `Step` leaves -/
theorem body_mem {D : Driver M G ℝ} {tEnd : ℝ} {s : RunState M G ℝ} (htiny : D.tiny (D.clip s.t s.h tEnd) = false) :
    (D.body tEnd s).state.mem = if s.t < tEnd then (D.step s.mem s.t s.y (D.clip s.t s.h tEnd)).mem else s.mem := by
  unfold Driver.body
  by_cases ht : s.t < tEnd
  · rw [if_pos ht, if_pos ht]
    dsimp only
    rw [htiny, if_neg Bool.false_ne_true]
    cases D.step s.mem s.t s.y (D.clip s.t s.h tEnd) with
    | returned m y h g => dsimp only; split_ifs <;> rfl
    | threw e m y h => dsimp only; split_ifs <;> rfl
    | starved m => rfl
  · rw [if_neg ht, if_neg ht]; rfl

/-- a solver without the break after `Step` leaves its loop at the loop head only -/
theorem body_exit_iff {D : Driver M G ℝ} (hstops : ∀ m rest h, D.stops m rest h = false) {tEnd : ℝ}
    (s s' : RunState M G ℝ) :
    D.body tEnd s = .exit s' ↔ s' = s ∧ (tEnd ≤ s.t ∨ D.tiny (D.clip s.t s.h tEnd) = true) := by
  unfold Driver.body
  by_cases ht : s.t < tEnd
  · rw [if_pos ht]
    dsimp only
    by_cases htiny : D.tiny (D.clip s.t s.h tEnd) = true
    · rw [if_pos htiny]
      constructor
      · rintro ⟨⟩; exact ⟨rfl, Or.inr htiny⟩
      · rintro ⟨rfl, -⟩; rfl
    · rw [if_neg htiny]
      refine ⟨fun h => ?_, fun h => absurd (h.2.resolve_left (not_le.2 ht)) htiny⟩
      cases hstep : D.step s.mem s.t s.y (D.clip s.t s.h tEnd) with
      | returned m y h' g => rw [hstep] at h; dsimp only at h; rw [hstops] at h; cases h
      | threw e m y h' => rw [hstep] at h; dsimp only at h; split_ifs at h
      | starved m => rw [hstep] at h; cases h
  · rw [if_neg ht]
    constructor
    · rintro ⟨⟩; exact ⟨rfl, Or.inl (not_lt.1 ht)⟩
    · rintro ⟨rfl, -⟩; rfl

/-! ## What every step keeps -/

/-- a step that returns has members with I and a state with L, one that throws has members with I and an exception
with E -/
def StepEnd.Keeps (I : M → Prop) (L : Vec ℝ → Prop) (E : Exn → Prop) : StepEnd M G ℝ → Prop
  | .returned m y _ _ => I m ∧ L y
  | .threw e m _ _ => E e ∧ I m
  | .starved _ => True

/-- every step of a solver keeps I and L, and its catch block leaves y and the rows -/
structure Driver.Keeps (D : Driver M G ℝ) (I : M → Prop) (L : Vec ℝ → Prop) (E : Exn → Prop) : Prop where
  step : ∀ {m t y h}, I m → L y → (D.step m t y h).Keeps I L E
  caught : ∀ {s h e m y h'}, D.step s.mem s.t s.y h = .threw e m y h' → D.catches e = true →
    (D.rejected s y h').y = s.y ∧ (D.rejected s y h').storage = s.storage

/-- the state of a run keeps I and L, also in its rows -/
structure RunState.Kept (I : M → Prop) (L : Vec ℝ → Prop) (s : RunState M G ℝ) : Prop where
  mem : I s.mem
  state : L s.y
  rows : ∀ r ∈ s.storage, L r.2

theorem body_kept {D : Driver M G ℝ} {I : M → Prop} {L : Vec ℝ → Prop} {E : Exn → Prop} (hD : D.Keeps I L E)
    {tEnd : ℝ} {s s' : RunState M G ℝ} (hs : s.Kept I L) (hb : D.body tEnd s = .next s') : s'.Kept I L := by
  obtain ⟨-, ⟨m, y, h, g, hstep, rfl⟩ | ⟨e, m, y, h, hstep, hc, rfl⟩⟩ := body_next_cases hb
  · have hk := hD.step (t := s.t) (h := D.clip s.t s.h tEnd) hs.mem hs.state
    rw [hstep] at hk
    refine ⟨hk.1, hk.2, fun r hr => ?_⟩
    rcases List.mem_append.1 hr with hr | hr
    · exact hs.rows r hr
    · rw [List.mem_singleton.1 hr]; exact hk.2
  · have hk := hD.step (t := s.t) (h := D.clip s.t s.h tEnd) hs.mem hs.state
    rw [hstep] at hk
    obtain ⟨hy, hrows⟩ := hD.caught hstep hc
    exact ⟨hk.2, by dsimp only; rw [hy]; exact hs.state, by dsimp only; rw [hrows]; exact hs.rows⟩

/-- an exception that ends a run was thrown by `Step` -/
theorem body_raise {D : Driver M G ℝ} {tEnd : ℝ} {s s' : RunState M G ℝ} {e : Exn} (hb : D.body tEnd s = .raise e s') :
    s.t < tEnd ∧ ∃ m y h, D.step s.mem s.t s.y (D.clip s.t s.h tEnd) = .threw e m y h := by
  unfold Driver.body at hb
  by_cases ht : s.t < tEnd
  · rw [if_pos ht] at hb
    dsimp only at hb
    split_ifs at hb
    cases hstep : D.step s.mem s.t s.y (D.clip s.t s.h tEnd) with
    | returned m y h g => rw [hstep] at hb; dsimp only at hb; split_ifs at hb
    | threw e' m y h =>
      rw [hstep] at hb
      dsimp only at hb
      split_ifs at hb
      cases hb
      exact ⟨ht, m, y, h, rfl⟩
    | starved m => rw [hstep] at hb; cases hb
  · rw [if_neg ht] at hb; cases hb

/-- at the end of the interval, and before a tiny attempt, the loop is left -/
theorem body_idle {D : Driver M G ℝ} {tEnd : ℝ} {s : RunState M G ℝ}
    (hs : tEnd ≤ s.t ∨ D.tiny (D.clip s.t s.h tEnd) = true) : D.body tEnd s = .exit s := by
  unfold Driver.body
  rcases hs with hend | htiny
  · exact if_neg (not_lt.2 hend)
  · dsimp only
    rw [htiny, if_pos rfl, ite_self]

/-- a step whose exception is not caught ends the run -/
theorem body_threw {D : Driver M G ℝ} {tEnd : ℝ} {s : RunState M G ℝ} {e : Exn} {m : M} {y : Vec ℝ} {h : ℝ}
    (ht : s.t < tEnd) (htiny : D.tiny (D.clip s.t s.h tEnd) = false) (hc : D.catches e = false)
    (hstep : D.step s.mem s.t s.y (D.clip s.t s.h tEnd) = .threw e m y h) :
    D.body tEnd s = .raise e { s with mem := m } := by
  simp only [Driver.body, if_pos ht, htiny, hstep, hc, Bool.false_eq_true, if_false]

/-- **What a run keeps.** If every step keeps I and L, all rows of a run of any length have L, and an exception that
ends it has E. -/
theorem run_keeps {D : Driver M G ℝ} {I : M → Prop} {L : Vec ℝ → Prop} {E : Exn → Prop} (hD : D.Keeps I L E) {m : M}
    (hm : I m) {y0 : Vec ℝ} (hy : L y0) (tEnd t0 h : ℝ) (n : ℕ) :
    (∀ r ∈ (run (D.body tEnd) n (start m t0 y0 h)).state.storage, L r.2) ∧
      ∀ e s, run (D.body tEnd) n (start m t0 y0 h) = .raise e s → E e := by
  have h0 : (start m t0 y0 h : RunState M G ℝ).Kept I L :=
    ⟨hm, hy, fun r hr => by rw [List.mem_singleton.1 hr]; exact hy⟩
  obtain ⟨s, hs, hlast⟩ := run_last (D.body tEnd) n (start m t0 y0 h)
  have hkept : s.Kept I L := head_invariant h0 (fun _ _ h1 h2 => body_kept hD h1 h2) hs
  rcases hlast with hn | hb
  · rw [hn]
    exact ⟨hkept.rows, fun e s' h' => by cases h'⟩
  · rw [hb]
    refine ⟨?_, fun e s' h' => ?_⟩
    · rcases body_storage D tEnd s with ⟨s', hs'⟩ | ⟨h1, -⟩
      · rw [hs']; exact (body_kept hD hkept hs').rows
      · rw [h1]; exact hkept.rows
    · obtain ⟨-, m', y', h1, hstep⟩ := body_raise h'
      have hk := hD.step (t := s.t) (h := D.clip s.t s.h tEnd) hkept.mem hkept.state
      rw [hstep] at hk
      exact hk.1

/-! ## Two calls of a step -/

/-- two calls of `Step` end the same way, with related members -/
inductive StepEnd.Rel (r : M → M → Prop) : StepEnd M G ℝ → StepEnd M G ℝ → Prop
  | returned {m m' y h g} : r m m' → Rel r (.returned m y h g) (.returned m' y h g)
  | threw {e m m' y h} : r m m' → Rel r (.threw e m y h) (.threw e m' y h)
  | starved {m m'} : r m m' → Rel r (.starved m) (.starved m')

theorem StepEnd.Rel.imp {r r' : M → M → Prop} {x x' : StepEnd M G ℝ} (hx : x.Rel r x')
    (h : ∀ m m', r m m' → r' m m') : x.Rel r' x' := by
  cases hx with
  | returned hm => exact .returned (h _ _ hm)
  | threw hm => exact .threw (h _ _ hm)
  | starved hm => exact .starved (h _ _ hm)

/-- the same state up to related members -/
structure RunState.Rel (r : M → M → Prop) (s s' : RunState M G ℝ) : Prop where
  mem : r s.mem s'.mem
  rest : s' = { s with mem := s'.mem }

/-- **Two runs.** A solver that catches nothing and cannot tell related members apart makes related passes. -/
theorem body_rel {D : Driver M G ℝ} {r : M → M → Prop} {tEnd : ℝ}
    (hstep : ∀ {m m'} t y h, r m m' → (D.step m t y h).Rel r (D.step m' t y h))
    (hstops : ∀ {m m'} rest h, r m m' → D.stops m rest h = D.stops m' rest h) (hcatches : ∀ e, D.catches e = false)
    {s s' : RunState M G ℝ} (hs : s.Rel r s') : PassRel (RunState.Rel r) (D.body tEnd s) (D.body tEnd s') := by
  obtain ⟨m, t, y, h, storage, attempts⟩ := s
  obtain ⟨m', t', y', h', storage', attempts'⟩ := s'
  obtain ⟨hmem, hrest⟩ := hs
  cases hrest
  unfold Driver.body
  dsimp only at hmem ⊢
  by_cases ht : t < tEnd
  · rw [if_pos ht, if_pos ht]
    by_cases htiny : D.tiny (D.clip t h tEnd) = true
    · rw [if_pos htiny, if_pos htiny]
      exact .exit ⟨hmem, rfl⟩
    · rw [if_neg htiny, if_neg htiny]
      have hends := hstep t y (D.clip t h tEnd) hmem
      generalize D.step m t y (D.clip t h tEnd) = x at hends
      generalize D.step m' t y (D.clip t h tEnd) = x' at hends
      cases hends with
      | returned hm =>
        dsimp only
        rw [hstops _ _ hm]
        split_ifs
        · exact .exit ⟨hm, rfl⟩
        · exact .next ⟨hm, rfl⟩
      | threw hm =>
        dsimp only
        rw [hcatches, if_neg Bool.false_ne_true, if_neg Bool.false_ne_true]
        exact .raise ⟨hm, rfl⟩
      | starved hm => exact .starved ⟨hm, rfl⟩
  · rw [if_neg ht, if_neg ht]
    exact .exit ⟨hmem, rfl⟩

/-! ## Runs -/

/-- the loop invariant of every solver: members, base step, and rows that come from accepted steps -/
structure Driver.Inv (D : Driver M G ℝ) (J : M → Prop) (tEnd t0 : ℝ) (y0 : Vec ℝ) (s : RunState M G ℝ) : Prop where
  mem : J s.mem
  pos : 0 < s.h
  wf : s.WF
  first : s.storage[0]? = some (t0, y0)
  rows : s.Rows (D.RowStep J tEnd)

theorem start_inv (D : Driver M G ℝ) {J : M → Prop} (tEnd : ℝ) {m : M} (hJ : J m) (t0 : ℝ) (y0 : Vec ℝ) {h : ℝ}
    (hh : 0 < h) : D.Inv J tEnd t0 y0 (start m t0 y0 h) :=
  ⟨hJ, hh, start_wf m t0 y0 h, rfl, start_rows _ m t0 y0 h⟩

theorem body_inv {D : Driver M G ℝ} {J : M → Prop} (hD : D.Sound J) {tEnd t0 : ℝ} {y0 : Vec ℝ} {s s' : RunState M G ℝ}
    (hs : D.Inv J tEnd t0 y0 s) (hb : D.body tEnd s = .next s') : D.Inv J tEnd t0 y0 s' := by
  rcases body_next hD hs.mem hs.pos hb with ⟨m, y, h, g, rfl, hJ, hh, hrow⟩ | ⟨hJ, hh, ht, hy, hst, hat⟩
  · refine ⟨hJ, hh, record_wf hs.wf m y h g, ?_, record_rows hs.wf _ m y h g hs.rows hrow⟩
    have hlen : 0 < s.storage.length := by rw [hs.wf.count]; omega
    simp only [RunState.record]
    rw [List.getElem?_append_left hlen]
    exact hs.first
  · refine ⟨hJ, hh, ⟨by rw [hst, ht, hy]; exact hs.wf.last, by rw [hst, hat]; exact hs.wf.count⟩, ?_, ?_⟩
    · rw [hst]; exact hs.first
    · intro i a ya b yb h1 h2
      rw [hst] at h1 h2
      rw [hat]
      exact hs.rows i a ya b yb h1 h2

theorem head_inv {D : Driver M G ℝ} {J : M → Prop} (hD : D.Sound J) {tEnd t0 : ℝ} {y0 : Vec ℝ} {m : M} {h : ℝ}
    (hJ : J m) (hh : 0 < h) {s : RunState M G ℝ} (hs : Head (D.body tEnd) (start m t0 y0 h) s) :
    D.Inv J tEnd t0 y0 s :=
  head_invariant (start_inv D tEnd hJ t0 y0 hh) (fun _ _ h1 h2 => body_inv hD h1 h2) hs

/-- a run of any length leaves the rows of one of its loop heads -/
theorem run_rows_of_head (D : Driver M G ℝ) (tEnd : ℝ) (n : ℕ) (s0 : RunState M G ℝ) :
    ∃ s, Head (D.body tEnd) s0 s ∧ (run (D.body tEnd) n s0).state.storage = s.storage ∧
      (run (D.body tEnd) n s0).state.attempts = s.attempts := by
  obtain ⟨s, hs, hn | hb⟩ := run_last (D.body tEnd) n s0
  · exact ⟨s, hs, by rw [hn]; rfl, by rw [hn]; rfl⟩
  · rcases body_storage D tEnd s with ⟨s', hs'⟩ | ⟨h1, h2⟩
    · exact ⟨s', hs.pass hs', by rw [hb, hs']; rfl, by rw [hb, hs']; rfl⟩
    · exact ⟨s, hs, by rw [hb, h1], by rw [hb, h2]⟩

/-- **Rows of a run.** In every run of any length, each pair of consecutive rows comes from one accepted step. -/
theorem rows_of_run {D : Driver M G ℝ} {J : M → Prop} (hD : D.Sound J) {m : M} (hJ : J m) {h : ℝ} (hh : 0 < h)
    (tEnd t0 : ℝ) (y0 : Vec ℝ) (n : ℕ) : (run (D.body tEnd) n (start m t0 y0 h)).state.Rows (D.RowStep J tEnd) := by
  obtain ⟨s, hs, hst, hat⟩ := run_rows_of_head D tEnd n (start m t0 y0 h)
  have hinv := head_inv hD hJ hh hs
  intro i a ya b yb h1 h2
  rw [hst] at h1 h2
  rw [hat]
  exact hinv.rows i a ya b yb h1 h2

end OdeClientServer
