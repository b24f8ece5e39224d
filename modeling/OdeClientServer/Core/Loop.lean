/-
While loops as step functions. A loop body maps the state at the loop head to a `Pass`: back to the head, out of the
loop, out by an exception, or starved (an inner loop of the body was cut off by its fuel). `run body n` makes at most
n passes, so a statement about `run body n` for every n is a statement about runs of any length.

- `run_invariant`: what every pass preserves holds in every state a run leaves.
- `Head`: the states in which the loop head is reached. `head_invariant` is the induction over them; `run_last`,
  `run_exit` and `exit_unique` connect them to `run`.
- `run_iff_passes`: a property that the passes keep one by one.
- `run_congr`: loop bodies that agree where an invariant holds have the same runs.
- `terminates_of_rank`, `noRepeat_of_rank`: a loop whose passes lower a rank. `forever_of_fixed`: one that has a fixed
  head.
- `terminates_of_control`: a loop with a clock whose passes advance the clock or halve the step, down to a threshold.
- `exit_near_end_iff`: when a loop that gives up on a small step is left near its end.
- `run_rel`: two loops whose passes stay related have related runs.
-/
import OdeClientServer.Core.Numerals
import Mathlib.Tactic
import Mathlib.Data.Real.Basic

namespace OdeClientServer.Loop

variable {ε σ τ : Type}

/-- where one pass through a loop body leaves the program -/
inductive Pass (ε σ : Type) where
  | next (s : σ)
  | exit (s : σ)
  | raise (e : ε) (s : σ)
  | starved (s : σ)

/-- the state a pass leaves, however it ends -/
def Pass.state : Pass ε σ → σ
  | .next s => s
  | .exit s => s
  | .raise _ s => s
  | .starved s => s

@[simp] theorem Pass.state_next (s : σ) : (Pass.next s : Pass ε σ).state = s := rfl

@[simp] theorem Pass.state_exit (s : σ) : (Pass.exit s : Pass ε σ).state = s := rfl

@[simp] theorem Pass.state_raise (e : ε) (s : σ) : (Pass.raise e s).state = s := rfl

@[simp] theorem Pass.state_starved (s : σ) : (Pass.starved s : Pass ε σ).state = s := rfl

/-- the same end of a pass, read through g -/
def Pass.map (g : σ → τ) : Pass ε σ → Pass ε τ
  | .next s => .next (g s)
  | .exit s => .exit (g s)
  | .raise e s => .raise e (g s)
  | .starved s => .starved (g s)

@[simp] theorem Pass.state_map (g : σ → τ) (p : Pass ε σ) : (p.map g).state = g p.state := by
  cases p <;> rfl

theorem Pass.map_eq_raise {g : σ → τ} {p : Pass ε σ} {e : ε} {a : τ} (h : p.map g = .raise e a) :
    ∃ s, p = .raise e s ∧ g s = a := by
  cases p with
  | raise e' s => cases h; exact ⟨s, rfl, rfl⟩
  | next s => cases h
  | exit s => cases h
  | starved s => cases h

theorem Pass.map_eq_exit {g : σ → τ} {p : Pass ε σ} {a : τ} (h : p.map g = .exit a) : ∃ s, p = .exit s ∧ g s = a := by
  cases p with
  | exit s => cases h; exact ⟨s, rfl, rfl⟩
  | next s => cases h
  | raise e s => cases h
  | starved s => cases h

/-- at most n passes of the loop from s -/
def run (body : σ → Pass ε σ) : ℕ → σ → Pass ε σ
  | 0, s => .next s
  | n + 1, s =>
    match body s with
    | .next s' => run body n s'
    | .exit s' => .exit s'
    | .raise e s' => .raise e s'
    | .starved s' => .starved s'

@[simp] theorem run_zero (body : σ → Pass ε σ) (s : σ) : run body 0 s = .next s := rfl

theorem run_succ_next {body : σ → Pass ε σ} {s s' : σ} (h : body s = .next s') (n : ℕ) :
    run body (n + 1) s = run body n s' := by
  simp only [run, h]

theorem run_succ_exit {body : σ → Pass ε σ} {s s' : σ} (h : body s = .exit s') (n : ℕ) :
    run body (n + 1) s = .exit s' := by
  simp only [run, h]

theorem run_one_raise {body : σ → Pass ε σ} {s s' : σ} {e : ε} (h : body s = .raise e s') :
    run body 1 s = .raise e s' := by
  simp only [run, h]

/-- a loop that does not come back to its head raises what its first pass raises -/
theorem run_raise_first {body : σ → Pass ε σ} {s0 s : σ} {n : ℕ} {e : ε} (hnext : ∀ s1, body s0 ≠ .next s1)
    (hr : run body n s0 = .raise e s) : body s0 = .raise e s := by
  cases n with
  | zero => cases hr
  | succ n =>
    simp only [run] at hr
    cases hb : body s0 with
    | next s1 => exact absurd hb (hnext s1)
    | exit s1 => rw [hb] at hr; cases hr
    | raise e1 s1 => rw [hb] at hr; exact hr
    | starved s1 => rw [hb] at hr; cases hr

/-- a loop that is left at its head raises nothing -/
theorem run_ne_raise {body : σ → Pass ε σ} {s0 s1 s : σ} (hb : body s0 = .exit s1) (n : ℕ) (e : ε) :
    run body n s0 ≠ .raise e s := by
  intro hr
  have hraise := run_raise_first (fun s2 h2 => by rw [hb] at h2; cases h2) hr
  rw [hb] at hraise
  cases hraise

/-! ## Invariants -/

/-- **Run invariant.** What every pass preserves, however the pass ends, holds in every state a run leaves. -/
theorem run_invariant {body : σ → Pass ε σ} {I : σ → Prop} (hstep : ∀ s, I s → I (body s).state) (n : ℕ) (s : σ)
    (h : I s) : I (run body n s).state := by
  induction n generalizing s with
  | zero => exact h
  | succ n ih =>
    have hs := hstep s h
    simp only [run]
    cases hb : body s with
    | next s' => rw [hb] at hs; exact ih s' hs
    | exit s' => rw [hb] at hs; exact hs
    | raise e s' => rw [hb] at hs; exact hs
    | starved s' => rw [hb] at hs; exact hs

/-- the loop head is reached in state s by a run from s0 -/
inductive Head (body : σ → Pass ε σ) (s0 : σ) : σ → Prop
  | start : Head body s0 s0
  | pass {s s' : σ} : Head body s0 s → body s = .next s' → Head body s0 s'

/-- what the start has and every pass back to the head preserves holds at every head -/
theorem head_invariant {body : σ → Pass ε σ} {s0 : σ} {I : σ → Prop} (h0 : I s0)
    (hstep : ∀ s s', I s → body s = .next s' → I s') {s : σ} (hs : Head body s0 s) : I s := by
  induction hs with
  | start => exact h0
  | pass _ hb ih => exact hstep _ _ ih hb

theorem Head.trans {body : σ → Pass ε σ} {s0 s1 s2 : σ} (h1 : Head body s0 s1) (h2 : Head body s1 s2) :
    Head body s0 s2 := by
  induction h2 with
  | start => exact h1
  | pass _ hb ih => exact .pass ih hb

/-- a run ends at a head, or with the pass made from its last head -/
theorem run_last (body : σ → Pass ε σ) (n : ℕ) (s0 : σ) :
    ∃ s, Head body s0 s ∧ (run body n s0 = .next s ∨ run body n s0 = body s) := by
  induction n generalizing s0 with
  | zero => exact ⟨s0, .start, Or.inl rfl⟩
  | succ n ih =>
    cases hb : body s0 with
    | next s1 =>
      obtain ⟨s, hs, h⟩ := ih s1
      rw [run_succ_next hb]
      exact ⟨s, (Head.pass .start hb).trans hs, h⟩
    | exit s1 => exact ⟨s0, .start, Or.inr (by simp only [run, hb])⟩
    | raise e s1 => exact ⟨s0, .start, Or.inr (by simp only [run, hb])⟩
    | starved s1 => exact ⟨s0, .start, Or.inr (by simp only [run, hb])⟩

/-- a run that leaves the loop leaves it from a head -/
theorem run_exit {body : σ → Pass ε σ} {n : ℕ} {s0 s : σ} (h : run body n s0 = .exit s) :
    ∃ s1, Head body s0 s1 ∧ body s1 = .exit s := by
  obtain ⟨s1, h1, hn | hb⟩ := run_last body n s0
  · rw [h] at hn; cases hn
  · exact ⟨s1, h1, hb.symm.trans h⟩

/-- a run reaches each of its heads after some number of passes and goes on from there -/
theorem run_from_head {body : σ → Pass ε σ} {s0 s : σ} (h : Head body s0 s) :
    ∃ m, ∀ k, run body (m + k) s0 = run body k s := by
  induction h with
  | start => exact ⟨0, fun k => by rw [Nat.zero_add]⟩
  | pass _ hb ih =>
    obtain ⟨m, hm⟩ := ih
    exact ⟨m + 1, fun k => by rw [Nat.add_assoc, Nat.add_comm 1 k, hm, run_succ_next hb]⟩

/-- a finished run is not changed by allowing more passes -/
theorem run_exit_add {body : σ → Pass ε σ} {n : ℕ} {s0 s : σ} (h : run body n s0 = .exit s) (k : ℕ) :
    run body (n + k) s0 = .exit s := by
  induction n generalizing s0 with
  | zero => cases h
  | succ n ih =>
    rw [Nat.add_right_comm]
    simp only [run] at h ⊢
    cases hb : body s0 with
    | next s1 => rw [hb] at h; exact ih h
    | exit s1 => rw [hb] at h; exact h
    | raise e s1 => rw [hb] at h; cases h
    | starved s1 => rw [hb] at h; cases h

/-- the loop is left in one state only: any head with an exit pass is the last one -/
theorem exit_unique {body : σ → Pass ε σ} {n : ℕ} {s0 s1 s s' : σ} (hr : run body n s0 = .exit s)
    (h1 : Head body s0 s1) (hb : body s1 = .exit s') : s' = s := by
  obtain ⟨m, hm⟩ := run_from_head h1
  have e := hm (n + 1)
  rw [run_succ_exit hb, show m + (n + 1) = n + (m + 1) by omega, run_exit_add hr] at e
  cases e
  rfl

/-- **Pass by pass.** If each pass keeps P exactly when its head satisfies Q, a run has P exactly when the heads of all
its passes satisfy Q. The invariant I holds at every head. -/
theorem run_iff_passes {body : σ → Pass ε σ} {I P Q : σ → Prop} {s0 : σ} (h0 : I s0)
    (hinv : ∀ s s', I s → body s = .next s' → I s') (hstep : ∀ s, I s → (P (body s).state ↔ P s ∧ Q s)) (n : ℕ) :
    P (run body n s0).state ↔ P s0 ∧ ∀ m < n, ∀ s, run body m s0 = .next s → Q s := by
  induction n generalizing s0 with
  | zero => simp
  | succ n ih =>
    -- the passes after the first one
    have hsplit : (∀ m < n + 1, ∀ s, run body m s0 = .next s → Q s) ↔
        Q s0 ∧ ∀ m < n, ∀ s, run body (m + 1) s0 = .next s → Q s := by
      constructor
      · exact fun h => ⟨h 0 (Nat.succ_pos n) s0 rfl, fun m hm => h (m + 1) (Nat.succ_lt_succ hm)⟩
      · rintro ⟨hQ, h⟩ (_ | m) hm s hs
        · cases hs; exact hQ
        · exact h m (Nat.lt_of_succ_lt_succ hm) s hs
    have hb := hstep s0 h0
    rw [hsplit, ← and_assoc, ← hb]
    cases hbody : body s0 with
    | next s1 =>
      simp only [run_succ_next hbody]
      exact ih (hinv s0 s1 h0 hbody)
    | exit s1 => simp [run, hbody]
    | raise e s1 => simp [run, hbody]
    | starved s1 => simp [run, hbody]

/-- **Same passes.** Two loop bodies that agree wherever an invariant of the first holds have the same runs. -/
theorem run_congr {b1 b2 : σ → Pass ε σ} {I : σ → Prop} {s0 : σ} (h0 : I s0)
    (hinv : ∀ s s', I s → b1 s = .next s' → I s') (heq : ∀ s, I s → b1 s = b2 s) (n : ℕ) :
    run b1 n s0 = run b2 n s0 := by
  induction n generalizing s0 with
  | zero => rfl
  | succ n ih =>
    simp only [run, ← heq s0 h0]
    cases hb : b1 s0 with
    | next s1 => exact ih (hinv s0 s1 h0 hb)
    | exit s1 => rfl
    | raise e s1 => rfl
    | starved s1 => rfl

/-- what every head has and every pass from a head leaves, every run leaves -/
theorem run_state_invariant {body : σ → Pass ε σ} {I P : σ → Prop} {s0 : σ} (h0 : I s0)
    (hinv : ∀ s s', I s → body s = .next s' → I s') (hI : ∀ s, I s → P s) (hbody : ∀ s, I s → P (body s).state)
    (n : ℕ) :
    P (run body n s0).state := by
  obtain ⟨s, hs, hn | hb⟩ := run_last body n s0
  · rw [hn]; exact hI s (head_invariant h0 hinv hs)
  · rw [hb]; exact hbody s (head_invariant h0 hinv hs)

/-! ## Termination -/

/-- the loop is left after some number of passes -/
def Terminates (body : σ → Pass ε σ) (s0 : σ) : Prop := ∃ n, ∀ s, run body n s0 ≠ .next s

/-- no two of the heads that a run reaches look alike -/
def NoRepeat (body : σ → Pass ε σ) (look : σ → τ) (s0 : σ) : Prop :=
  ∀ m n s s', m < n → run body m s0 = .next s → run body n s0 = .next s' → look s ≠ look s'

theorem run_succ_eq_next {body : σ → Pass ε σ} {n : ℕ} {s0 s : σ} :
    run body (n + 1) s0 = .next s ↔ ∃ s1, body s0 = .next s1 ∧ run body n s1 = .next s := by
  simp only [run]
  cases body s0 with
  | next s1 => simp
  | exit s1 => simp
  | raise e s1 => simp
  | starved s1 => simp

theorem head_of_run {body : σ → Pass ε σ} {n : ℕ} {s0 s : σ} (hr : run body n s0 = .next s) : Head body s0 s := by
  induction n generalizing s0 with
  | zero => cases hr; exact .start
  | succ n ih =>
    obtain ⟨s1, hb, hr⟩ := run_succ_eq_next.1 hr
    exact (Head.pass .start hb).trans (ih hr)

theorem run_add {body : σ → Pass ε σ} {m : ℕ} {s0 s : σ} (hr : run body m s0 = .next s) (k : ℕ) :
    run body (m + k) s0 = run body k s := by
  induction m generalizing s0 with
  | zero => cases hr; rw [Nat.zero_add]
  | succ m ih =>
    obtain ⟨s1, hb, hr⟩ := run_succ_eq_next.1 hr
    rw [Nat.succ_add, run_succ_next hb]
    exact ih hr

theorem run_prefix {body : σ → Pass ε σ} {n k : ℕ} {s0 s : σ} (hr : run body (n + k) s0 = .next s) :
    ∃ s1, run body n s0 = .next s1 := by
  induction n generalizing s0 with
  | zero => exact ⟨s0, rfl⟩
  | succ n ih =>
    rw [Nat.succ_add] at hr
    obtain ⟨s1, hb, hr⟩ := run_succ_eq_next.1 hr
    rw [run_succ_next hb]
    exact ih hr

section Rank

variable {α : Type*} [Preorder α] {body : σ → Pass ε σ} {look : σ → τ} {rank : τ → α} {I : σ → Prop} {s0 : σ}

/-- **Ranks.** A loop terminates when every pass back to its head lowers a well-founded rank. -/
theorem terminates_of_rank [WellFoundedLT α] (h0 : I s0)
    (hstep : ∀ s s', I s → body s = .next s' → I s' ∧ rank (look s') < rank (look s)) : Terminates body s0 := by
  induction hr : rank (look s0) using WellFoundedLT.induction generalizing s0 with
  | ind r ih =>
    by_cases hb : ∃ s1, body s0 = .next s1
    · obtain ⟨s1, hb⟩ := hb
      obtain ⟨h1, hlt⟩ := hstep s0 s1 h0 hb
      obtain ⟨n, hn⟩ := ih _ (hr ▸ hlt) h1 rfl
      exact ⟨n + 1, by rwa [run_succ_next hb]⟩
    · refine ⟨1, fun s hs => hb ?_⟩
      obtain ⟨s1, hb1, -⟩ := run_succ_eq_next.1 hs
      exact ⟨s1, hb1⟩

theorem rank_lt_of_run (h0 : I s0)
    (hstep : ∀ s s', I s → body s = .next s' → I s' ∧ rank (look s') < rank (look s)) {k : ℕ} {s : σ}
    (hr : run body (k + 1) s0 = .next s) : rank (look s) < rank (look s0) := by
  induction k generalizing s0 with
  | zero =>
    obtain ⟨s1, hb, hr⟩ := run_succ_eq_next.1 hr
    cases hr
    exact (hstep s0 s h0 hb).2
  | succ k ih =>
    obtain ⟨s1, hb, hr⟩ := run_succ_eq_next.1 hr
    obtain ⟨h1, hlt⟩ := hstep s0 s1 h0 hb
    exact (ih h1 hr).trans hlt

/-- under such a rank no head is reached twice -/
theorem noRepeat_of_rank (h0 : I s0)
    (hstep : ∀ s s', I s → body s = .next s' → I s' ∧ rank (look s') < rank (look s)) : NoRepeat body look s0 := by
  intro m n s s' hmn hm hn heq
  obtain ⟨k, rfl⟩ := Nat.exists_eq_add_of_lt hmn
  have hI : I s := head_invariant h0 (fun a b ha hb => (hstep a b ha hb).1) (head_of_run hm)
  rw [Nat.add_assoc, run_add hm] at hn
  have hlt := rank_lt_of_run hI hstep hn
  rw [heq] at hlt
  exact hlt.false

end Rank

/-- a loop that terminates ends the same way for every larger number of passes -/
theorem Terminates.settles {body : σ → Pass ε σ} {s0 : σ} (h : Terminates body s0) :
    ∃ n, (∀ s, run body n s0 ≠ .next s) ∧ ∀ k, run body (n + k) s0 = run body n s0 := by
  obtain ⟨n, hn⟩ := h
  refine ⟨n, hn, fun k => ?_⟩
  induction n generalizing s0 with
  | zero => exact absurd rfl (hn s0)
  | succ n ih =>
    rw [Nat.add_right_comm]
    simp only [run] at hn ⊢
    cases hb : body s0 with
    | next s1 => rw [hb] at hn; exact ih hn
    | exit s1 => rfl
    | raise e s1 => rfl
    | starved s1 => rfl

/-- a run is only starved by a pass from one of its heads -/
theorem run_ne_starved {body : σ → Pass ε σ} (hb : ∀ s s', body s ≠ .starved s') (n : ℕ) (s0 s : σ) :
    run body n s0 ≠ .starved s := by
  obtain ⟨s1, -, hn | hl⟩ := run_last body n s0
  · rw [hn]; exact fun h => by cases h
  · rw [hl]; exact hb s1 s

section Control

variable {body : σ → Pass ε σ} {I Live : σ → Prop} {t h : σ → ℝ} {tEnd low : ℝ}

open Classical in
/-- a bound of the steps that are still to be accepted, before a bound of the halvings of the step -/
noncomputable def controlRank (Live : σ → Prop) (t h : σ → ℝ) (tEnd low : ℝ) (s : σ) : ℕ ×ₗ ℕ :=
  toLex (if Live s then ⌊(tEnd - t s) / low⌋₊ + 1 else 0, ⌊h s / low⌋₊)

theorem floor_lt_floor {a b : ℝ} (hlow : 0 < low) (ha : 0 ≤ a) (hab : a + low ≤ b) : ⌊a / low⌋₊ < ⌊b / low⌋₊ := by
  rw [Nat.lt_iff_add_one_le, ← Nat.floor_add_one (div_nonneg ha hlow.le), div_add_one hlow.ne']
  exact Nat.floor_mono (div_le_div_of_nonneg_right hab hlow.le)

/-- **Step control.** A loop with a clock t and a step h terminates when each pass from a live head to a live head
advances the clock by at least `low`, or leaves the clock and at least halves the step, not below `low`. -/
theorem terminates_of_control (hlow : 0 < low) (hlive : ∀ s, Live s → t s ≤ tEnd) {s0 : σ} (h0 : I s0)
    (hstep : ∀ s s', I s → body s = .next s' → I s' ∧ Live s ∧
      (Live s' → t s + low ≤ t s' ∨ t s' = t s ∧ low ≤ h s' ∧ h s' ≤ h s / 2)) : Terminates body s0 := by
  refine @terminates_of_rank ε σ σ (ℕ ×ₗ ℕ) _ body id (controlRank Live t h tEnd low) I s0 _ h0 fun s s' hs hb => ?_
  obtain ⟨hs', hl, hnext⟩ := hstep s s' hs hb
  refine ⟨hs', ?_⟩
  unfold controlRank
  rw [id, id, if_pos hl]
  by_cases hl' : Live s'
  · have hrest : 0 ≤ tEnd - t s' := sub_nonneg.2 (hlive s' hl')
    rw [if_pos hl']
    rcases hnext hl' with hadvance | ⟨hsame, hfloor, hhalf⟩
    · exact Prod.Lex.toLex_lt_toLex.2 (Or.inl (Nat.succ_lt_succ (floor_lt_floor hlow hrest (by linarith))))
    · exact Prod.Lex.toLex_lt_toLex.2
        (Or.inr ⟨by rw [hsame], floor_lt_floor hlow (hlow.le.trans hfloor) (by linarith)⟩)
  · rw [if_neg hl']
    exact Prod.Lex.toLex_lt_toLex.2 (Or.inl (Nat.succ_pos _))

end Control

/-- a loop that comes back to a head unchanged goes on for ever -/
theorem forever_of_fixed {body : σ → Pass ε σ} {s0 s : σ} (hs : Head body s0 s) (hb : body s = .next s) (look : σ → τ) :
    ¬ Terminates body s0 ∧ ¬ NoRepeat body look s0 := by
  obtain ⟨m, hm⟩ := run_from_head hs
  have hfixed : ∀ k, run body (m + k) s0 = .next s := by
    intro k
    rw [hm]
    induction k with
    | zero => rfl
    | succ k ih => rw [run_succ_next hb, ih]
  constructor
  · rintro ⟨n, hn⟩
    have hlong := hfixed n
    rw [Nat.add_comm] at hlong
    obtain ⟨s1, h1⟩ := run_prefix hlong
    exact hn s1 h1
  · exact fun hno => hno (m + 0) (m + 1) s s (by omega) (hfixed 0) (hfixed 1) rfl

/-! ## Loops that give up on a small step

The loop is left when the clock t has reached its end, and also when the next step, cut off at the end, is below a
threshold. -/

/-- **Giving up early.** Such a loop is left within the threshold of its end exactly when the step never falls below the
threshold while more than the threshold is left. -/
theorem exit_near_end_iff {body : σ → Pass ε σ} {t h : σ → ℝ} {tEnd threshold : ℝ} (hthr : 0 ≤ threshold)
    (hexit : ∀ s s', body s = .exit s' ↔ s' = s ∧ (tEnd ≤ t s ∨ min (h s) (tEnd - t s) < threshold)) {n : ℕ} {s0 s : σ}
    (hr : run body n s0 = .exit s) :
    tEnd - threshold ≤ t s ↔ ∀ s1, Head body s0 s1 → threshold < tEnd - t s1 → threshold ≤ h s1 := by
  constructor
  · intro hend s1 h1 hrest
    by_contra hsmall
    have hb : body s1 = .exit s1 :=
      (hexit s1 s1).2 ⟨rfl, Or.inr (min_lt_of_left_lt (not_le.1 hsmall))⟩
    rw [exit_unique hr h1 hb] at hrest
    linarith
  · intro hsteps
    obtain ⟨s1, h1, hb⟩ := run_exit hr
    obtain ⟨rfl, hend | hsmall⟩ := (hexit s1 s).1 hb
    · linarith
    · by_contra hearly
      have hrest : threshold < tEnd - t s := by linarith
      exact absurd hsmall (not_lt.2 (le_min (hsteps s h1 hrest) hrest.le))

/-! ## Two runs side by side -/

/-- two passes end the same way, in related states -/
inductive PassRel (r : σ → τ → Prop) : Pass ε σ → Pass ε τ → Prop
  | next {s t} : r s t → PassRel r (.next s) (.next t)
  | exit {s t} : r s t → PassRel r (.exit s) (.exit t)
  | raise {e s t} : r s t → PassRel r (.raise e s) (.raise e t)
  | starved {s t} : r s t → PassRel r (.starved s) (.starved t)

theorem PassRel.state {r : σ → τ → Prop} {p : Pass ε σ} {p' : Pass ε τ} (h : PassRel r p p') : r p.state p'.state := by
  cases h <;> assumption

/-- **Two runs.** Loops whose passes take related states to related states have related runs. -/
theorem run_rel {b1 : σ → Pass ε σ} {b2 : τ → Pass ε τ} {r : σ → τ → Prop}
    (hstep : ∀ s t, r s t → PassRel r (b1 s) (b2 t)) (n : ℕ) (s : σ) (t : τ) (h : r s t) :
    PassRel r (run b1 n s) (run b2 n t) := by
  induction n generalizing s t with
  | zero => exact .next h
  | succ n ih =>
    have hp := hstep s t h
    simp only [run]
    cases h1 : b1 s <;> cases h2 : b2 t <;> rw [h1, h2] at hp <;> cases hp
    · exact ih _ _ ‹_›
    · exact .exit ‹_›
    · exact .raise ‹_›
    · exact .starved ‹_›

end OdeClientServer.Loop
