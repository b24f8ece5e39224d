/-
Retries: a search that tries again from a changed state until an attempt needs no retry. `next s` is the state of the
retry after s, or none. A search with fuel comes to an end for some amount of fuel exactly when `Stops next s`, so this
is where termination is proved, without the fuel.

- `not_stops_of_forever`: a search whose every state has a retry does not stop.
- `stops_of_rank`: it stops when every retry lowers a natural number.
- `stops_of_shrinking`: it stops when each retry shrinks a size by a fixed factor and small states need no retry.
- `stops_iff_fuel`: a search with fuel that goes on with one unit less from the state of the retry.
-/
import OdeClientServer.Core.Numerals
import Mathlib.Tactic
import Mathlib.Analysis.SpecificLimits.Basic

namespace OdeClientServer.Retry

variable {σ : Type*}

/-- the retries from s come to an end -/
inductive Stops (next : σ → Option σ) : σ → Prop
  | here {s : σ} : next s = none → Stops next s
  | again {s s' : σ} : next s = some s' → Stops next s' → Stops next s

/-- the second state is reached from the first by retries -/
def Reaches (next : σ → Option σ) : σ → σ → Prop := Relation.ReflTransGen fun s s' => next s = some s'

variable {next : σ → Option σ} {I : σ → Prop} {s : σ}

theorem not_stops_of_forever (hI : I s) (hstep : ∀ s, I s → ∃ s', next s = some s' ∧ I s') : ¬ Stops next s := by
  intro hs
  induction hs with
  | here h =>
    obtain ⟨s', hs', -⟩ := hstep _ hI
    rw [h] at hs'
    cases hs'
  | again h _ ih =>
    obtain ⟨s', hs', hI'⟩ := hstep _ hI
    rw [h] at hs'
    cases hs'
    exact ih hI'

/-- a search stops when every retry lowers a rank -/
theorem stops_of_rank (rank : σ → ℕ) (hI : I s) (hstep : ∀ s s', I s → next s = some s' → I s' ∧ rank s' < rank s) :
    Stops next s := by
  induction hr : rank s using Nat.strong_induction_on generalizing s with
  | _ r ih =>
    cases hnext : next s with
    | none => exact .here hnext
    | some s' =>
      obtain ⟨hI', hlt⟩ := hstep s s' hI hnext
      exact .again hnext (ih (rank s') (hr ▸ hlt) hI' rfl)

/-- **Fuel.** A search that needs a unit of fuel for every try. `D fuel x` says that the fuel is enough from x, and p x
is the part of x that the retries look at. -/
theorem stops_iff_fuel {τ : Type*} {p : τ → σ} {D : ℕ → τ → Prop} (hzero : ∀ x, ¬ D 0 x)
    (hnone : ∀ fuel x, next (p x) = none → D (fuel + 1) x)
    (hsome : ∀ x s', next (p x) = some s' → ∃ x', p x' = s' ∧ ∀ fuel, D (fuel + 1) x ↔ D fuel x') (x : τ) :
    (∃ fuel, D fuel x) ↔ Stops next (p x) := by
  constructor
  · rintro ⟨fuel, hd⟩
    induction fuel generalizing x with
    | zero => exact absurd hd (hzero x)
    | succ fuel ih =>
      cases hnext : next (p x) with
      | none => exact .here hnext
      | some s' =>
        obtain ⟨x', rfl, hiff⟩ := hsome x s' hnext
        exact .again hnext (ih x' ((hiff fuel).1 hd))
  · intro hs
    generalize hx : p x = s at hs
    induction hs generalizing x with
    | here hnext => exact ⟨1, hnone 0 x (hx ▸ hnext)⟩
    | again hnext _ ih =>
      obtain ⟨x', hx', hiff⟩ := hsome x _ (hx ▸ hnext)
      obtain ⟨fuel, hd⟩ := ih x' hx'
      exact ⟨fuel + 1, (hiff fuel).2 hd⟩

/-- **Shrinking.** A search stops when each retry multiplies a size by at most r < 1, and no state of size at most b
needs a retry. -/
theorem stops_of_shrinking (size : σ → ℝ) {r b : ℝ} (hr0 : 0 ≤ r) (hr1 : r < 1) (hb : 0 < b) (hI : I s)
    (hstep : ∀ s s', I s → next s = some s' → I s' ∧ size s' ≤ r * size s)
    (hsmall : ∀ s, I s → size s ≤ b → next s = none) : Stops next s := by
  -- n retries are enough when r ^ n times the size is at most b
  have hn : ∀ n s, I s → r ^ n * size s ≤ b → Stops next s := by
    intro n
    induction n with
    | zero => exact fun s hs hsize => .here (hsmall s hs (by simpa using hsize))
    | succ n ih =>
      intro s hs hsize
      cases hnext : next s with
      | none => exact .here hnext
      | some s' =>
        obtain ⟨hI', hle⟩ := hstep s s' hs hnext
        refine .again hnext (ih s' hI' (le_trans ?_ hsize))
        calc r ^ n * size s' ≤ r ^ n * (r * size s) := mul_le_mul_of_nonneg_left hle (pow_nonneg hr0 n)
          _ = r ^ (n + 1) * size s := by ring
  rcases le_or_gt (size s) b with hle | hgt
  · exact .here (hsmall s hI hle)
  · obtain ⟨n, hpow⟩ := exists_pow_lt_of_lt_one (div_pos hb (hb.trans hgt)) hr1
    exact hn n s hI ((lt_div_iff₀ (hb.trans hgt)).1 hpow).le

end OdeClientServer.Retry
