/-
Postconditions of computations that may throw. `Ends P E x` says that x returns a value with P or throws an exception
with E. The rules follow the shape of the code: a sequence, a branch, a loop that collects its results, a loop that
accumulates. `EndsRel` compares two computations: both return, or both throw.
-/
import Mathlib.Tactic

namespace OdeClientServer

variable {ε α β : Type} {P : α → Prop} {Q : β → Prop} {E : ε → Prop}

/-- x returns a value with P or throws an exception with E -/
def Ends (P : α → Prop) (E : ε → Prop) : Except ε α → Prop
  | .ok a => P a
  | .error e => E e

@[simp] theorem ends_ok {a : α} : Ends P E (.ok a) ↔ P a := Iff.rfl

@[simp] theorem ends_error {e : ε} : Ends P E (.error e : Except ε α) ↔ E e := Iff.rfl

/-- a sequence: what the first part returns is what the second part starts with -/
theorem Ends.bind {x : Except ε α} {f : α → Except ε β} (hx : Ends P E x) (hf : ∀ a, P a → Ends Q E (f a)) :
    Ends Q E (x >>= f) := by
  cases x with
  | error e => exact hx
  | ok a => exact hf a hx

theorem Ends.imp {P' : α → Prop} {x : Except ε α} (hx : Ends P E x) (h : ∀ a, P a → P' a) : Ends P' E x := by
  cases x with
  | error e => exact hx
  | ok a => exact h a hx

theorem Ends.ok {x : Except ε α} {a : α} (hx : Ends P E x) (ha : x = .ok a) : P a := by
  rw [ha] at hx
  exact hx

theorem Ends.error {x : Except ε α} {e : ε} (hx : Ends P E x) (he : x = .error e) : E e := by
  rw [he] at hx
  exact hx

/-- the value also satisfies what is known of every value the computation can return -/
theorem Ends.with {P' : α → Prop} {x : Except ε α} (hx : Ends P E x) (h : ∀ a, x = .ok a → P' a) :
    Ends (fun a => P a ∧ P' a) E x := by
  cases x with
  | error e => exact hx
  | ok a => exact ⟨hx, h a rfl⟩

/-- a loop that collects: each result satisfies the postcondition of its round -/
theorem Ends.mapM {R : α → β → Prop} {g : α → Except ε β} {l : List α} (h : ∀ a ∈ l, Ends (R a) E (g a)) :
    Ends (List.Forall₂ R l) E (l.mapM g) := by
  induction l with
  | nil => exact .nil
  | cons a l ih =>
    rw [List.mapM_cons]
    refine (h a List.mem_cons_self).bind fun b hb => ?_
    exact (ih fun c hc => h c (List.mem_cons_of_mem a hc)).bind fun v hv => .cons hb hv

/-- a loop that accumulates: every round keeps the postcondition -/
theorem Ends.foldlM {g : β → α → Except ε β} {l : List α} {b : β} (hb : Q b)
    (h : ∀ b, Q b → ∀ a ∈ l, Ends Q E (g b a)) : Ends Q E (l.foldlM g b) := by
  induction l generalizing b with
  | nil => exact hb
  | cons a l ih =>
    rw [List.foldlM_cons]
    refine (h b hb a List.mem_cons_self).bind fun b' hb' => ?_
    exact ih hb' fun c hc d hd => h c hc d (List.mem_cons_of_mem a hd)

/-- two computations end the same way, with related exceptions or related values -/
inductive EndsRel {ε ε' α β : Type} (E : ε → ε' → Prop) (P : α → β → Prop) : Except ε α → Except ε' β → Prop
  | error {e e'} : E e e' → EndsRel E P (.error e) (.error e')
  | ok {a b} : P a b → EndsRel E P (.ok a) (.ok b)

theorem EndsRel.ends {ε ε' α β : Type} {E : ε → ε' → Prop} {P : α → β → Prop} {x : Except ε α} {y : Except ε' β}
    (h : EndsRel E P x y) :
    (∃ e e', x = .error e ∧ y = .error e' ∧ E e e') ∨ ∃ a b, x = .ok a ∧ y = .ok b ∧ P a b := by
  cases h with
  | error he => exact Or.inl ⟨_, _, rfl, rfl, he⟩
  | ok hp => exact Or.inr ⟨_, _, rfl, rfl, hp⟩

end OdeClientServer
