/-
The JSON values that the server reads, and the accessors of `json.hpp` that it reads them with.

`operator[]` is overloaded. On a mutable value it inserts null under a key that is missing. On a constant value it
asserts that the key is there, and the server is built without NDEBUG, so a missing key ends the process. `Stop` keeps
this apart from an exception, which the handler catches.

An object is the list of its members, each key once. Numbers of the text come in three kinds; double is R.

- `aborts_bind`: a sequence of reads runs into the assertion at the first one that does not return.
- `subscriptConst_aborts_iff`: a constant lookup aborts at a missing key.
- `getDouble_returns_iff`: numbers, and nothing else, are read as double.
-/
import Mathlib.Algebra.Order.Floor.Ring
import OdeClientServer.Solvers.CommonFunctions

namespace OdeClientServer

/-! ## Model -/

/-- how a read stops: with an exception, or with the process, on the assertion that a key is there -/
inductive Stop where
  | threw (e : Exn)
  | aborted (key : String)
deriving DecidableEq, Repr

inductive Json (R : Type) where
  | null
  | boolean (b : Bool)
  | numberUnsigned (n : ℕ)
  | numberInteger (n : ℤ)
  | numberFloat (x : R)
  | string (s : String)
  | array (values : List (Json R))
  | object (members : List (String × Json R))

namespace Json

section Model

variable {R : Type}

def typeName : Json R → String
  | .null => "null"
  | .object _ => "object"
  | .array _ => "array"
  | .string _ => "string"
  | .boolean _ => "boolean"
  | _ => "number"

def typeError (id : ℕ) (what : String) : Stop :=
  .threw (.jsonError ("[json.exception.type_error." ++ toString id ++ "] " ++ what))

/-- `operator[](key)` of a mutable value: the value after the call, and the one under the key -/
def subscript (j : Json R) (key : String) : Except Stop (Json R × Json R) :=
  match j with
  | .null => .ok (.object [(key, .null)], .null)
  | .object members =>
    match members.lookup key with
    | some value => .ok (.object members, value)
    | none => .ok (.object (members ++ [(key, .null)]), .null)
  | j => .error (typeError 305 ("cannot use operator[] with a string argument with " ++ j.typeName))

/-- `operator[](key) const` -/
def subscriptConst (j : Json R) (key : String) : Except Stop (Json R) :=
  match j with
  | .object members =>
    match members.lookup key with
    | some value => .ok value
    | none => .error (.aborted key)
  | j => .error (typeError 305 ("cannot use operator[] with a string argument with " ++ j.typeName))

def contains (j : Json R) (key : String) : Bool :=
  match j with
  | .object members => (members.lookup key).isSome
  | _ => false

/-- `items()`: the position is the key of an array element, and any other value is its own only item -/
def items : Json R → List (String × Json R)
  | .null => []
  | .object members => members
  | .array values => values.zipIdx.map fun (value, i) => (toString i, value)
  | j => [("", j)]

/-- `get<std::string>()` -/
def getString : Json R → Except Stop String
  | .string s => .ok s
  | j => .error (typeError 302 ("type must be string, but is " ++ j.typeName))

/-- `get<double>()` -/
def getDouble [Field R] : Json R → Except Stop R
  | .numberUnsigned n => .ok n
  | .numberInteger n => .ok n
  | .numberFloat x => .ok x
  | j => .error (typeError 302 ("type must be number, but is " ++ j.typeName))

/-- `get<int>()`: integers are cut to 32 bits, a double loses its fraction, and a boolean counts as a number -/
def getInt [Field R] [LinearOrder R] [FloorRing R] : Json R → Except Stop ℤ
  | .numberUnsigned n => .ok (Int.bmod n (2 ^ 32))
  | .numberInteger n => .ok (Int.bmod n (2 ^ 32))
  | .numberFloat x => .ok (if 0 ≤ x then ⌊x⌋ else ⌈x⌉)
  | .boolean b => .ok (if b then 1 else 0)
  | j => .error (typeError 302 ("type must be number, but is " ++ j.typeName))

def isNumber : Json R → Bool
  | .numberUnsigned _ => true
  | .numberInteger _ => true
  | .numberFloat _ => true
  | _ => false

end Model

end Json

/-! ## Assertions -/

/-- x ends with a failed assertion -/
def Aborts {α : Type} (x : Except Stop α) : Prop := ∃ key, x = .error (.aborted key)

variable {α β R : Type}

@[simp] theorem not_aborts_ok (a : α) : ¬ Aborts (.ok a) := nofun

@[simp] theorem not_aborts_pure (a : α) : ¬ Aborts (pure a) := nofun

@[simp] theorem not_aborts_threw (e : Exn) : ¬ Aborts (.error (.threw e) : Except Stop α) := nofun

/-- **Sequences.** A sequence of reads aborts in its first part, or in its second part after the first has returned. -/
theorem aborts_bind {x : Except Stop α} {f : α → Except Stop β} :
    Aborts (x >>= f) ↔ Aborts x ∨ ∃ a, x = .ok a ∧ Aborts (f a) := by
  cases x with
  | ok a => simp [bind, Except.bind]
  | error s =>
    constructor
    · rintro ⟨key, hkey⟩
      cases hkey
      exact Or.inl ⟨key, rfl⟩
    · rintro (⟨key, hkey⟩ | ⟨a, ha, -⟩)
      · cases hkey
        exact ⟨key, rfl⟩
      · cases ha

/-- the same, when the second part aborts under a condition that the value of the first does not change -/
theorem aborts_seq {x : Except Stop α} {f : α → Except Stop β} {Q : Prop}
    (hf : ∀ a, x = .ok a → (Aborts (f a) ↔ Q)) : Aborts (x >>= f) ↔ Aborts x ∨ (∃ a, x = .ok a) ∧ Q := by
  rw [aborts_bind]
  refine or_congr_right ⟨?_, ?_⟩
  · rintro ⟨a, ha, hfa⟩
    exact ⟨⟨a, ha⟩, (hf a ha).1 hfa⟩
  · rintro ⟨⟨a, ha⟩, hQ⟩
    exact ⟨a, ha, (hf a ha).2 hQ⟩

namespace Json

theorem subscript_not_aborts (j : Json R) (key : String) : ¬ Aborts (j.subscript key) := by
  unfold subscript
  split
  · exact not_aborts_ok _
  · split <;> exact not_aborts_ok _
  · exact not_aborts_threw _

/-- what a mutable lookup finds besides null was there before, and the lookup changed nothing -/
theorem subscript_eq_ok {j j' value : Json R} {key : String} (h : j.subscript key = .ok (j', value))
    (hvalue : value ≠ null) :
    ∃ members, j = object members ∧ j' = object members ∧ members.lookup key = some value := by
  unfold subscript at h
  split at h
  · cases h
    exact absurd rfl hvalue
  · next members =>
    cases hl : members.lookup key with
    | none =>
      rw [hl] at h
      cases h
      exact absurd rfl hvalue
    | some value' =>
      rw [hl] at h
      cases h
      exact ⟨members, rfl, rfl, hl⟩
  · cases h

section Accessors

variable {j : Json R} {members : List (String × Json R)} {key : String}

theorem subscriptConst_aborts_iff : Aborts ((object members).subscriptConst key) ↔ members.lookup key = none := by
  rw [subscriptConst]
  cases members.lookup key with
  | none => exact iff_of_true ⟨key, rfl⟩ rfl
  | some value => exact iff_of_false (not_aborts_ok _) nofun

/-- a constant lookup in anything but an object throws -/
theorem subscriptConst_threw (hj : ∀ members, j ≠ object members) : ∃ e, j.subscriptConst key = .error (.threw e) := by
  cases j with
  | object members => exact absurd rfl (hj members)
  | null => exact ⟨_, rfl⟩
  | boolean => exact ⟨_, rfl⟩
  | numberUnsigned => exact ⟨_, rfl⟩
  | numberInteger => exact ⟨_, rfl⟩
  | numberFloat => exact ⟨_, rfl⟩
  | string => exact ⟨_, rfl⟩
  | array => exact ⟨_, rfl⟩

theorem contains_iff : j.contains key ↔ ∃ members value, j = object members ∧ members.lookup key = some value := by
  cases j with
  | object members => simp [contains, Option.isSome_iff_exists]
  | _ => simp [contains]

theorem getString_not_aborts (j : Json R) : ¬ Aborts j.getString := by
  cases j with
  | string s => exact not_aborts_ok _
  | _ => exact not_aborts_threw _

theorem getString_eq_ok {s : String} : j.getString = .ok s ↔ j = string s := by
  cases j with
  | string s' => simp [getString]
  | _ => exact iff_of_false nofun nofun

theorem isNumber_of_lookup (hnum : ∀ item ∈ members, item.2.isNumber) {value : Json R}
    (hvalue : members.lookup key = some value) : value.isNumber := by
  obtain ⟨l1, l2, rfl, -⟩ := List.lookup_eq_some_iff.1 hvalue
  exact hnum (key, value) (by simp)

variable [Field R]

theorem getDouble_not_aborts (j : Json R) : ¬ Aborts j.getDouble := by
  cases j with
  | numberUnsigned n => exact not_aborts_ok _
  | numberInteger n => exact not_aborts_ok _
  | numberFloat x => exact not_aborts_ok _
  | _ => exact not_aborts_threw _

theorem getDouble_returns_iff : (∃ x, j.getDouble = .ok x) ↔ j.isNumber := by
  cases j with
  | numberUnsigned n => exact iff_of_true ⟨_, rfl⟩ rfl
  | numberInteger n => exact iff_of_true ⟨_, rfl⟩ rfl
  | numberFloat x => exact iff_of_true ⟨_, rfl⟩ rfl
  | _ => exact iff_of_false nofun nofun

variable [LinearOrder R] [FloorRing R]

theorem getInt_not_aborts (j : Json R) : ¬ Aborts j.getInt := by
  cases j with
  | numberUnsigned n => exact not_aborts_ok _
  | numberInteger n => exact not_aborts_ok _
  | numberFloat x => exact not_aborts_ok _
  | boolean b => exact not_aborts_ok _
  | _ => exact not_aborts_threw _

theorem getInt_returns (hj : j.isNumber) : ∃ n, j.getInt = .ok n := by
  cases j with
  | numberUnsigned n => exact ⟨_, rfl⟩
  | numberInteger n => exact ⟨_, rfl⟩
  | numberFloat x => exact ⟨_, rfl⟩
  | _ => cases hj

end Accessors

end Json

end OdeClientServer
