/-
JSON text: `dump()` of `json.hpp`, and a reader of what it prints. Numbers of type double are printed and read by
functions that are given.

A value is plain if it has numbers of type double, strings that need no escapes, arrays, and objects with keys of their
own.

- `readValue_dump`: a plain value is read back in front of any text that does not go on with a number.
- `parse_dump`: a plain value is read back from its text.
-/
import OdeClientServer.Core.Text
import OdeClientServer.Server.Json

namespace OdeClientServer.Json

open Text

variable {R : Type}

/-! ## Model -/

section Model

/-- a hexadecimal digit of `\u%04x` -/
def hexDigit (n : ℕ) : String := String.singleton n.digitChar

/-- `dump_escaped` for one character, without ensure_ascii -/
def escapeChar (c : Char) : String :=
  if c = '\x08' then "\\b"
  else if c = '\x09' then "\\t"
  else if c = '\x0a' then "\\n"
  else if c = '\x0c' then "\\f"
  else if c = '\x0d' then "\\r"
  else if c = '\x22' then "\\\x22"
  else if c = '\x5c' then "\\\\"
  else if c.toNat ≤ 0x1f then "\\u00" ++ hexDigit (c.toNat / 16) ++ hexDigit (c.toNat % 16)
  else String.singleton c

/-- a string between quotes -/
def dumpString (s : String) : String := "\x22" ++ String.join (s.toList.map escapeChar) ++ "\x22"

variable (dumpFloat : R → String)

mutual

/-- `dump()` without indentation; `dumpFloat` is `dump_float` of a finite number -/
def dump : Json R → String
  | .null => "null"
  | .boolean b => if b then "true" else "false"
  | .numberUnsigned n => toString n
  | .numberInteger n => toString n
  | .numberFloat x => dumpFloat x
  | .string s => dumpString s
  | .array values => "[" ++ ",".intercalate (dumpValues values) ++ "]"
  | .object members => "\x7b" ++ ",".intercalate (dumpMembers members) ++ "\x7d"

def dumpValues : List (Json R) → List String
  | [] => []
  | value :: values => dump value :: dumpValues values

def dumpMembers : List (String × Json R) → List String
  | [] => []
  | (key, value) :: members => (dumpString key ++ ":" ++ dump value) :: dumpMembers members

end

end Model

/-! ## A reader -/

section Reader

/-- a character of a number -/
def isNumberChar (c : Char) : Bool := c.isDigit || c = '-' || c = '+' || c = '.' || c = 'e' || c = 'E'

/-- how finite doubles are printed, and a function that reads them -/
structure FloatText (R : Type) where
  print : R → String
  read : String → Option R
  read_print : ∀ x, read (print x) = some x
  print_ne : ∀ x, (print x).toList ≠ []
  print_chars : ∀ x, ∀ c ∈ (print x).toList, isNumberChar c = true

/-- the rest of a string, behind its opening quote -/
def readString : Reader String := fun s =>
  match s.dropWhile (· ≠ '\x22') with
  | [] => none
  | _ :: rest => some (String.ofList (s.takeWhile (· ≠ '\x22')), rest)

/-- a member of an object -/
def readMember (item : Reader (Json R)) : Reader (String × Json R)
  | '\x22' :: s =>
    match readString s with
    | some (key, ':' :: s) => (item s).map fun (value, s) => ((key, value), s)
    | _ => none
  | _ => none

variable (F : FloatText R)

def readNumber : Reader R := fun s =>
  (F.read (String.ofList (s.takeWhile isNumberChar))).map fun x => (x, s.dropWhile isNumberChar)

/-- a value; n bounds its depth and the length of its lists -/
def readValue : ℕ → Reader (Json R)
  | 0, _ => none
  | n + 1, s =>
    match s with
    | '\x22' :: s => (readString s).map fun (text, s) => (.string text, s)
    | '[' :: s => (readSeq ']' (readValue n) n s).map fun (values, s) => (.array values, s)
    | '\x7b' :: s => (readSeq '\x7d' (readMember (readValue n)) n s).map fun (members, s) => (.object members, s)
    | s => (readNumber F s).map fun (x, s) => (.numberFloat x, s)

/-- a text that is one value -/
def parse (text : String) : Option (Json R) :=
  match readValue F text.toList.length text.toList with
  | some (value, []) => some value
  | _ => none

end Reader

/-! ## Plain values -/

/-- characters that `dump_escaped` leaves as they are -/
def Clear (s : String) : Prop := ∀ c ∈ s.toList, escapeChar c = String.singleton c ∧ c ≠ '\x22'

inductive Plain : Json R → Prop
  | numberFloat (x : R) : Plain (.numberFloat x)
  | string {s : String} (hs : Clear s) : Plain (.string s)
  | array {values : List (Json R)} (hvalues : ∀ value ∈ values, Plain value) : Plain (.array values)
  | object {members : List (String × Json R)} (hnodup : (members.map Prod.fst).Nodup)
      (hkeys : ∀ member ∈ members, Clear member.1) (hvalues : ∀ member ∈ members, Plain member.2) :
      Plain (.object members)

variable {dumpFloat : R → String}

theorem dumpValues_eq (values : List (Json R)) : dumpValues dumpFloat values = values.map (dump dumpFloat) := by
  induction values with
  | nil => rfl
  | cons value values ih => rw [dumpValues, ih, List.map_cons]

/-- the text of a member -/
def memberText (dumpFloat : R → String) (member : String × Json R) : String :=
  dumpString member.1 ++ ":" ++ dump dumpFloat member.2

theorem dumpMembers_eq (members : List (String × Json R)) :
    dumpMembers dumpFloat members = members.map (memberText dumpFloat) := by
  induction members with
  | nil => rfl
  | cons member members ih => rw [dumpMembers, ih, List.map_cons, memberText]

theorem clear_of_isAlpha {s : String} (hs : s.toList.all Char.isAlpha = true) : Clear s := by
  intro c hc
  have halpha : c.isAlpha = true := List.all_eq_true.1 hs c hc
  have hne : ∀ d : Char, d.isAlpha = false → c ≠ d := by
    rintro d hd rfl
    rw [hd] at halpha
    cases halpha
  have hsmall : ∀ n : Fin 32, (Char.ofNat n.val).isAlpha = false := by decide
  have hlarge : ¬ c.toNat ≤ 0x1f := by
    intro hle
    have hc : (Char.ofNat c.toNat).isAlpha = false := hsmall ⟨c.toNat, Nat.lt_succ_of_le hle⟩
    rw [Char.ofNat_toNat, halpha] at hc
    cases hc
  refine ⟨?_, hne _ (by decide)⟩
  rw [escapeChar, if_neg (hne _ (by decide)), if_neg (hne _ (by decide)), if_neg (hne _ (by decide)),
    if_neg (hne _ (by decide)), if_neg (hne _ (by decide)), if_neg (hne _ (by decide)), if_neg (hne _ (by decide)),
    if_neg hlarge]

theorem toList_dumpString {s : String} (hs : Clear s) : (dumpString s).toList = '\x22' :: (s.toList ++ ['\x22']) := by
  have hjoin : ∀ cs : List Char, (∀ c ∈ cs, escapeChar c = String.singleton c) →
      (String.join (cs.map escapeChar)).toList = cs := by
    intro cs hcs
    rw [String.toList_join]
    induction cs with
    | nil => rfl
    | cons c cs ih =>
      rw [List.map_cons, List.flatMap_cons, hcs c (by simp), ih fun d hd => hcs d (by simp [hd]),
        String.toList_singleton]
      rfl
  rw [dumpString, String.toList_append, String.toList_append, hjoin _ fun c hc => (hs c hc).1]
  rfl

theorem readString_clear {s : String} (hs : Clear s) (rest : List Char) :
    readString (s.toList ++ '\x22' :: rest) = some (s, rest) := by
  have hpos : ∀ c ∈ s.toList, decide (c ≠ '\x22') = true := fun c hc => decide_eq_true (hs c hc).2
  have hdrop : (s.toList ++ '\x22' :: rest).dropWhile (· ≠ '\x22') = '\x22' :: rest := by
    rw [List.dropWhile_append_of_pos hpos]
    simp
  have htake : (s.toList ++ '\x22' :: rest).takeWhile (· ≠ '\x22') = s.toList := by
    rw [List.takeWhile_append_of_pos hpos]
    simp
  rw [readString, hdrop, htake, String.ofList_toList]

/-! ## Reading back -/

section RoundTrip

variable {F : FloatText R}

/-- the text does not go on with a number -/
def Ends (rest : List Char) : Prop := ∀ c ∈ rest.head?, isNumberChar c = false

theorem ends_cons {c : Char} (hc : isNumberChar c = false) (rest : List Char) : Ends (c :: rest) := by
  intro d hd
  rw [List.head?_cons, Option.mem_some_iff] at hd
  rwa [← hd]

theorem readNumber_print (x : R) {rest : List Char} (hrest : Ends rest) :
    readNumber F ((F.print x).toList ++ rest) = some (x, rest) := by
  have hstop : rest.takeWhile isNumberChar = [] ∧ rest.dropWhile isNumberChar = rest := by
    cases rest with
    | nil => exact ⟨rfl, rfl⟩
    | cons c rest =>
      have hc := hrest c rfl
      exact ⟨List.takeWhile_cons_of_neg (by simp [hc]), List.dropWhile_cons_of_neg (by simp [hc])⟩
  rw [readNumber, List.takeWhile_append_of_pos (F.print_chars x), List.dropWhile_append_of_pos (F.print_chars x),
    hstop.1, hstop.2, List.append_nil, String.ofList_toList, F.read_print, Option.map_some]

/-- how the text of a plain value begins -/
theorem dump_head {v : Json R} (hv : Plain v) :
    ∃ c s, (dump F.print v).toList = c :: s ∧ (c = '\x22' ∨ c = '[' ∨ c = '\x7b' ∨ isNumberChar c = true) := by
  cases hv with
  | numberFloat x =>
    obtain ⟨c, s, hc⟩ := List.exists_cons_of_ne_nil (F.print_ne x)
    exact ⟨c, s, hc, Or.inr (Or.inr (Or.inr (F.print_chars x c (by simp [hc]))))⟩
  | string hs => exact ⟨_, _, toList_dumpString hs, Or.inl rfl⟩
  | array => exact ⟨'[', _, by rw [dump, String.toList_append, String.toList_append]; rfl, Or.inr (Or.inl rfl)⟩
  | object =>
    exact ⟨'\x7b', _, by rw [dump, String.toList_append, String.toList_append]; rfl, Or.inr (Or.inr (Or.inl rfl))⟩

theorem dump_ne {v : Json R} (hv : Plain v) : (dump F.print v).toList ≠ [] := by
  obtain ⟨c, s, hc, -⟩ := dump_head (F := F) hv
  rw [hc]
  exact List.cons_ne_nil c s

theorem readValue_number {c : Char} (hc : isNumberChar c = true) (n : ℕ) (s : List Char) :
    readValue F (n + 1) (c :: s) = (readNumber F (c :: s)).map fun (x, s) => (.numberFloat x, s) := by
  rw [readValue]
  -- c opens no string, no array and no object
  all_goals
    intro s' h
    cases h
    exact absurd hc (by decide)

theorem toList_dump_array (values : List (Json R)) : (dump F.print (.array values)).toList =
    '[' :: ([','].intercalate (values.map fun v => (dump F.print v).toList) ++ [']']) := by
  rw [dump, dumpValues_eq, String.toList_append, String.toList_append, String.toList_intercalate, List.map_map]
  rfl

theorem toList_dump_object (members : List (String × Json R)) : (dump F.print (.object members)).toList =
    '\x7b' :: ([','].intercalate (members.map fun m => (memberText F.print m).toList) ++ ['\x7d']) := by
  rw [dump, dumpMembers_eq, String.toList_append, String.toList_append, String.toList_intercalate, List.map_map]
  rfl

theorem toList_memberText {member : String × Json R} (hkey : Clear member.1) : (memberText F.print member).toList =
    '\x22' :: (member.1.toList ++ '\x22' :: ':' :: (dump F.print member.2).toList) := by
  rw [memberText, String.toList_append, String.toList_append, toList_dumpString hkey]
  simp

/-- **Reading back.** The induction is on the value; a value inside it is followed by a comma or a closing bracket,
which no number goes on with. -/
theorem readValue_dump {v : Json R} (hv : Plain v) {n : ℕ} (hn : (dump F.print v).toList.length ≤ n) {rest : List Char}
    (hrest : Ends rest) : readValue F n ((dump F.print v).toList ++ rest) = some (v, rest) := by
  obtain ⟨n, rfl⟩ : ∃ k, n = k + 1 :=
    Nat.exists_eq_succ_of_ne_zero (by have := List.length_pos_of_ne_nil (dump_ne (F := F) hv); omega)
  induction hv generalizing n rest with
  | numberFloat x =>
    obtain ⟨c, s, hc⟩ := List.exists_cons_of_ne_nil (F.print_ne x)
    have hread := readNumber_print (F := F) x hrest
    rw [hc, List.cons_append] at hread
    rw [dump, hc, List.cons_append, readValue_number (F.print_chars x c (by simp [hc])), hread, Option.map_some]
  | @string s hs =>
    rw [dump, toList_dumpString hs, List.cons_append, List.append_assoc, List.singleton_append, readValue,
      readString_clear hs, Option.map_some]
  | @array values hvalues ih =>
    rw [toList_dump_array] at hn ⊢
    simp only [List.length_cons, List.length_append, List.length_nil] at hn
    have hlen := length_le_intercalate (fun v => (dump F.print v).toList) fun v hv => dump_ne (hvalues v hv)
    rw [List.cons_append, List.append_assoc, List.singleton_append, readValue, readSeq_intercalate (by decide)
      (by omega), Option.map_some]
    · intro v hv c rest hc
      have hle := length_item_le (fun v => (dump F.print v).toList) hv
      have hpos := List.length_pos_of_ne_nil (dump_ne (F := F) (hvalues v hv))
      obtain ⟨k, rfl⟩ : ∃ k, n = k + 1 := Nat.exists_eq_succ_of_ne_zero (by omega)
      have hstop : isNumberChar c = false := by rcases hc with rfl | rfl <;> decide
      exact ih v hv (ends_cons hstop rest) k (by omega)
    · intro v hv
      obtain ⟨c, s, hc, hkind⟩ := dump_head (F := F) (hvalues v hv)
      refine ⟨c, s, hc, ?_⟩
      rintro rfl
      revert hkind
      decide
  | @object members _ hkeys hvalues ih =>
    rw [toList_dump_object] at hn ⊢
    simp only [List.length_cons, List.length_append, List.length_nil] at hn
    have hlen := length_le_intercalate (fun m : String × Json R => (memberText F.print m).toList)
      fun m hm => by rw [toList_memberText (hkeys m hm)]; exact List.cons_ne_nil _ _
    rw [List.cons_append, List.append_assoc, List.singleton_append, readValue, readSeq_intercalate (by decide)
      (by omega), Option.map_some]
    · intro m hm c rest hc
      have hle := length_item_le (fun m : String × Json R => (memberText F.print m).toList) hm
      have hpos := List.length_pos_of_ne_nil (dump_ne (F := F) (hvalues m hm))
      dsimp only at hle ⊢
      rw [toList_memberText (hkeys m hm)] at hle ⊢
      simp only [List.length_cons, List.length_append] at hle
      obtain ⟨k, rfl⟩ : ∃ k, n = k + 1 := Nat.exists_eq_succ_of_ne_zero (by omega)
      have hstop : isNumberChar c = false := by rcases hc with rfl | rfl <;> decide
      have hvalue := ih m hm (ends_cons hstop rest) k (by omega)
      rw [List.cons_append, List.append_assoc, List.cons_append, List.cons_append, readMember,
        readString_clear (hkeys m hm)]
      simp only [hvalue, Option.map_some]
    · intro m hm
      exact ⟨'\x22', _, toList_memberText (hkeys m hm), by decide⟩

/-- **Round trip.** A plain value is read back from its text. -/
theorem parse_dump {v : Json R} (hv : Plain v) : parse F (dump F.print v) = some v := by
  have hend : Ends [] := nofun
  have h := readValue_dump (F := F) hv le_rfl hend
  rw [List.append_nil] at h
  rw [parse, h]

end RoundTrip

end OdeClientServer.Json
