/-
Text as lists of characters: a reader of sequences whose items are separated by commas, lines of fields behind a
separator, and decimal numbers in front of a character that is no digit.

- `readItems_intercalate`: what was written with separators is read back, item by item.
- `length_le_intercalate`, `length_item_le`: the text is at least as long as the sequence, and as each of its items.
- `length_fields_intercalate`, `fields_intercalate`: a line of fields has one field for each text exactly when no text
  has the separator, and then it is split into these texts.
- `repr_append_inj`: a number is told apart from the text behind it.
-/
import Mathlib.Tactic

namespace OdeClientServer.Text

/-- reads a value from the front of a text, and hands over the text behind it -/
abbrev Reader (α : Type) := List Char → Option (α × List Char)

variable {α : Type}

/-! ## Sequences -/

/-- at most n items, at least one, up to the closing character -/
def readItems (close : Char) (item : Reader α) : ℕ → Reader (List α)
  | 0, _ => none
  | n + 1, s =>
    match item s with
    | some (a, c :: s) =>
      if c = close then some ([a], s)
      else if c = ',' then (readItems close item n s).map fun (as, s) => (a :: as, s)
      else none
    | _ => none

/-- items up to the closing character, none if it comes first -/
def readSeq (close : Char) (item : Reader α) (n : ℕ) : Reader (List α)
  | [] => none
  | c :: s => if c = close then some ([], s) else readItems close item n (c :: s)

/-- the text of a is read as a in front of a comma and of the closing character -/
def Reads (close : Char) (item : Reader α) (text : α → List Char) (a : α) : Prop :=
  ∀ c rest, c = ',' ∨ c = close → item (text a ++ c :: rest) = some (a, c :: rest)

theorem readItems_intercalate {close : Char} {item : Reader α} {text : α → List Char} (hclose : close ≠ ',')
    {as : List α} (hne : as ≠ []) {n : ℕ} (hn : as.length ≤ n) (hitem : ∀ a ∈ as, Reads close item text a)
    (rest : List Char) :
    readItems close item n ([','].intercalate (as.map text) ++ close :: rest) = some (as, rest) := by
  induction as generalizing n with
  | nil => exact absurd rfl hne
  | cons a as ih =>
    obtain ⟨n, rfl⟩ : ∃ k, n = k + 1 := Nat.exists_eq_succ_of_ne_zero (by simp at hn; omega)
    have ha := hitem a (by simp)
    cases as with
    | nil =>
      have hone : item (text a ++ close :: rest) = some (a, close :: rest) := ha close rest (Or.inr rfl)
      simp [readItems, hone]
    | cons b as =>
      have hrest := ih (by simp) (Nat.le_of_succ_le_succ hn) fun c hc => hitem c (by simp [hc])
      have hmore := ha ',' ([','].intercalate ((b :: as).map text) ++ close :: rest) (Or.inl rfl)
      rw [List.map_cons, List.map_cons, List.intercalate_cons_cons, ← List.map_cons, List.append_assoc,
        List.append_assoc, List.singleton_append, readItems, hmore]
      simp only [if_neg hclose.symm, if_true, hrest, Option.map_some]

theorem readSeq_intercalate {close : Char} {item : Reader α} {text : α → List Char} (hclose : close ≠ ',') {as : List α}
    {n : ℕ} (hn : as.length ≤ n) (hitem : ∀ a ∈ as, Reads close item text a)
    (hstart : ∀ a ∈ as, ∃ c s, text a = c :: s ∧ c ≠ close) (rest : List Char) :
    readSeq close item n ([','].intercalate (as.map text) ++ close :: rest) = some (as, rest) := by
  cases as with
  | nil => simp [readSeq]
  | cons a as =>
    have hread := readItems_intercalate hclose (List.cons_ne_nil a as) hn hitem rest
    obtain ⟨c, s, hc, hne⟩ := hstart a (by simp)
    obtain ⟨s', hs'⟩ : ∃ s', [','].intercalate ((a :: as).map text) ++ close :: rest = c :: s' := by
      cases as with
      | nil => exact ⟨_, by simp [hc]; rfl⟩
      | cons b as => exact ⟨_, by rw [List.map_cons, List.map_cons, List.intercalate_cons_cons, hc]; rfl⟩
    rw [hs'] at hread ⊢
    rw [readSeq, if_neg hne, hread]

theorem length_le_intercalate (text : α → List Char) {as : List α} (htext : ∀ a ∈ as, text a ≠ []) :
    as.length ≤ ([','].intercalate (as.map text)).length := by
  induction as with
  | nil => simp
  | cons a as ih =>
    have ha := List.length_pos_of_ne_nil (htext a (by simp))
    have has := ih fun b hb => htext b (by simp [hb])
    cases as with
    | nil =>
      rw [List.map_cons, List.map_nil, List.intercalate_singleton]
      exact ha
    | cons b as =>
      rw [List.map_cons, List.map_cons, List.intercalate_cons_cons, ← List.map_cons]
      simp only [List.length_append, List.length_cons, List.length_nil] at has ⊢
      omega

theorem length_item_le (text : α → List Char) {as : List α} {a : α} (ha : a ∈ as) :
    (text a).length ≤ ([','].intercalate (as.map text)).length := by
  induction as with
  | nil => cases ha
  | cons b as ih =>
    cases as with
    | nil => simp [List.mem_singleton.1 ha]
    | cons c as =>
      rw [List.map_cons, List.map_cons, List.intercalate_cons_cons, ← List.map_cons, List.length_append,
        List.length_append]
      rcases List.mem_cons.1 ha with rfl | ha
      · omega
      · have := ih ha
        omega

/-! ## Fields -/

/-- a line split at a separator -/
def fields (separator : Char) (line : String) : List String := (line.toList.splitOn separator).map String.ofList

theorem length_splitOn (separator : Char) (s : List Char) : (s.splitOn separator).length = s.count separator + 1 := by
  induction s with
  | nil => rfl
  | cons c s ih =>
    rw [List.splitOn_cons_eq_if_modifyHead, List.count_cons]
    split_ifs
    · rw [List.length_cons, ih]
    · rw [List.length_modifyHead, ih, Nat.add_zero]

theorem splitOn_intercalate {separator : Char} {texts : List String} (hne : texts ≠ []) :
    ((String.singleton separator).intercalate texts).toList.splitOn separator =
      texts.flatMap fun text => text.toList.splitOn separator := by
  induction texts with
  | nil => exact absurd rfl hne
  | cons text texts ih =>
    cases texts with
    | nil => simp
    | cons text' texts =>
      rw [String.intercalate_cons_cons, String.toList_append, String.toList_append, String.toList_singleton,
        List.append_assoc, List.singleton_append, List.splitOn_append_cons_self, ih (List.cons_ne_nil text' texts)]
      rfl

/-- one field for each text, if and only if no text has the separator -/
theorem length_fields_intercalate {separator : Char} {texts : List String} (hne : texts ≠ []) :
    (fields separator ((String.singleton separator).intercalate texts)).length = texts.length ↔
      ∀ text ∈ texts, separator ∉ text.toList := by
  rw [fields, List.length_map, splitOn_intercalate hne, List.length_flatMap]
  simp only [length_splitOn]
  clear hne
  induction texts with
  | nil => simp
  | cons text texts ih =>
    rw [List.map_cons, List.sum_cons, List.length_cons, List.forall_mem_cons, ← ih, ← List.count_eq_zero]
    have hle := List.length_le_sum_of_one_le (texts.map fun t => t.toList.count separator + 1) fun n hn => by
      obtain ⟨t, -, rfl⟩ := List.mem_map.1 hn
      exact Nat.le_add_left 1 _
    rw [List.length_map] at hle
    omega

theorem fields_intercalate {separator : Char} {texts : List String} (hne : texts ≠ [])
    (htexts : ∀ text ∈ texts, separator ∉ text.toList) :
    fields separator ((String.singleton separator).intercalate texts) = texts := by
  rw [fields, String.toList_intercalate, String.toList_singleton,
    List.splitOn_intercalate separator (by simpa using htexts) (by simpa using hne), List.map_map]
  simp

/-! ## Decimal numbers -/

theorem takeWhile_isDigit_repr (n : ℕ) {c : Char} (hc : c.isDigit = false) (s : List Char) :
    ((toString n).toList ++ c :: s).takeWhile Char.isDigit = Nat.toDigits 10 n := by
  rw [Nat.toString_eq_repr, Nat.toList_repr, List.takeWhile_append_of_pos]
  · simp [hc]
  · exact fun d hd => Nat.isDigit_of_mem_toDigits (by norm_num) le_rfl hd

/-- **Numbers in front.** Texts that begin with a decimal number and go on with a character that is no digit agree only
if the numbers agree. -/
theorem repr_append_inj {m n : ℕ} {c d : Char} (hc : c.isDigit = false) (hd : d.isDigit = false) {s t : List Char}
    (h : (toString m).toList ++ c :: s = (toString n).toList ++ d :: t) : m = n := by
  have hdigits := congrArg (List.takeWhile Char.isDigit) h
  rw [takeWhile_isDigit_repr m hc, takeWhile_isDigit_repr n hd] at hdigits
  rw [← Nat.ofDigitChars_ten_toDigits (n := m), hdigits, Nat.ofDigitChars_ten_toDigits]

end OdeClientServer.Text
