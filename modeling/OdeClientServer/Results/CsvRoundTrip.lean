/-
Reading the text exports back. .NET prints a double with the decimal separator of the user's culture, which is `.` or
`,`, and `SaveGraphsToCsv` puts `,` between the fields. A `Culture` is the ambient setting, a `NumberFormat` is what
.NET prints and reads in the invariant culture.

- `readsRow_iff`, `readsBack_iff`: a row is read back when it has a value for each axis and no value is printed with the
  separator, and a graph when its rows are.
- `csv_reads_back_iff`: in every reachable state of the client, the lines of .csv are read back if and only if no value
  is printed with a decimal separator `,`.
- `txt_reads_back_iff`: the lines of .txt are read back in every culture.
- `half_unreadable`: a row of two numbers that is split into four fields.
-/
import OdeClientServer.Core.Text
import OdeClientServer.Core.Sampling
import OdeClientServer.Results.Export
import OdeClientServer.Results.Identity

namespace OdeClientServer.CsvRoundTrip

open Client GraphStorage

variable {R : Type}

/-! ## Cultures -/

/-- `double.ToString` and `double.Parse` in the invariant culture -/
structure NumberFormat (R : Type) where
  text : R → String
  parse : String → Option R
  parse_text : ∀ x, parse (text x) = some x
  not_comma : ∀ x, ',' ∉ (text x).toList
  not_tab : ∀ x, '\t' ∉ (text x).toList

structure Culture where
  decimalSeparator : Char
  separator_eq : decimalSeparator = '.' ∨ decimalSeparator = ','

/-- c in the place of every a -/
def replace (a c : Char) (s : String) : String := String.ofList (s.toList.map fun d => if d = a then c else d)

namespace Culture

variable (C : Culture) (F : NumberFormat R)

/-- `double.ToString` in the culture -/
def toText (x : R) : String := replace '.' C.decimalSeparator (F.text x)

/-- `double.Parse` in the culture -/
def parse (s : String) : Option R := F.parse (replace C.decimalSeparator '.' s)

/-- the writers as they run in the culture -/
def platform (P : Platform R) : Platform R := { P with doubleToString := C.toText F }

end Culture

theorem mem_replace {a c d : Char} {s : String} :
    d ∈ (replace a c s).toList ↔ a ∈ s.toList ∧ d = c ∨ d ∈ s.toList ∧ d ≠ a := by
  simp only [replace, String.toList_ofList, List.mem_map]
  constructor
  · rintro ⟨e, he, rfl⟩
    split_ifs with h
    · exact Or.inl ⟨h ▸ he, rfl⟩
    · exact Or.inr ⟨he, h⟩
  · rintro (⟨ha, rfl⟩ | ⟨hd, hne⟩)
    · exact ⟨a, ha, if_pos rfl⟩
    · exact ⟨d, hd, if_neg hne⟩

theorem replace_replace {a c : Char} {s : String} (h : c = a ∨ c ∉ s.toList) : replace c a (replace a c s) = s := by
  have hmap : s.toList.map ((fun d => if d = c then a else d) ∘ fun d => if d = a then c else d) = s.toList := by
    refine (List.map_congr_left fun d hd => ?_).trans (List.map_id s.toList)
    by_cases hda : d = a
    · simp [hda]
    · have hdc : d ≠ c := by
        rintro rfl
        exact h.elim hda fun hmem => hmem hd
      simp [hda, hdc]
  rw [replace, replace, String.toList_ofList, List.map_map, hmap, String.ofList_toList]

variable (C : Culture) (F : NumberFormat R)

theorem parse_toText (x : R) : C.parse F (C.toText F x) = some x := by
  rw [Culture.parse, Culture.toText, replace_replace, F.parse_text]
  rcases C.separator_eq with h | h
  · exact Or.inl h
  · exact Or.inr (h ▸ F.not_comma x)

/-- a value is printed with `,` if the culture has this separator and the value has a decimal part -/
theorem comma_mem_toText (x : R) :
    ',' ∈ (C.toText F x).toList ↔ C.decimalSeparator = ',' ∧ '.' ∈ (F.text x).toList := by
  rw [Culture.toText, mem_replace]
  constructor
  · rintro (⟨hpoint, hsep⟩ | ⟨hcomma, -⟩)
    · exact ⟨hsep.symm, hpoint⟩
    · exact absurd hcomma (F.not_comma x)
  · exact fun ⟨hsep, hpoint⟩ => Or.inl ⟨hpoint, hsep.symm⟩

theorem tab_not_mem_toText (x : R) : '\t' ∉ (C.toText F x).toList := by
  rw [Culture.toText, mem_replace]
  rintro (⟨-, hsep⟩ | ⟨htab, -⟩)
  · rcases C.separator_eq with h | h
    · exact absurd (hsep.trans h) (by decide)
    · exact absurd (hsep.trans h) (by decide)
  · exact F.not_tab x htab

/-! ## Numbers with halves -/

/-- n/2 in decimal -/
def halfText (n : ℕ) : String := toString (n / 2) ++ if n % 2 = 0 then "" else ".5"

theorem toList_halfText (n : ℕ) :
    (halfText n).toList = Nat.toDigits 10 (n / 2) ++ if n % 2 = 0 then [] else ['.', '5'] := by
  rw [halfText, String.toList_append, Nat.toString_eq_repr, Nat.toList_repr]
  split_ifs <;> rfl

theorem mem_halfText {n : ℕ} {c : Char} (hc : c ∈ (halfText n).toList) : c.isDigit = true ∨ n % 2 = 1 ∧ c = '.' := by
  rw [toList_halfText, List.mem_append] at hc
  rcases hc with hwhole | hhalf
  · exact Or.inl (Nat.isDigit_of_mem_toDigits (by norm_num) le_rfl hwhole)
  · split_ifs at hhalf with hn
    · cases hhalf
    · rcases List.mem_pair.1 hhalf with rfl | rfl
      · exact Or.inr ⟨Nat.mod_two_ne_zero.1 hn, rfl⟩
      · exact Or.inl rfl

/-- the doubles that are multiples of 1/2 -/
def halves : NumberFormat ℕ where
  text := halfText
  parse s := some (2 * Nat.ofDigitChars 10 (s.toList.takeWhile Char.isDigit) 0 + if '.' ∈ s.toList then 1 else 0)
  parse_text n := by
    have hdigits : ∀ c ∈ Nat.toDigits 10 (n / 2), c.isDigit = true :=
      fun c hc => Nat.isDigit_of_mem_toDigits (by norm_num) le_rfl hc
    have hwhole : (halfText n).toList.takeWhile Char.isDigit = Nat.toDigits 10 (n / 2) := by
      rw [toList_halfText, List.takeWhile_append_of_pos hdigits]
      split_ifs <;> simp
    have hpoint : '.' ∈ (halfText n).toList ↔ n % 2 = 1 := by
      refine ⟨fun h => ?_, fun h => ?_⟩
      · exact (mem_halfText h).elim (fun hdigit => absurd hdigit (by decide)) And.left
      · rw [toList_halfText, if_neg (by omega)]
        simp
    simp only [hwhole, Nat.ofDigitChars_ten_toDigits, hpoint, Option.some.injEq]
    split_ifs <;> omega
  not_comma n h := (mem_halfText h).elim (fun hdigit => absurd hdigit (by decide)) fun hc => absurd hc.2 (by decide)
  not_tab n h := (mem_halfText h).elim (fun hdigit => absurd hdigit (by decide)) fun hc => absurd hc.2 (by decide)

def point : Culture := ⟨'.', Or.inl rfl⟩

def comma : Culture := ⟨',', Or.inr rfl⟩

/-! ## Lines -/

/-- the line has one field for each axis, and the fields are read as the values of the row -/
structure ReadsRow (separator : Char) (axes : List String) (line : String) (row : List R) : Prop where
  count : (Text.fields separator line).length = axes.length
  values : (Text.fields separator line).mapM (C.parse F) = some row

/-- the lines are read back as the axes and the rows of a graph -/
def ReadsBack (separator : Char) (graph : SimulationResult R) : List String → Prop
  | [] => False
  | header :: lines => Text.fields separator header = graph.axes ∧
      List.Forall₂ (ReadsRow C F separator graph.axes) lines graph.points

theorem mapM_parse_toText (row : List R) : (row.map (C.toText F)).mapM (C.parse F) = some row := by
  induction row with
  | nil => rfl
  | cons x row ih =>
    rw [List.map_cons, List.mapM_cons, parse_toText, ih]
    rfl

/-- **Rows.** A row is read back if and only if it has a value for each axis and no value is printed with the separator.
-/
theorem readsRow_iff {separator : Char} {axes : List String} {row : List R} (hne : row ≠ []) :
    ReadsRow C F separator axes ((String.singleton separator).intercalate (row.map (C.toText F))) row ↔
      row.length = axes.length ∧ ∀ x ∈ row, separator ∉ (C.toText F x).toList := by
  have htexts : row.map (C.toText F) ≠ [] := List.map_eq_nil_iff.not.2 hne
  constructor
  · rintro ⟨hcount, hvalues⟩
    have hlength := (Sampling.forall₂_of_mapM hvalues).length_eq
    have hfree := (Text.length_fields_intercalate htexts).1 (by rw [hlength, List.length_map])
    exact ⟨hlength.symm.trans hcount, fun x hx => hfree _ (List.mem_map_of_mem hx)⟩
  · rintro ⟨hlength, hfree⟩
    have hfields := Text.fields_intercalate htexts (List.forall_mem_map.2 hfree)
    refine ⟨?_, ?_⟩
    · rw [hfields, List.length_map, hlength]
    · rw [hfields, mapM_parse_toText]

/-- the axes are named with letters and digits -/
theorem separator_not_mem_axes {separator : Char} (hseparator : separator = ',' ∨ separator = '\t')
    (raw : RawResult R) :
    ∀ axis ∈ (SimulationResult.ofRaw raw).axes, separator ∉ axis.toList := by
  have hdigit : separator.isDigit = false := by rcases hseparator with rfl | rfl <;> decide
  have hindex : ∀ i : ℕ, separator ∉ ("y" ++ toString i).toList := by
    intro i hmem
    rw [String.toList_append, Nat.toString_eq_repr, Nat.toList_repr, List.mem_append] at hmem
    rcases hmem with hy | hi
    · rcases hseparator with rfl | rfl <;> revert hy <;> decide
    · rw [Nat.isDigit_of_mem_toDigits (by norm_num) le_rfl hi] at hdigit
      cases hdigit
  intro axis haxis
  rcases List.mem_cons.1 haxis with rfl | haxis
  · rcases hseparator with rfl | rfl <;> decide
  · cases hraw : raw.results with
    | nil =>
      rw [hraw] at haxis
      cases haxis
    | cons first rest =>
      rw [hraw] at haxis
      obtain ⟨i, -, rfl⟩ := List.mem_map.1 haxis
      exact hindex i

/-- **Graphs.** The lines of a response are read back if and only if all of its rows are. -/
theorem readsBack_iff (P : Platform R) {separator : Char} (hseparator : separator = ',' ∨ separator = '\t')
    (raw : RawResult R) :
    ReadsBack C F separator (.ofRaw raw) (graphLines (C.platform F P) (String.singleton separator) (.ofRaw raw)) ↔
      (SimulationResult.ofRaw raw).Rectangular ∧
        ∀ p ∈ (SimulationResult.ofRaw raw).points, ∀ x ∈ p, separator ∉ (C.toText F x).toList := by
  have haxes : (SimulationResult.ofRaw raw).axes ≠ [] := List.cons_ne_nil _ _
  have hheader := Text.fields_intercalate haxes (separator_not_mem_axes hseparator raw)
  have hrow : ∀ p ∈ (SimulationResult.ofRaw raw).points, p ≠ [] := by
    intro p hp
    obtain ⟨r, -, rfl⟩ := List.mem_map.1 hp
    exact List.cons_ne_nil r.t r.values
  simp only [graphLines, ReadsBack]
  rw [and_iff_right hheader, List.forall₂_map_left_iff, List.forall₂_same,
    SimulationResult.Rectangular, ← forall₂_and]
  exact forall₂_congr fun p hp => readsRow_iff C F (hrow p hp)

/-! ## The stored graphs -/

section Stored

variable {deserializeObject : String → Option (RawResult R)} {ops : List Op} {entry : String × SimulationResult R}

/-- a stored graph comes from a response -/
theorem stored_ofRaw (hentry : entry ∈ (run deserializeObject init ops).vm.storage.graphs) :
    ∃ raw, entry.2 = SimulationResult.ofRaw raw := by
  have hinv : Identity.Inv deserializeObject (run deserializeObject init ops) := Identity.run_inv Identity.inv_init ops
  rw [hinv.contents] at hentry
  obtain ⟨c, hc, hstored⟩ := List.mem_filterMap.1 hentry
  rcases hinv.handled c (List.mem_of_mem_drop hc) with ⟨-, hhandled⟩ | ⟨graph, number, hgraph, hhandled⟩
  · rw [Identity.entry, hhandled] at hstored
    cases hstored
  · rw [Identity.entry, hhandled] at hstored
    cases hstored
    obtain ⟨raw, -, hraw⟩ := Option.map_eq_some_iff.1 hgraph
    exact ⟨raw, hraw.symm⟩

/-- **Comma-separated values.** In every culture, the lines of a stored graph in its .csv file are read back if and only
if its rows have a value for each axis, and no value has a decimal part where the decimal separator is `,`. -/
theorem csv_reads_back_iff (P : Platform R) (hentry : entry ∈ (run deserializeObject init ops).vm.storage.graphs) :
    ReadsBack C F ',' entry.2 (graphLines (C.platform F P) "," entry.2) ↔ entry.2.Rectangular ∧
      (C.decimalSeparator = '.' ∨ ∀ p ∈ entry.2.points, ∀ x ∈ p, '.' ∉ (F.text x).toList) := by
  obtain ⟨raw, hraw⟩ := stored_ofRaw hentry
  rw [hraw, show "," = String.singleton ',' from rfl, readsBack_iff C F P (Or.inl rfl)]
  refine and_congr_right fun _ => ?_
  simp only [comma_mem_toText, not_and]
  constructor
  · intro h
    rcases C.separator_eq with hsep | hsep
    · exact Or.inl hsep
    · exact Or.inr fun p hp x hx => h p hp x hx hsep
  · rintro (hpoint | hwhole) p hp x hx hsep
    · exact absurd (hpoint.symm.trans hsep) (by decide)
    · exact hwhole p hp x hx

/-- a response with the rows (0, 2) and (0.5, 2.5) -/
def halfResponse (_ : String) : Option (RawResult ℕ) := some ⟨[⟨0, [4]⟩, ⟨1, [5]⟩]⟩

/-- the name and the graph that a client stores of it -/
def halfEntry : String × SimulationResult ℕ := ("1. Метод Эйлера", ⟨["t", "y0"], [[0, 4], [1, 5]]⟩)

theorem halfEntry_stored : halfEntry ∈ (run halfResponse init [.solve, .response 0 ""]).vm.storage.graphs := by
  decide

/-- with the decimal separator `.` the halves are read back -/
theorem csv_reads_back_iff_point :
    ReadsBack point halves ',' halfEntry.2 (graphLines (point.platform halves Export.memory) "," halfEntry.2) :=
  (csv_reads_back_iff point halves Export.memory halfEntry_stored).2
    ⟨show ∀ p ∈ [[0, 4], [1, 5]], p.length = 2 by decide, Or.inl rfl⟩

/-- **A row of four fields.** With the decimal separator `,` the row (0.5, 2.5) is split into four fields for two axes.
-/
theorem half_unreadable :
    halfEntry ∈ (run halfResponse init [.solve, .response 0 ""]).vm.storage.graphs ∧
      graphLines (comma.platform halves Export.memory) "," halfEntry.2 = ["t,y0", "0,2", "0,5,2,5"] ∧
      Text.fields ',' "0,5,2,5" = ["0", "5", "2", "5"] ∧
      ¬ ReadsBack comma halves ',' halfEntry.2 (graphLines (comma.platform halves Export.memory) "," halfEntry.2) := by
  have hlines : graphLines (comma.platform halves Export.memory) "," halfEntry.2 = ["t,y0", "0,2", "0,5,2,5"] := by
    decide
  refine ⟨halfEntry_stored, hlines, by decide, fun h => ?_⟩
  rw [hlines] at h
  obtain ⟨-, _ | ⟨-, _ | ⟨hrow, -⟩⟩⟩ := h
  exact absurd hrow.count (by decide)

/-- **Tab-separated values.** The lines of a stored graph in its .txt file are read back in every culture, if its rows
have a value for each axis. -/
theorem txt_reads_back_iff (P : Platform R) (hentry : entry ∈ (run deserializeObject init ops).vm.storage.graphs) :
    ReadsBack C F '\t' entry.2 (graphLines (C.platform F P) "\t" entry.2) ↔ entry.2.Rectangular := by
  obtain ⟨raw, hraw⟩ := stored_ofRaw hentry
  rw [hraw, show "\t" = String.singleton '\t' from rfl, readsBack_iff C F P (Or.inr rfl)]
  exact and_iff_left fun p _ x _ => tab_not_mem_toText C F x

/-- after an export to .txt whose graphs go to files of their own, each file is read back -/
theorem txt_export_reads_back (P : Platform R) {directoryPath : String} {files files' : P.Files}
    (hok : (run deserializeObject init ops).vm.storage.saveGraphsToTxt (C.platform F P) directoryPath files =
      .ok () files')
    (hfiles : Set.InjOn (fun name => P.resolve (graphPath P directoryPath ".txt" name))
      {name | name ∈ (run deserializeObject init ops).vm.storage.graphs.map Prod.fst})
    (hentry : entry ∈ (run deserializeObject init ops).vm.storage.graphs) (hrectangular : entry.2.Rectangular) :
    ∃ lines, P.read files' (graphPath P directoryPath ".txt" entry.1) = some (.lines lines) ∧
      ReadsBack C F '\t' entry.2 lines :=
  ⟨_, (textExported_iff hok).2 (noClash_of_injOn hfiles) entry hentry, (txt_reads_back_iff C F P hentry).2 hrectangular⟩

end Stored

end OdeClientServer.CsvRoundTrip
