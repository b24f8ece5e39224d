/-
Streaming a result and reading it back. The payloads of a response are compared with the text that `dump` would print of
the whole result.

- `Follows`: the invariant of the stream. Its payloads and its buffer are the text so far, or the connection is lost and
  the payloads are a prefix of it.
- `streamRows_follows`: the loop keeps it, for every split into payloads.
- `stream_lossless`: the payloads, and what the client reads from them.
-/
import OdeClientServer.Client.SimulationResult
import OdeClientServer.Server.Streaming

namespace OdeClientServer.Streaming

open Routers Client

variable {R : Type} {conn : Connection} {dumpFloat : R → String} {s : Stream} {text : String}

/-! ## The document in one piece -/

/-- the unstreamed document -/
def document (dumpFloat : R → String) (storage : List (R × Vec R)) : String :=
  (Json.object [("status", .string "success"), ("results", .array (storage.map rowJson))]).dump dumpFloat

/-- the text of the rows from index i on -/
def rowsText (dumpFloat : R → String) : ℕ → List (R × Vec R) → String
  | _, [] => ""
  | i, row :: rows => (if i > 0 then "," else "") ++ (rowJson row).dump dumpFloat ++ rowsText dumpFloat (i + 1) rows

theorem rowsText_index (i j : ℕ) (rows : List (R × Vec R)) :
    rowsText dumpFloat (i + 1) rows = rowsText dumpFloat (j + 1) rows := by
  induction rows generalizing i j with
  | nil => rfl
  | cons row rows ih =>
    rw [rowsText, rowsText, if_pos (Nat.succ_pos i), if_pos (Nat.succ_pos j), ih (i + 1) (j + 1)]

theorem rowsText_zero (rows : List (R × Vec R)) :
    rowsText dumpFloat 0 rows = ",".intercalate (rows.map fun row => (rowJson row).dump dumpFloat) := by
  induction rows with
  | nil => simp [rowsText]
  | cons row rows ih =>
    rw [rowsText, if_neg (lt_irrefl 0), String.empty_append]
    cases rows with
    | nil => simp [rowsText]
    | cons row' rows =>
      have hcomma : rowsText dumpFloat (0 + 1) (row' :: rows) = "," ++ rowsText dumpFloat 0 (row' :: rows) := by
        rw [rowsText, rowsText, if_pos (Nat.succ_pos 0), if_neg (lt_irrefl 0), rowsText_index (0 + 1) 0]
        simp only [String.append_assoc, String.empty_append]
      rw [List.map_cons] at ih
      rw [List.map_cons, List.map_cons, String.intercalate_cons_cons, hcomma, ih, String.append_assoc]

/-- the document as the handler puts it together -/
theorem document_eq (storage : List (R × Vec R)) : document dumpFloat storage =
    "\x7b\"status\":\"success\",\"results\":" ++ "[" ++ rowsText dumpFloat 0 storage ++ "]" ++ "\x7d" := by
  have hstatus : Json.dumpString "status" = "\"status\"" := by decide
  have hsuccess : Json.dumpString "success" = "\"success\"" := by decide
  have hresults : Json.dumpString "results" = "\"results\"" := by decide
  rw [rowsText_zero, document, Json.dump, Json.dumpMembers_eq, List.map_cons, List.map_cons, List.map_nil,
    String.intercalate_cons_cons, String.intercalate_singleton, Json.memberText, Json.memberText, Json.dump, Json.dump,
    Json.dumpValues_eq, List.map_map, hstatus, hsuccess, hresults]
  simp only [← String.append_assoc]
  rfl

/-! ## The invariant -/

/-- **Follows.** The payloads and the buffer are the text, or the connection is lost and the payloads are a prefix of
it. -/
structure Follows (conn : Connection) (s : Routers.Stream) (text : String) : Prop where
  nonempty : ∀ payload ∈ s.payloads, payload ≠ ""
  state : String.join s.payloads ++ s.buffer = text ∨
    conn.isConnected s.asked = false ∧ ∃ rest, text = String.join s.payloads ++ rest

theorem Follows.append (hs : Follows conn s text) (more : String) : Follows conn (s.append more) (text ++ more) where
  nonempty := hs.nonempty
  state := by
    rcases hs.state with h | ⟨hlost, rest, h⟩
    · exact Or.inl (by rw [← h, String.append_assoc]; rfl)
    · exact Or.inr ⟨hlost, rest ++ more, by rw [h, String.append_assoc]; rfl⟩

theorem Follows.ask (hs : Follows conn s text) : Follows conn s.ask text where
  nonempty := hs.nonempty
  state := hs.state.imp_right fun ⟨hlost, rest, h⟩ => ⟨conn.lost _ hlost, rest, h⟩

/-- once the connection is lost, the text may go on in any way -/
theorem Follows.lost (hs : Follows conn s text) (hlost : conn.isConnected s.asked = false) (more : String) :
    Follows conn s.ask (text ++ more) where
  nonempty := hs.nonempty
  state := by
    refine Or.inr ⟨conn.lost _ hlost, ?_⟩
    rcases hs.state with h | ⟨-, rest, h⟩
    · exact ⟨s.buffer ++ more, by rw [← h, String.append_assoc]; rfl⟩
    · exact ⟨rest ++ more, by rw [h, String.append_assoc]; rfl⟩

theorem Follows.flushBuffer (hs : Follows conn s text) : Follows conn (flushBuffer conn s) text := by
  unfold Routers.flushBuffer
  split_ifs with hempty hconn
  · exact hs
  · refine ⟨?_, Or.inl ?_⟩
    · intro payload hpayload
      rcases List.mem_append.1 hpayload with h | h
      · exact hs.nonempty payload h
      · exact List.mem_singleton.1 h ▸ hempty
    · rcases hs.state with h | ⟨hlost, -⟩
      · rw [← h]
        simp
      · rw [hconn] at hlost
        cases hlost
  · exact hs.ask

/-- **The loop.** The induction is on the rows that are left; the text of those after a lost connection is missing, and
may be any. -/
theorem streamRows_follows (rows : List (R × Vec R)) (i : ℕ) (hs : Follows conn s text) :
    Follows conn (streamRows conn dumpFloat i rows s) (text ++ rowsText dumpFloat i rows) := by
  induction rows generalizing i s text with
  | nil => simpa [streamRows, rowsText] using hs
  | cons row rows ih =>
    rw [streamRows]
    by_cases hconn : conn.isConnected s.asked = true
    · rw [if_pos hconn]
      dsimp only
      have hcomma : Follows conn (if i > 0 then s.ask.append "," else s.ask) (text ++ if i > 0 then "," else "") := by
        split_ifs
        · exact hs.ask.append ","
        · simpa using hs.ask
      generalize (if i > 0 then s.ask.append "," else s.ask) = s1 at hcomma ⊢
      have hrow := hcomma.append ((rowJson row).dump dumpFloat)
      rw [rowsText, ← String.append_assoc, ← String.append_assoc]
      by_cases hsize : (s1.append ((rowJson row).dump dumpFloat)).buffer.utf8ByteSize ≥ CHUNK_SIZE
      · rw [if_pos hsize]
        exact ih (i + 1) hrow.flushBuffer
      · rw [if_neg hsize]
        exact ih (i + 1) hrow
    · rw [if_neg hconn]
      exact hs.lost (Bool.eq_false_of_not_eq_true hconn) _

theorem streamResults_follows (conn : Connection) (dumpFloat : R → String) (storage : List (R × Vec R)) :
    Follows conn (streamResults conn dumpFloat storage) (document dumpFloat storage) := by
  have hstart : Follows conn (⟨"", [], 0⟩ : Routers.Stream) "" := ⟨nofun, Or.inl rfl⟩
  have hhead := (hstart.append "\x7b\"status\":\"success\",\"results\":").flushBuffer
  rw [String.empty_append] at hhead
  rw [document_eq, streamResults]
  refine Follows.flushBuffer (Follows.append ?_ "\x7d")
  split_ifs with hrows
  · exact (streamRows_follows storage 0 (hhead.append "[")).append "]"
  · obtain rfl : storage = [] := List.length_eq_zero_iff.1 (Nat.eq_zero_of_not_pos hrows)
    simpa [rowsText, String.append_assoc] using hhead.append "[]"

/-- with the connection up the last flush leaves nothing in the buffer -/
theorem flushBuffer_buffer (hconn : conn.isConnected s.asked = true) : (flushBuffer conn s).buffer = "" := by
  unfold flushBuffer
  split_ifs with hempty
  · exact hempty
  · rfl

theorem streamResults_buffer (hconn : ∀ n, conn.isConnected n = true) (storage : List (R × Vec R)) :
    (streamResults conn dumpFloat storage).buffer = "" := flushBuffer_buffer (hconn _)

/-! ## Reading back -/

/-- the JSON value of a raw point, with the names of its JsonProperty attributes -/
def pointJson (point : RawPoint R) : Json R :=
  .object [("t", .numberFloat point.t), ("values", .array (point.values.map .numberFloat))]

/-- **Faithful.** Of the text of an object whose member results is an array of raw points, `DeserializeObject` makes
these points, whatever other members the object has. -/
def Faithful (deserializeObject : String → Option (RawResult R)) (dumpFloat : R → String) : Prop :=
  ∀ (members : List (String × Json R)) (raw : RawResult R), (Json.object members).Plain →
    members.lookup "results" = some (.array (raw.results.map pointJson)) →
    deserializeObject ((Json.object members).dump dumpFloat) = some raw

theorem rowJson_plain (row : R × Vec R) : (rowJson row).Plain := by
  have ht : Json.Clear "t" := Json.clear_of_isAlpha (by decide)
  have hvalues : Json.Clear "values" := Json.clear_of_isAlpha (by decide)
  refine .object (by simp) ?_ ?_
  · simp [ht, hvalues]
  · simp only [List.mem_cons, List.not_mem_nil, or_false, forall_eq_or_imp, forall_eq]
    refine ⟨.numberFloat _, .array fun value hvalue => ?_⟩
    obtain ⟨x, -, rfl⟩ := List.mem_map.1 hvalue
    exact .numberFloat x

/-- the client reads the unstreamed document as the rows -/
theorem construct_document {deserializeObject : String → Option (RawResult R)}
    (hread : Faithful deserializeObject dumpFloat) (storage : List (R × Vec R)) :
    ∃ result, SimulationResult.construct deserializeObject (document dumpFloat storage) = some result ∧
      result.points = storage.map fun row => row.1 :: row.2 := by
  have hstatus : Json.Clear "status" := Json.clear_of_isAlpha (by decide)
  have hsuccess : Json.Clear "success" := Json.clear_of_isAlpha (by decide)
  have hresults : Json.Clear "results" := Json.clear_of_isAlpha (by decide)
  have hplain : (Json.object [("status", .string "success"), ("results", .array (storage.map rowJson))]).Plain := by
    refine .object (by simp) ?_ ?_
    · simp [hstatus, hresults]
    · simp only [List.mem_cons, List.not_mem_nil, or_false, forall_eq_or_imp, forall_eq]
      refine ⟨.string hsuccess, .array fun value hvalue => ?_⟩
      obtain ⟨row, -, rfl⟩ := List.mem_map.1 hvalue
      exact rowJson_plain row
  have hraw := hread _ ⟨storage.map fun row => ⟨row.1, row.2⟩⟩ hplain (by rw [List.map_map]; rfl)
  refine ⟨_, by rw [SimulationResult.construct, document, hraw, Option.map_some], ?_⟩
  rw [SimulationResult.ofRaw, List.map_map]
  rfl

/-- **Streaming is lossless.** For every storage and every connection the payloads are not empty, and together they are
a prefix of the unstreamed document. If the connection is not lost they are the whole of it, and the client reads it as
the rows [t, y0, y1, ...] in their order. -/
theorem stream_lossless {deserializeObject : String → Option (RawResult R)}
    (hread : Faithful deserializeObject dumpFloat) (conn : Connection) (storage : List (R × Vec R)) :
    (∀ payload ∈ (streamResults conn dumpFloat storage).payloads, payload ≠ "") ∧
      (∃ rest, document dumpFloat storage = String.join (streamResults conn dumpFloat storage).payloads ++ rest) ∧
      ((∀ n, conn.isConnected n = true) →
        String.join (streamResults conn dumpFloat storage).payloads = document dumpFloat storage ∧
          ∃ result, SimulationResult.construct deserializeObject
              (String.join (streamResults conn dumpFloat storage).payloads) = some result ∧
            result.points = storage.map fun row => row.1 :: row.2) := by
  obtain ⟨hnonempty, hstate⟩ := streamResults_follows conn dumpFloat storage
  refine ⟨hnonempty, ?_, fun hconn => ?_⟩
  · rcases hstate with h | ⟨-, rest, h⟩
    · exact ⟨_, h.symm⟩
    · exact ⟨rest, h⟩
  · have hwhole : String.join (streamResults conn dumpFloat storage).payloads = document dumpFloat storage := by
      rcases hstate with h | ⟨hlost, -⟩
      · rwa [streamResults_buffer hconn, String.append_empty] at h
      · rw [hconn] at hlost
        cases hlost
    rw [hwhole]
    exact ⟨rfl, construct_document hread storage⟩

/-! ## A client for whole numbers -/

/-- the doubles that are natural numbers, as `dump` prints them -/
def wholeText : Json.FloatText ℕ where
  print n := toString n ++ ".0"
  read s := some (Nat.ofDigitChars 10 (s.toList.takeWhile Char.isDigit) 0)
  read_print n := by
    rw [String.toList_append]
    exact congrArg some (by
      rw [show (".0" : String).toList = ['.', '0'] from rfl, Text.takeWhile_isDigit_repr n (by decide),
        Nat.ofDigitChars_ten_toDigits])
  print_ne n := by
    rw [String.toList_append]
    exact List.append_ne_nil_of_right_ne_nil _ (by decide)
  print_chars n c hc := by
    rw [String.toList_append, Nat.toString_eq_repr, Nat.toList_repr, List.mem_append] at hc
    have hpoint : (".0" : String).toList.all Json.isNumberChar = true := by decide
    rcases hc with hc | hc
    · simp [Json.isNumberChar, Nat.isDigit_of_mem_toDigits (by norm_num) le_rfl hc]
    · exact List.all_eq_true.1 hpoint c hc

def float : Json R → Option R
  | .numberFloat x => some x
  | _ => none

def rawPoint : Json R → Option (RawPoint R)
  | .object [("t", .numberFloat t), ("values", .array values)] =>
    (values.mapM float).map fun values => ⟨t, values⟩
  | _ => none

/-- a deserializer that knows the classes of the client -/
def rawResult (F : Json.FloatText R) (text : String) : Option (RawResult R) :=
  match Json.parse F text with
  | some (.object members) =>
    match members.lookup "results" with
    | some (.array values) => (values.mapM rawPoint).map RawResult.mk
    | _ => none
  | _ => none

theorem mapM_map_some {α β : Type} {f : α → β} {g : β → Option α} (hg : ∀ a, g (f a) = some a) (as : List α) :
    (as.map f).mapM g = some as := by
  induction as with
  | nil => rfl
  | cons a as ih => simp [hg, ih]

theorem rawResult_faithful (F : Json.FloatText R) : Faithful (rawResult F) F.print := by
  intro members raw hplain hresults
  have hfloat : ∀ x : R, float (Json.numberFloat x) = some x := fun _ => rfl
  have hpoint : ∀ point : RawPoint R, rawPoint (pointJson point) = some point := fun point => by
    rw [pointJson, rawPoint, mapM_map_some hfloat, Option.map_some]
  rw [rawResult, Json.parse_dump hplain]
  dsimp only
  rw [hresults]
  dsimp only
  rw [mapM_map_some hpoint, Option.map_some]

/-- two rows over a connection that stays up, as an instance of `stream_lossless` -/
theorem stream_lossless_rows :
    ∃ result, SimulationResult.construct (rawResult wholeText) (String.join
        (streamResults ⟨fun _ => true, nofun⟩ wholeText.print [(0, [2, 0]), (1, [3])]).payloads) = some result ∧
      result.points = [[0, 2, 0], [1, 3]] :=
  ((stream_lossless (rawResult_faithful wholeText) ⟨fun _ => true, nofun⟩ [(0, [2, 0]), (1, [3])]).2.2 fun _ => rfl).2

end OdeClientServer.Streaming
