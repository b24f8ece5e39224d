/-
The response of the POST /solve handler (`Routers.cpp`): the rows of the storage as JSON text, handed over in payloads.

The text is collected in a buffer, which goes to `WriteBody` at the start, at the end and whenever it has 4096 bytes.
Before every row and before every payload the handler asks `isConnected`, and it leaves the loop when the connection is
lost.
-/
import OdeClientServer.Server.JsonText

namespace OdeClientServer.Routers

/-- the answers of `isConnected`, in the order in which they are asked for; a lost connection does not come back -/
structure Connection where
  isConnected : ℕ → Bool
  lost : ∀ n, isConnected n = false → isConnected (n + 1) = false

structure Stream where
  buffer : String
  /-- what `WriteBody` has been given -/
  payloads : List String
  /-- the number of calls of `isConnected` -/
  asked : ℕ
deriving DecidableEq, Repr

def CHUNK_SIZE : ℕ := 4096

/-- `buffer += text` -/
def Stream.append (s : Stream) (text : String) : Stream := { s with buffer := s.buffer ++ text }

/-- a call of `isConnected` -/
def Stream.ask (s : Stream) : Stream := { s with asked := s.asked + 1 }

/-- an empty buffer is not handed over, and then the connection is not asked for either -/
def flushBuffer (conn : Connection) (s : Stream) : Stream :=
  if s.buffer = "" then s
  else if conn.isConnected s.asked then { s.ask with buffer := "", payloads := s.payloads ++ [s.buffer] }
  else s.ask

variable {R : Type}

/-- `result`, with its keys in the order of `dump` -/
def rowJson (row : R × Vec R) : Json R :=
  .object [("t", .numberFloat row.1), ("values", .array (row.2.map .numberFloat))]

/-- the loop over the storage from index i on -/
def streamRows (conn : Connection) (dumpFloat : R → String) : ℕ → List (R × Vec R) → Stream → Stream
  | _, [], s => s
  | i, row :: rows, s =>
    if conn.isConnected s.asked then
      let s := if i > 0 then s.ask.append "," else s.ask
      let s := s.append ((rowJson row).dump dumpFloat)
      streamRows conn dumpFloat (i + 1) rows (if s.buffer.utf8ByteSize ≥ CHUNK_SIZE then flushBuffer conn s else s)
    else s.ask

/-- the streaming of a response, from the first to the last byte of its body -/
def streamResults (conn : Connection) (dumpFloat : R → String) (storage : List (R × Vec R)) : Stream :=
  let s := flushBuffer conn ((⟨"", [], 0⟩ : Stream).append "\x7b\"status\":\"success\",\"results\":")
  let s :=
    if storage.length > 0 then (streamRows conn dumpFloat 0 storage (s.append "[")).append "]"
    else s.append "[]"
  flushBuffer conn (s.append "\x7d")

end OdeClientServer.Routers
