/-
A request between the main window and the server (`TaskSolverService.cs`): the body of the task, the response of the
handler of POST /solve, and the text that the window gets.

The numbers of the server are exact, and a row is printed with the doubles that `round` gives for them. A server that is
down, a connection that breaks off and a timeout are exceptions in the client, at any time.

- `Reply`: the texts that `SolveTaskAsync` can return for a task.
- `Reach`: the window and the server together; the responses arrive in any order.
-/
import OdeClientServer.Client.Window
import OdeClientServer.Server.Handler
import OdeClientServer.Server.Streaming

namespace OdeClientServer.Client

open Routers

/-! ## Model -/

variable {R K : Type}

/-- the rows with the doubles that are printed -/
def printedRows (round : R → K) (rows : List (R × Vec R)) : List (K × Vec K) :=
  rows.map fun row => (round row.1, row.2.map round)

/-- the text of a response: the payloads of a status 200 in one piece, or the name of another status; none if there is
none -/
def responseText (round : R → K) (dumpFloat : K → String) (conn : Connection) : Response R → Option String
  | .badRequest _ => some "Ошибка: BadRequest"
  | .serverError _ => some "Ошибка: InternalServerError"
  | .success rows => some (String.join (streamResults conn dumpFloat (printedRows round rows)).payloads)
  | _ => none

section System

variable [Field R] [LinearOrder R] [FloorRing R] [CMath R] (round : R → K) (dumpFloat : K → String)

/-- what `SolveTaskAsync` can return for a task -/
inductive Reply (task : SentTask) : String → Prop
  /-- a response, read to its end -/
  | response {rt : Runtime R} {body : Json R} {fuel n : ℕ} {conn : Connection} {text : String}
    (hbody : task.IsBody body)
      (hconn : ∀ i, conn.isConnected i = true)
      (htext : responseText round dumpFloat conn (solveHandler rt (.ok body) fuel n) = some text) : Reply task text
  /-- an exception -/
  | failed (message : String) : Reply task ("Ошибка соединения: " ++ message)

/-- an operation that can come next: the text of a response is a reply to its task -/
def Arrives (w : Window K) : Window.Op K → Prop
  | .response request text => ∃ task, (request, task) ∈ w.sent ∧ Reply round dumpFloat task text
  | _ => True

variable [Field K] [LinearOrder K]

/-- the states of the window in front of the server -/
inductive Reach (deserializeObject : String → Option (RawResult K)) : Window K → Prop
  | init : Reach deserializeObject Window.init
  | step {w w' : Window K} {op : Window.Op K} (h : Reach deserializeObject w) (harrives : Arrives round dumpFloat w op)
      (hstep : Window.step deserializeObject w op = some w') : Reach deserializeObject w'

end System

end OdeClientServer.Client
