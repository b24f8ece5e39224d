/-
The main window (`MainWindowViewModel.cs`): around the requests and the stored graphs of `MainWindowViewModel` the form,
which is validated before a request starts, the chart, and the messages of the snackbar.

- `Window.step`, `Window.run`: every operation of the user, the responses and the ticks of the timer.
-/
import OdeClientServer.Client.Parameters
import OdeClientServer.Client.View

namespace OdeClientServer.Client

/-! ## Model -/

structure Window (R : Type) where
  core : St R
  form : ParameterForm
  /-- what the requests have been sent with -/
  sent : List (ℕ × SentTask)
  view : View R
  /-- the messages of the snackbar -/
  snackbar : List String

inductive FormOp where
  | editTitle (title : String)
  | selectMethod (method : SolutionMethod)
  | selectEquation (equation : EquationType)
  | editParameter (i : ℕ) (value : Decimal)
  | selectI (value : Int32)
  | selectJ (value : Int32)
  | selectK (value : Int32)
  | setDisps (flag : DispsFlag) (value : Bool)

namespace Window

inductive Op (R : Type) where
  | edit (op : FormOp)
  | solve
  | response (request : ℕ) (text : String)
  | deleteCharts
  | view (op : ViewOp R)

section Model

variable {R : Type} [Field R] [LinearOrder R]

def init : Window R := ⟨Client.init, .init, [], .init, []⟩

def storage (w : Window R) : GraphStorage R := w.core.vm.storage

/-- the message of a request that failed -/
def connectionError : String := "Ошибка! Проверьте подключение к серверу и корректность введенных данных."

def showErrorMessage (w : Window R) (message : String) : Window R := { w with snackbar := w.snackbar ++ [message] }

variable (deserializeObject : String → Option (RawResult R))

/-- the operation of the machine of the requests -/
def stepCore (w : Window R) (op : Client.Op) : Window R := { w with core := Client.step deserializeObject w.core op }

def edit (w : Window R) : FormOp → Window R
  | .editTitle title => w.stepCore deserializeObject (.editTitle title)
  | .selectMethod method => w.stepCore deserializeObject (.selectMethod method)
  | .selectEquation equation =>
    let w' := w.stepCore deserializeObject (.selectEquation equation)
    if w.core.vm.selectedEquation ≠ equation then
      { w' with form := { w.form with parameters := updateEquationFormula equation } }
    else w'
  | .editParameter i value => { w with form := w.form.setValue i value }
  | .selectI value => { w with form := { w.form with selectedI := value } }
  | .selectJ value => { w with form := { w.form with selectedJ := value } }
  | .selectK value => { w with form := { w.form with selectedK := value } }
  | .setDisps flag value => { w with form := w.form.setDisps flag value }

/-- `Solve` up to the request; none where the dictionary throws, outside of the try block -/
def solve (w : Window R) : Option (Window R) :=
  match w.form.validateParameters with
  | some message => some (w.showErrorMessage message)
  | none => do
    let task ← buildTask w.form w.core.vm.taskData
    return { w.stepCore deserializeObject .solve with sent := w.sent ++ [(w.core.nextRequest, task)] }

/-- `Solve` after the response -/
def handleResponse (w : Window R) (request : ℕ) (text : String) : Window R :=
  let w' := w.stepCore deserializeObject (.response request text)
  match (w.core.vm.handleResponse deserializeObject text).2 with
  | .stored _ _ =>
    match w.view.outcome (View.showGraph w'.storage) with
    | (view, false) => { w' with view := view }
    | (view, true) => { w' with view := view }.showErrorMessage connectionError
  | _ => w'.showErrorMessage connectionError

/-- none where the program ends -/
def step (w : Window R) : Op R → Option (Window R)
  | .edit op => some (w.edit deserializeObject op)
  | .solve => w.solve deserializeObject
  | .response request text =>
    match w.core.pending.lookup request with
    | none => some w
    | some _ => some (w.handleResponse deserializeObject request text)
  | .deleteCharts =>
    match View.clearCharts w.view with
    | .ok _ view => some { w.stepCore deserializeObject .deleteCharts with view := view }
    | .error _ _ => none
  | .view op => do
    let view ← w.view.step w.storage op
    return { w with view := view }

def run (w : Window R) (ops : List (Op R)) : Option (Window R) := ops.foldlM (step deserializeObject) w

end Model

end Window

end OdeClientServer.Client
