/-
The view model of the main window (`MainWindowViewModel.cs`): the requests it starts, the handler that runs when a
response arrives, and the export of the stored graphs.

A request is in flight from `Solve` until its handler runs on the UI thread. In between the user may edit the title,
select a method or an equation, start further requests and delete the charts. `St` holds the view model, the requests in
flight and a record of the handlers that have run; an operation on a request that is not in flight changes nothing.
-/
import OdeClientServer.Client.GraphStorage

namespace OdeClientServer.Client

inductive SolutionMethod where
  | ExplicitEuler
  | RungeKutta2
  | RK23S
  | STEKS
  | DISPD
  | DISPF
  | DISPS
deriving DecidableEq, Repr

inductive EquationType where
  | Unknown
  | VanDerPol
  | ForcedOscillator
  | RobertsonSystem
deriving DecidableEq, Repr

/-- `Constants.Methods` -/
def methods : SolutionMethod → String
  | .ExplicitEuler => "Метод Эйлера"
  | .RungeKutta2 => "RK21"
  | .RK23S => "RK23S"
  | .STEKS => "STEKS"
  | .DISPD => "DISPD"
  | .DISPF => "DISPF"
  | .DISPS => "DISPS"

/-- what a request is sent with; its parameters are left out -/
structure TaskData where
  method : SolutionMethod
  equation : EquationType
  graphTitle : String
deriving DecidableEq, Repr

structure MainWindowViewModel (R : Type) where
  graphTitle : String
  selectedMethod : SolutionMethod
  selectedEquation : EquationType
  serverResponse : String
  storage : GraphStorage R

/-- how the handler of a response ends -/
inductive Handled (R : Type) where
  | stored (name : String) (graph : SimulationResult R)
  /-- `new SimulationResult` threw -/
  | unreadable
  /-- `AddGraph` threw -/
  | refused (e : Exception)

namespace MainWindowViewModel

variable {R : Type}

/-! ## Requests and responses -/

/-- the constructor -/
def init : MainWindowViewModel R := ⟨methods .ExplicitEuler, .ExplicitEuler, .VanDerPol, "", .empty⟩

def setSelectedMethod (vm : MainWindowViewModel R) (value : SolutionMethod) : MainWindowViewModel R :=
  if vm.selectedMethod ≠ value then { vm with graphTitle := methods value, selectedMethod := value } else vm

/-- an equation without a formula also resets the title -/
def setSelectedEquation (vm : MainWindowViewModel R) (value : EquationType) : MainWindowViewModel R :=
  if vm.selectedEquation ≠ value then
    if value = .Unknown then { vm with selectedEquation := value, graphTitle := "Неизвестный график" }
    else { vm with selectedEquation := value }
  else vm

/-- the task of `Solve`, once its parameters are valid -/
def taskData (vm : MainWindowViewModel R) : TaskData := ⟨vm.selectedMethod, vm.selectedEquation, vm.graphTitle⟩

/-- `$"{number}. {title}"` -/
def numbered (number : ℕ) (title : String) : String := toString number ++ ". " ++ title

/-- `Solve` after the response: a result that can be read is stored under the title of that moment -/
def handleResponse (deserializeObject : String → Option (RawResult R)) (vm : MainWindowViewModel R)
    (response : String) :
    MainWindowViewModel R × Handled R :=
  let vm := { vm with serverResponse := response }
  let name := numbered (vm.storage.getGraphCount + 1) vm.graphTitle
  match SimulationResult.construct deserializeObject vm.serverResponse with
  | none => (vm, .unreadable)
  | some graph =>
    match vm.storage.addGraph name graph with
    | .error e => (vm, .refused e)
    | .ok storage => ({ vm with storage := storage }, .stored name graph)

/-- DeleteChartsCommand -/
def deleteCharts (vm : MainWindowViewModel R) : MainWindowViewModel R := { vm with storage := vm.storage.clear }

end MainWindowViewModel

/-- a handler that has run: its request and response, the title it found, and how it ended -/
structure Completion (R : Type) where
  request : ℕ
  task : TaskData
  response : String
  title : String
  handled : Handled R

structure St (R : Type) where
  vm : MainWindowViewModel R
  /-- requests in flight -/
  pending : List (ℕ × TaskData)
  nextRequest : ℕ
  /-- the handlers that have run, the last one at the end -/
  completions : List (Completion R)
  /-- how many of them had run when the charts were last deleted -/
  cleared : ℕ

inductive Op where
  | editTitle (title : String)
  | selectMethod (method : SolutionMethod)
  | selectEquation (equation : EquationType)
  | solve
  | response (request : ℕ) (text : String)
  | deleteCharts
deriving DecidableEq, Repr

variable {R : Type}

def init : St R := ⟨.init, [], 0, [], 0⟩

def step (deserializeObject : String → Option (RawResult R)) (s : St R) : Op → St R
  | .editTitle title => { s with vm := { s.vm with graphTitle := title } }
  | .selectMethod method => { s with vm := s.vm.setSelectedMethod method }
  | .selectEquation equation => { s with vm := s.vm.setSelectedEquation equation }
  | .solve => { s with pending := s.pending ++ [(s.nextRequest, s.vm.taskData)], nextRequest := s.nextRequest + 1 }
  | .response request text =>
    match s.pending.lookup request with
    | none => s
    | some task =>
      { s with
        vm := (s.vm.handleResponse deserializeObject text).1
        pending := s.pending.filter fun p => p.1 ≠ request
        completions := s.completions ++
          [⟨request, task, text, s.vm.graphTitle, (s.vm.handleResponse deserializeObject text).2⟩] }
  | .deleteCharts => { s with vm := s.vm.deleteCharts, cleared := s.completions.length }

def run (deserializeObject : String → Option (RawResult R)) (s : St R) (ops : List Op) : St R :=
  ops.foldl (step deserializeObject) s

/-! ## Export -/

/-- what the user sees of `SaveAsText` -/
inductive SaveMessage where
  /-- an error, by the snackbar -/
  | failed (message : String)
  /-- the dialog that reports success -/
  | success (message : String)
  | nothing
deriving DecidableEq, Repr

namespace MainWindowViewModel

variable (P : Platform R)

/-- the common shape of the three handlers: the body, then the dialog, or the message of an exception -/
def saveThenReport (body : EStateM Exception P.Files Unit) (success failed : String) (files : P.Files) :
    P.Files × SaveMessage :=
  match body files with
  | .ok () files => (files, .success success)
  | .error e files => (files, .failed (failed ++ e.message))

def saveGraphAsCsv (vm : MainWindowViewModel R) (filePath : String) : P.Files → P.Files × SaveMessage :=
  saveThenReport P (vm.storage.saveGraphsToCsv P filePath) "Файл успешно сохранен! Открыть его для просмотра?"
    "Ошибка при сохранении файла: "

/-- the body of the handler is empty -/
def saveGraphAsExcel (_ : MainWindowViewModel R) (_ : String) : P.Files → P.Files × SaveMessage :=
  saveThenReport P (pure ()) "Файл успешно сохранен! Открыть его для просмотра?" "Ошибка при сохранении файла: "

def saveGraphAsText (vm : MainWindowViewModel R) (directoryPath : String) : P.Files → P.Files × SaveMessage :=
  saveThenReport P
    (do
      if !P.directoryExists (← get) directoryPath then P.createDirectory directoryPath
      vm.storage.saveGraphsToTxt P directoryPath)
    "Файлы успешно сохранены! Открыть папку в проводнике?" "Ошибка при сохранении файлов: "

/-- `SaveAsText`; the dialog answers none if it is cancelled -/
def saveAsText (vm : MainWindowViewModel R) (dialog : Option String) (files : P.Files) : P.Files × SaveMessage :=
  if vm.storage.getGraphCount = 0 then
    (files, .failed "Ошибка! Для сохранения необходимо построить хотя бы один график.")
  else
    match dialog with
    | none => (files, .nothing)
    | some filePath =>
      let extension := P.toLower (P.getExtension filePath)
      let baseName := P.getFileNameWithoutExtension filePath
      let directoryPath := P.combine (P.getDirectoryName filePath) baseName
      if extension = ".xlsx" then vm.saveGraphAsExcel P filePath files
      else if extension = ".txt" then vm.saveGraphAsText P directoryPath files
      else if extension = ".csv" then vm.saveGraphAsCsv P filePath files
      else (files, .nothing)

end MainWindowViewModel

end OdeClientServer.Client
