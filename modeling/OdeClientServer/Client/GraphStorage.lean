/-
The graphs that the client keeps (`GraphStorage.cs`): a dictionary from names to results, and the three writers of it.

The dictionary is the list of its entries in the order in which they were added, which is the order it enumerates them
in as long as none is removed. The file system, the paths, the worksheets and the printing of a double belong to
libraries: they are a `Platform`, with the law that a write that does not throw stores what it was given.

- `addGraph_eq_ok`: a name is accepted if it is not blank and new.
- `textExported_iff`: a text writer that does not throw leaves every graph in its file, unless two different graphs
  share one.
- `saveGraphsToXlsx_ok`: the writer of workbooks leaves every graph in a worksheet of its own.
-/
import Mathlib.Tactic
import OdeClientServer.Client.SimulationResult

namespace OdeClientServer.Client

/-- the exceptions of the client, with their messages -/
inductive Exception where
  | argument (message : String)
  | invalidOperation (message : String)
  | library (message : String)
deriving DecidableEq, Repr

def Exception.message : Exception → String
  | .argument message => message
  | .invalidOperation message => message
  | .library message => message

structure GraphStorage (R : Type) where
  graphs : List (String × SimulationResult R)
  nodup : (graphs.map Prod.fst).Nodup

namespace GraphStorage

variable {R : Type}

/-! ## The dictionary -/

def empty : GraphStorage R := ⟨[], List.nodup_nil⟩

/-- `char.IsWhiteSpace` -/
def isWhiteSpace (c : Char) : Bool :=
  decide (9 ≤ c.toNat ∧ c.toNat ≤ 13 ∨ 0x2000 ≤ c.toNat ∧ c.toNat ≤ 0x200a) ||
    [0x20, 0x85, 0xa0, 0x1680, 0x2028, 0x2029, 0x202f, 0x205f, 0x3000].contains c.toNat

def isNullOrWhiteSpace (name : String) : Bool := name.toList.all isWhiteSpace

theorem nodup_append {graphs : List (String × SimulationResult R)} {name : String} (graph : SimulationResult R)
    (hnodup : (graphs.map Prod.fst).Nodup) (hnew : name ∉ graphs.map Prod.fst) :
    ((graphs ++ [(name, graph)]).map Prod.fst).Nodup := by
  rw [List.map_append, List.nodup_append]
  refine ⟨hnodup, List.nodup_singleton name, ?_⟩
  intro a ha b hb hab
  have hname : b = name := List.mem_singleton.1 hb
  rw [hab, hname] at ha
  exact hnew ha

def addGraph (storage : GraphStorage R) (name : String) (graph : SimulationResult R) :
    Except Exception (GraphStorage R) :=
  if isNullOrWhiteSpace name then .error (.argument "Имя графика не может быть пустым.")
  else if h : name ∈ storage.graphs.map Prod.fst then
    .error (.invalidOperation ("График с именем '" ++ name ++ "' уже существует."))
  else .ok ⟨storage.graphs ++ [(name, graph)], nodup_append graph storage.nodup h⟩

def clear (_ : GraphStorage R) : GraphStorage R := empty

def getGraphCount (storage : GraphStorage R) : ℕ := storage.graphs.length

theorem addGraph_eq_ok {storage : GraphStorage R} {name : String} (graph : SimulationResult R)
    (hblank : isNullOrWhiteSpace name = false) (hnew : name ∉ storage.graphs.map Prod.fst) :
    ∃ storage', storage.addGraph name graph = .ok storage' ∧ storage'.graphs = storage.graphs ++ [(name, graph)] := by
  rw [addGraph, if_neg (by simp [hblank]), dif_neg hnew]
  exact ⟨_, rfl, rfl⟩

theorem isWhiteSpace_of_isDigit {c : Char} (hc : c.isDigit = true) : isWhiteSpace c = false := by
  simp only [Char.isDigit, Bool.and_eq_true, decide_eq_true_eq] at hc
  have hlo : 48 ≤ c.toNat := hc.1
  have hhi : c.toNat ≤ 57 := hc.2
  simp only [isWhiteSpace, Bool.or_eq_false_iff, decide_eq_false_iff_not, List.contains_eq_mem, List.mem_cons,
    List.not_mem_nil, or_false]
  omega

/-! ## The writers -/

end GraphStorage

inductive Cell (R : Type) where
  | text (s : String)
  | number (x : R)

inductive FileContent (R : Type) where
  | lines (lines : List String)
  /-- the worksheets with their rows -/
  | workbook (sheets : List (String × List (List (Cell R))))

/-- the libraries behind the writers -/
structure Platform (R : Type) where
  Files : Type
  /-- the file that a path names -/
  resolve : String → String
  read : Files → String → Option (FileContent R)
  write : String → FileContent R → EStateM Exception Files Unit
  directoryExists : Files → String → Bool
  createDirectory : String → EStateM Exception Files Unit
  /-- `Worksheets.Add`, which refuses some names -/
  addWorksheet : List (String × List (List (Cell R))) → String → Except Exception Unit
  combine : String → String → String
  getExtension : String → String
  getFileNameWithoutExtension : String → String
  getDirectoryName : String → String
  toLower : String → String
  /-- a double in the current culture -/
  doubleToString : R → String
  read_write : ∀ {path content files files'}, write path content files = .ok () files' →
    ∀ p, read files' p = if resolve p = resolve path then some content else read files p

namespace GraphStorage

variable {R : Type} (P : Platform R)

/-- the lines of a graph: its axes, and one line for each point -/
def graphLines (separator : String) (graph : SimulationResult R) : List String :=
  separator.intercalate graph.axes :: graph.points.map fun point => separator.intercalate (point.map P.doubleToString)

/-- the cells of a graph -/
def graphRows (graph : SimulationResult R) : List (List (Cell R)) :=
  graph.axes.map .text :: graph.points.map fun point => point.map .number

/-- the file of a graph -/
def graphPath (directoryPath extension name : String) : String := P.combine directoryPath (name ++ extension)

/-- the loop of a text writer -/
def writeGraphs (separator extension directoryPath : String) :
    List (String × SimulationResult R) → EStateM Exception P.Files Unit
  | [] => pure ()
  | (name, graph) :: graphs => do
    P.write (graphPath P directoryPath extension name) (.lines (graphLines P separator graph))
    writeGraphs separator extension directoryPath graphs

/-- one text file for each graph, in a directory that is created if it is missing -/
def saveGraphsAsLines (separator extension : String) (storage : GraphStorage R) (directoryPath : String) :
    EStateM Exception P.Files Unit := do
  if !P.directoryExists (← get) directoryPath then P.createDirectory directoryPath
  writeGraphs P separator extension directoryPath storage.graphs

def saveGraphsToCsv (storage : GraphStorage R) (directoryPath : String) : EStateM Exception P.Files Unit :=
  saveGraphsAsLines P "," ".csv" storage directoryPath

def saveGraphsToTxt (storage : GraphStorage R) (directoryPath : String) : EStateM Exception P.Files Unit :=
  saveGraphsAsLines P "\t" ".txt" storage directoryPath

/-- the loop of `SaveGraphsToXlsx`, after the worksheets so far -/
def addWorksheets : List (String × SimulationResult R) → List (String × List (List (Cell R))) →
    Except Exception (List (String × List (List (Cell R))))
  | [], sheets => .ok sheets
  | (name, graph) :: graphs, sheets => do
    P.addWorksheet sheets name
    addWorksheets graphs (sheets ++ [(name, graphRows graph)])

def saveGraphsToXlsx (storage : GraphStorage R) (filePath : String) : EStateM Exception P.Files Unit :=
  match addWorksheets P storage.graphs [] with
  | .error e => throw e
  | .ok sheets => P.write filePath (.workbook sheets)

/-! ## What the writers leave -/

theorem bind_ok {ε σ α β : Type} {x : EStateM ε σ α} {f : α → EStateM ε σ β} {s s' : σ} {b : β} :
    (x >>= f) s = .ok b s' ↔ ∃ a s1, x s = .ok a s1 ∧ f a s1 = .ok b s' := by
  change EStateM.bind x f s = _ ↔ _
  unfold EStateM.bind
  cases x s with
  | ok a s1 => simp
  | error e s1 => simp

variable {P} {separator extension directoryPath : String} {files files' : P.Files}
  {graphs : List (String × SimulationResult R)}

/-- the file of an entry -/
def graphFile (P : Platform R) (directoryPath extension : String) (entry : String × SimulationResult R) : String :=
  P.resolve (graphPath P directoryPath extension entry.1)

/-- files that no graph goes to stay as they are -/
theorem writeGraphs_frame (hok : writeGraphs P separator extension directoryPath graphs files = .ok () files')
    {p : String} (hp : ∀ entry ∈ graphs, graphFile P directoryPath extension entry ≠ P.resolve p) :
    P.read files' p = P.read files p := by
  induction graphs generalizing files with
  | nil =>
    cases hok
    rfl
  | cons entry graphs ih =>
    obtain ⟨⟨⟩, files1, hwrite, hrest⟩ := bind_ok.1 hok
    have hne : P.resolve p ≠ P.resolve (graphPath P directoryPath extension entry.1) := (hp entry (by simp)).symm
    rw [ih hrest fun g hg => hp g (by simp [hg]), P.read_write hwrite, if_neg hne]

/-- a file that some graph goes to has the lines of one of these graphs, by whatever path it is read -/
theorem writeGraphs_ok (hok : writeGraphs P separator extension directoryPath graphs files = .ok () files')
    {file : String} (hfile : ∃ entry ∈ graphs, graphFile P directoryPath extension entry = file) :
    ∃ entry ∈ graphs, graphFile P directoryPath extension entry = file ∧
      ∀ p, P.resolve p = file → P.read files' p = some (.lines (graphLines P separator entry.2)) := by
  induction graphs generalizing files with
  | nil => exact absurd hfile (by simp)
  | cons entry graphs ih =>
    obtain ⟨⟨⟩, files1, hwrite, hrest⟩ := bind_ok.1 hok
    by_cases hlater : ∃ g ∈ graphs, graphFile P directoryPath extension g = file
    · obtain ⟨g, hg, hgfile, hread⟩ := ih hrest hlater
      exact ⟨g, by simp [hg], hgfile, hread⟩
    · have hentry : graphFile P directoryPath extension entry = file := by
        obtain ⟨g, hg, hgfile⟩ := hfile
        rcases List.mem_cons.1 hg with rfl | hg
        · exact hgfile
        · exact absurd ⟨g, hg, hgfile⟩ hlater
      refine ⟨entry, by simp, hentry, fun p hp => ?_⟩
      have heq : P.resolve p = P.resolve (graphPath P directoryPath extension entry.1) := hp.trans hentry.symm
      rw [writeGraphs_frame hrest fun g hg heq => hlater ⟨g, hg, heq.trans hp⟩, P.read_write hwrite, if_pos heq]

/-- **Text export.** Every graph is in its file: a line with its axes, and then its points in order. -/
def TextExported (P : Platform R) (separator extension directoryPath : String) (storage : GraphStorage R)
    (files : P.Files) : Prop :=
  ∀ entry ∈ storage.graphs, P.read files (graphPath P directoryPath extension entry.1) =
    some (.lines (graphLines P separator entry.2))

/-- graphs that go to one file have the same lines -/
def NoClash (P : Platform R) (separator extension directoryPath : String) (storage : GraphStorage R) : Prop :=
  ∀ entry ∈ storage.graphs, ∀ entry' ∈ storage.graphs,
    graphFile P directoryPath extension entry = graphFile P directoryPath extension entry' →
    graphLines P separator entry.2 = graphLines P separator entry'.2

/-- the writer is the loop, after the directory has been created or found -/
theorem saveGraphsAsLines_ok {storage : GraphStorage R}
    (hok : saveGraphsAsLines P separator extension storage directoryPath files = .ok () files') :
    ∃ files1, writeGraphs P separator extension directoryPath storage.graphs files1 = .ok () files' := by
  obtain ⟨_, files1, -, hrest⟩ := bind_ok.1 hok
  dsimp only at hrest
  split_ifs at hrest
  · obtain ⟨_, files2, -, hwrite⟩ := bind_ok.1 hrest
    exact ⟨files2, hwrite⟩
  · exact ⟨files1, hrest⟩

theorem textExported_iff {storage : GraphStorage R}
    (hok : saveGraphsAsLines P separator extension storage directoryPath files = .ok () files') :
    TextExported P separator extension directoryPath storage files' ↔
      NoClash P separator extension directoryPath storage := by
  obtain ⟨files1, hwrite⟩ := saveGraphsAsLines_ok hok
  constructor
  · intro hexported entry hentry entry' hentry' hclash
    obtain ⟨g, -, -, hread⟩ := writeGraphs_ok hwrite ⟨entry, hentry, rfl⟩
    have h := (hexported entry hentry).symm.trans (hread _ rfl)
    have h' := (hexported entry' hentry').symm.trans (hread _ hclash.symm)
    rw [Option.some.injEq, FileContent.lines.injEq] at h h'
    rw [h, h']
  · intro hclash entry hentry
    obtain ⟨g, hg, hfile, hread⟩ := writeGraphs_ok hwrite ⟨entry, hentry, rfl⟩
    rw [hread _ rfl, hclash g hg entry hentry hfile]

/-- a dictionary whose names give files of their own has no clash -/
theorem noClash_of_injOn {storage : GraphStorage R}
    (hfiles : Set.InjOn (fun name => P.resolve (graphPath P directoryPath extension name))
      {name | name ∈ storage.graphs.map Prod.fst}) : NoClash P separator extension directoryPath storage := by
  intro entry hentry entry' hentry' hclash
  have hname : entry.1 = entry'.1 :=
    hfiles (List.mem_map_of_mem hentry) (List.mem_map_of_mem hentry') hclash
  rw [List.inj_on_of_nodup_map storage.nodup hentry hentry' hname]

/-- **Workbook export.** Every graph is in a worksheet of the workbook. -/
def WorkbookExported (P : Platform R) (filePath : String) (storage : GraphStorage R) (files : P.Files) : Prop :=
  ∃ sheets, P.read files filePath = some (.workbook sheets) ∧
    ∀ entry ∈ storage.graphs, (entry.1, graphRows entry.2) ∈ sheets

theorem addWorksheets_ok {sheets sheets' : List (String × List (List (Cell R)))}
    (hok : addWorksheets P graphs sheets = .ok sheets') :
    sheets' = sheets ++ graphs.map fun entry => (entry.1, graphRows entry.2) := by
  induction graphs generalizing sheets with
  | nil =>
    cases hok
    simp
  | cons entry graphs ih =>
    rw [addWorksheets] at hok
    cases hadd : P.addWorksheet sheets entry.1 with
    | error e =>
      rw [hadd] at hok
      cases hok
    | ok u =>
      rw [hadd] at hok
      rw [ih hok, List.append_assoc]
      rfl

/-- a workbook that is saved holds every graph -/
theorem saveGraphsToXlsx_ok {storage : GraphStorage R} {filePath : String}
    (hok : saveGraphsToXlsx P storage filePath files = .ok () files') :
    WorkbookExported P filePath storage files' := by
  cases hsheets : addWorksheets P storage.graphs [] with
  | error e =>
    simp only [saveGraphsToXlsx, hsheets] at hok
    cases hok
  | ok sheets =>
    simp only [saveGraphsToXlsx, hsheets] at hok
    refine ⟨sheets, by rw [P.read_write hok, if_pos rfl], fun entry hentry => ?_⟩
    rw [addWorksheets_ok hsheets]
    exact List.mem_append_right _ (List.mem_map.2 ⟨entry, hentry, rfl⟩)

end GraphStorage

end OdeClientServer.Client
