/-
The export of the stored graphs: what the target holds when the success dialog is shown.

- `saveAsText_success`: how the dialog is reached in each format. The handler of .xlsx has written nothing.
- `exported_iff`: in the text formats the target holds every graph, unless two different graphs share a file; in .xlsx
  it holds what it held before.
- `text_exported`: names that give files of their own.
- `excel_saves_nothing`: a success dialog without a workbook.
-/
import OdeClientServer.Client.MainWindowViewModel

namespace OdeClientServer.Export

open Client MainWindowViewModel GraphStorage

variable {R : Type} {P : Platform R} {vm : MainWindowViewModel R} {files files' : P.Files} {filePath message : String}

/-- the formats that `SaveAsText` offers -/
inductive Format where
  | xlsx
  | txt
  | csv
deriving DecidableEq, Repr

def Format.extension : Format → String
  | .xlsx => ".xlsx"
  | .txt => ".txt"
  | .csv => ".csv"

/-- where the files of the graphs go: a directory beside the chosen file, or one in its place -/
def directory (P : Platform R) (filePath : String) : Format → String
  | .txt => P.combine (P.getDirectoryName filePath) (P.getFileNameWithoutExtension filePath)
  | _ => filePath

/-- the target holds every stored graph, with its axes and its points in order -/
def Exported (P : Platform R) (filePath : String) (storage : GraphStorage R) (files : P.Files)
    (format : Format) : Prop :=
  match format with
  | .xlsx => WorkbookExported P filePath storage files
  | .txt => TextExported P "\t" ".txt" (directory P filePath .txt) storage files
  | .csv => TextExported P "," ".csv" (directory P filePath .csv) storage files

/-- what has to be so before the export: nothing is written for .xlsx -/
def Ready (P : Platform R) (filePath : String) (storage : GraphStorage R) (files : P.Files) (format : Format) : Prop :=
  match format with
  | .xlsx => WorkbookExported P filePath storage files
  | .txt => NoClash P "\t" ".txt" (directory P filePath .txt) storage
  | .csv => NoClash P "," ".csv" (directory P filePath .csv) storage

theorem saveThenReport_success {body : EStateM Exception P.Files Unit} {success failed : String}
    (h : saveThenReport P body success failed files = (files', .success message)) : body files = .ok () files' := by
  unfold saveThenReport at h
  cases hbody : body files with
  | ok u files1 =>
    rw [hbody] at h
    cases h
    rfl
  | error e files1 =>
    rw [hbody] at h
    cases h

/-- what has been written when the dialog is reached: for .xlsx nothing -/
def Written (P : Platform R) (filePath : String) (storage : GraphStorage R) (files files' : P.Files) : Format → Prop
  | .xlsx => files' = files
  | .txt => ∃ files1, storage.saveGraphsToTxt P (directory P filePath .txt) files1 = .ok () files'
  | .csv => storage.saveGraphsToCsv P (directory P filePath .csv) files = .ok () files'

/-- **Success.** In the text formats the dialog comes after the writer of the format. -/
theorem saveAsText_success (format : Format) (h : vm.saveAsText P (some filePath) files = (files', .success message))
    (hformat : P.toLower (P.getExtension filePath) = format.extension) :
    Written P filePath vm.storage files files' format := by
  by_cases hcount : vm.storage.getGraphCount = 0
  · rw [saveAsText, if_pos hcount] at h
    cases h
  · rw [saveAsText, if_neg hcount] at h
    dsimp only at h
    rw [hformat] at h
    cases format with
    | xlsx =>
      rw [if_pos (show Format.xlsx.extension = ".xlsx" from rfl)] at h
      cases saveThenReport_success h
      rfl
    | txt =>
      rw [if_neg (by decide), if_pos (show Format.txt.extension = ".txt" from rfl)] at h
      obtain ⟨_, files1, -, hrest⟩ := bind_ok.1 (saveThenReport_success h)
      dsimp only at hrest
      split_ifs at hrest
      · obtain ⟨_, files2, -, hsave⟩ := bind_ok.1 hrest
        exact ⟨files2, hsave⟩
      · exact ⟨files1, hrest⟩
    | csv =>
      rw [if_neg (by decide), if_neg (by decide), if_pos (show Format.csv.extension = ".csv" from rfl)] at h
      exact saveThenReport_success h

/-- **Export.** When the success dialog is shown, the target holds every stored graph if and only if the format is a
text format in which graphs that share a file have the same lines, or the workbook was there before. -/
theorem exported_iff (format : Format) (h : vm.saveAsText P (some filePath) files = (files', .success message))
    (hformat : P.toLower (P.getExtension filePath) = format.extension) :
    Exported P filePath vm.storage files' format ↔ Ready P filePath vm.storage files format := by
  have hsuccess := saveAsText_success format h hformat
  cases format with
  | xlsx =>
    obtain rfl : files' = files := hsuccess
    rfl
  | txt =>
    obtain ⟨files1, hsave⟩ := hsuccess
    exact textExported_iff hsave
  | csv => exact textExported_iff hsuccess

/-- **Text formats.** In a directory where the stored names give files of their own, a text export that reports success
holds every graph. -/
theorem text_exported (h : vm.saveAsText P (some filePath) files = (files', .success message)) {format : Format}
    (hformat : P.toLower (P.getExtension filePath) = format.extension) (htext : format ≠ .xlsx)
    (hfiles : Set.InjOn
      (fun name => P.resolve (graphPath P (directory P filePath format) format.extension name))
      {name | name ∈ vm.storage.graphs.map Prod.fst}) : Exported P filePath vm.storage files' format := by
  have hsuccess := saveAsText_success format h hformat
  cases format with
  | xlsx => exact absurd rfl htext
  | txt =>
    obtain ⟨files1, hsave⟩ := hsuccess
    exact (textExported_iff hsave).2 (noClash_of_injOn hfiles)
  | csv => exact (textExported_iff hsuccess).2 (noClash_of_injOn hfiles)

/-! ## A file system in memory -/

/-- paths name their files, and nothing fails -/
def memory : Platform ℕ where
  Files := String → Option (FileContent ℕ)
  resolve path := path
  read files path := files path
  write path content files := .ok () (Function.update files path (some content))
  directoryExists _ _ := true
  createDirectory _ files := .ok () files
  addWorksheet _ _ := .ok ()
  combine path1 path2 := path1 ++ "\\" ++ path2
  getExtension path := String.ofList ('.' :: (path.toList.reverse.takeWhile (· ≠ '.')).reverse)
  getFileNameWithoutExtension path :=
    String.ofList (((path.toList.reverse.takeWhile (· ≠ '\x5c')).dropWhile (· ≠ '.')).drop 1).reverse
  getDirectoryName path := String.ofList ((path.toList.reverse.dropWhile (· ≠ '\x5c')).drop 1).reverse
  toLower path := String.ofList (path.toList.map Char.toLower)
  doubleToString x := toString x
  read_write := by
    rintro path content files files' ⟨⟩ p
    exact Function.update_apply files path (some content) p

/-- a client that has stored one graph -/
def oneGraph : MainWindowViewModel ℕ where
  graphTitle := "RK21"
  selectedMethod := .RungeKutta2
  selectedEquation := .VanDerPol
  serverResponse := ""
  storage := ⟨[("1. RK21", ⟨["t", "y0"], [[0, 2], [1, 3]]⟩)], List.nodup_singleton _⟩

/-- a text export of one graph, as an instance of `exported_iff` -/
theorem exported_iff_txt : Exported memory "C:\\out\\results.txt" oneGraph.storage
    (oneGraph.saveAsText memory (some "C:\\out\\results.txt") fun _ => none).1 .txt := by
  have hsaved : oneGraph.saveAsText memory (some "C:\\out\\results.txt") (fun _ => none) =
      ((oneGraph.saveAsText memory (some "C:\\out\\results.txt") fun _ => none).1,
        .success "Файлы успешно сохранены! Открыть папку в проводнике?") := rfl
  refine (exported_iff .txt hsaved (by decide)).2 ?_
  intro entry hentry entry' hentry' _
  rw [List.mem_singleton.1 hentry, List.mem_singleton.1 hentry']

/-- **Nothing saved.** The dialog reports that the file has been saved, and there is no file. -/
theorem excel_saves_nothing :
    oneGraph.saveAsText memory (some "C:\\out\\results.xlsx") (fun _ => none) =
        (fun _ => none, .success "Файл успешно сохранен! Открыть его для просмотра?") ∧
      ¬ Exported memory "C:\\out\\results.xlsx" oneGraph.storage (fun _ => none) .xlsx := by
  refine ⟨rfl, ?_⟩
  rintro ⟨sheets, hread, -⟩
  cases hread

end OdeClientServer.Export
