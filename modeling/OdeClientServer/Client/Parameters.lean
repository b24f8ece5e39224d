/-
The parameters of the main window: the form (`ParameterViewModel.cs` and `UpdateEquationFormula`), its validation, the
dictionary of `ParameterConverter.cs`, and the body of the request (`TaskData.cs`).

A decimal keeps its digits and its scale, and so is written with as many places as it has. The server reads a number
without places as an integer and any other as a double, which is exact here. The body is the JSON value that the server
makes of the text; the order of members is not kept.

- `buildTask_eq`: the dictionary of a form with the parameters of its equation takes every key.
- `Decimal.toJson_getDouble`: every decimal is read as the number it is.
-/
import Mathlib.Tactic
import OdeClientServer.Core.Lists
import OdeClientServer.Client.MainWindowViewModel
import OdeClientServer.Server.Json

namespace OdeClientServer.Client

/-! ## The form -/

/-- `System.Decimal`: the coefficient divided by a power of ten -/
structure Decimal where
  coefficient : ℤ
  scale : ℕ
deriving DecidableEq, Repr

/-- the power of ten -/
def Decimal.unit (d : Decimal) : ℕ := 10 ^ d.scale

def Decimal.toRat (d : Decimal) : ℚ := d.coefficient / d.unit

/-- `Constants.MIN_VALUE` -/
def MIN_VALUE : Decimal := ⟨-100000000, 0⟩

/-- `Constants.MAX_VALUE` -/
def MAX_VALUE : Decimal := ⟨100000000, 0⟩

structure ParameterViewModel where
  key : String
  name : String
  value : Decimal
deriving DecidableEq, Repr

/-- what the switch of `UpdateEquationFormula` adds; an equation without a formula has no parameters of its own -/
def equationParameters : EquationType → List ParameterViewModel
  | .VanDerPol => [⟨"mu", "μ", ⟨60, 1⟩⟩, ⟨"p", "p", ⟨10, 1⟩⟩, ⟨"y0_init", "н.у. y₀", ⟨20, 1⟩⟩,
    ⟨"y1_init", "н.у. y₁", ⟨0, 1⟩⟩]
  | .ForcedOscillator =>
    [⟨"omega", "ω", ⟨20, 1⟩⟩, ⟨"gamma", "γ", ⟨1, 1⟩⟩, ⟨"F", "F", ⟨10, 1⟩⟩, ⟨"omega_k", "ωₖ", ⟨15, 1⟩⟩,
      ⟨"y0_init", "н.у. y₀", ⟨10, 1⟩⟩, ⟨"y1_init", "н.у. y₁", ⟨0, 1⟩⟩]
  | .RobertsonSystem =>
    [⟨"k1", "k₁", ⟨4, 2⟩⟩, ⟨"k2", "k₂", ⟨100, 0⟩⟩, ⟨"k3", "k₃", ⟨300000, 0⟩⟩, ⟨"y0_init", "н.у. y₀", ⟨10, 1⟩⟩,
      ⟨"y1_init", "н.у. y₁", ⟨0, 1⟩⟩, ⟨"y2_init", "н.у. y₂", ⟨0, 1⟩⟩]
  | .Unknown => []

def updateEquationFormula (equation : EquationType) : List ParameterViewModel :=
  equationParameters equation ++ [⟨"t0", "t₀", ⟨0, 1⟩⟩, ⟨"t1", "t₁", ⟨200, 1⟩⟩, ⟨"tolerance", "ε", ⟨1, 4⟩⟩]

/-- the check boxes of DISPS -/
inductive DispsFlag where
  | Disps13
  | Disps15
  | Disps16
  | Disps23
  | Disps25
  | Disps26
  | Disps33
  | Disps35
  | Disps36
deriving DecidableEq, Repr

/-- in the order in which `Solve` adds them -/
def DispsFlag.all : List DispsFlag :=
  [.Disps13, .Disps15, .Disps16, .Disps23, .Disps25, .Disps26, .Disps33, .Disps35, .Disps36]

def DispsFlag.key : DispsFlag → String
  | .Disps13 => "Disps13"
  | .Disps15 => "Disps15"
  | .Disps16 => "Disps16"
  | .Disps23 => "Disps23"
  | .Disps25 => "Disps25"
  | .Disps26 => "Disps26"
  | .Disps33 => "Disps33"
  | .Disps35 => "Disps35"
  | .Disps36 => "Disps36"

structure ParameterForm where
  parameters : List ParameterViewModel
  selectedI : Int32
  selectedJ : Int32
  selectedK : Int32
  disps : DispsFlag → Bool

namespace ParameterForm

/-- the constructor of the main window -/
def init : ParameterForm := ⟨updateEquationFormula .VanDerPol, 0, 0, 0, fun _ => false⟩

/-- the setter of `ParameterViewModel.Value`, by the position of the parameter in the form -/
def setValue (form : ParameterForm) (i : ℕ) (value : Decimal) : ParameterForm :=
  { form with parameters := form.parameters.modify i fun p => { p with value := value } }

def setDisps (form : ParameterForm) (flag : DispsFlag) (value : Bool) : ParameterForm :=
  { form with disps := Function.update form.disps flag value }

/-! ## Validation -/

/-- `Parameters.FirstOrDefault(p => p.Key == key)?.Value` -/
def valueAt (form : ParameterForm) (key : String) : Option Decimal :=
  (form.parameters.find? fun p => p.key == key).map ParameterViewModel.value

/-- a comparison with null is false -/
def endsBeforeStart (form : ParameterForm) : Bool :=
  match form.valueAt "t1", form.valueAt "t0" with
  | some t1, some t0 => t1.toRat ≤ t0.toRat
  | _, _ => false

/-- `ValidateParameters`: the message, or none if the parameters are valid -/
def validateParameters (form : ParameterForm) : Option String :=
  match form.parameters.find? fun p => p.value.toRat < MIN_VALUE.toRat ∨ MAX_VALUE.toRat < p.value.toRat with
  | some p => some ("\"" ++ p.name ++ "\" выходит за допустимые пределы (" ++ toString MIN_VALUE.coefficient ++ ", " ++
      toString MAX_VALUE.coefficient ++ ").")
  | none => if form.endsBeforeStart then some "t₀ должно быть меньше t₁." else none

end ParameterForm

/-! ## The task -/

def ParameterViewModel.entry (parameter : ParameterViewModel) : String × Decimal := (parameter.key, parameter.value)

/-- `ParameterConverter.ToDictionary`, none where it throws -/
def toDictionary (parameters : List ParameterViewModel) : Option (List (String × Decimal)) :=
  (parameters.map ParameterViewModel.entry).foldlM Lists.add []

/-- the numbers that `Solve` adds to the dictionary -/
def ParameterForm.selections (form : ParameterForm) : List (String × Decimal) :=
  [("I", ⟨form.selectedI.toInt, 0⟩), ("J", ⟨form.selectedJ.toInt, 0⟩), ("K", ⟨form.selectedK.toInt, 0⟩)] ++
    DispsFlag.all.map fun flag => (flag.key, ⟨if form.disps flag then 1 else 0, 0⟩)

/-- what a request is sent with -/
structure SentTask where
  data : TaskData
  parameters : List (String × Decimal)

/-- the task of `Solve`, once its parameters are valid; none where the dictionary throws -/
def buildTask (form : ParameterForm) (data : TaskData) : Option SentTask := do
  let entries ← toDictionary form.parameters
  let entries ← form.selections.foldlM Lists.add entries
  return ⟨data, entries⟩

/-- `SolutionMethod.ToString` -/
def SolutionMethod.name : SolutionMethod → String
  | .ExplicitEuler => "ExplicitEuler"
  | .RungeKutta2 => "RungeKutta2"
  | .RK23S => "RK23S"
  | .STEKS => "STEKS"
  | .DISPD => "DISPD"
  | .DISPF => "DISPF"
  | .DISPS => "DISPS"

/-- `EquationType.ToString` -/
def EquationType.name : EquationType → String
  | .Unknown => "Unknown"
  | .VanDerPol => "VanDerPol"
  | .ForcedOscillator => "ForcedOscillator"
  | .RobertsonSystem => "RobertsonSystem"

section Body

variable {R : Type} [Field R]

/-- a number of the text, as the server reads it -/
def Decimal.toJson (d : Decimal) : Json R :=
  if d.scale = 0 then
    if 0 ≤ d.coefficient then .numberUnsigned d.coefficient.toNat else .numberInteger d.coefficient
  else .numberFloat (d.coefficient / d.unit)

/-- body is what the server makes of `TaskData.ToJson`: the members of an object may be in any order -/
def SentTask.IsBody (task : SentTask) (body : Json R) : Prop :=
  ∃ b, ∃ entries : List (String × Decimal), body = .object b ∧ entries.Perm task.parameters ∧
    b.Perm [("Method", .string task.data.method.name), ("Equation", .string task.data.equation.name),
      ("GraphTitle", .string task.data.graphTitle),
      ("Parameters", .object (entries.map fun entry => (entry.1, entry.2.toJson)))]

end Body

/-! ## Forms of an equation -/

/-- the form has the parameters of the equation -/
def ParameterForm.IsFor (form : ParameterForm) (equation : EquationType) : Prop :=
  form.parameters.map ParameterViewModel.key = (updateEquationFormula equation).map ParameterViewModel.key

namespace ParameterForm

variable {form : ParameterForm} {equation : EquationType}

/-- the user edits values only -/
theorem IsFor.setValue (h : form.IsFor equation) (i : ℕ) (value : Decimal) :
    (form.setValue i value).IsFor equation := by
  rw [IsFor, ← h, ParameterForm.setValue]
  refine List.ext_getElem? fun j => ?_
  rw [List.getElem?_map, List.getElem?_map, List.getElem?_modify]
  split_ifs <;> cases form.parameters[j]? <;> rfl

/-- the entries of the dictionary -/
def entries (form : ParameterForm) : List (String × Decimal) :=
  form.parameters.map ParameterViewModel.entry ++ form.selections

theorem selections_keys (form : ParameterForm) :
    form.selections.map Prod.fst = ["I", "J", "K"] ++ DispsFlag.all.map DispsFlag.key := rfl

theorem IsFor.entries_keys (h : form.IsFor equation) :
    form.entries.map Prod.fst = (updateEquationFormula equation).map ParameterViewModel.key ++
      (["I", "J", "K"] ++ DispsFlag.all.map DispsFlag.key) := by
  rw [entries, List.map_append, selections_keys, List.map_map, ← h]
  rfl

/-- **Keys.** No two entries have the same key. -/
theorem IsFor.entries_nodup (h : form.IsFor equation) : (form.entries.map Prod.fst).Nodup := by
  rw [h.entries_keys]
  cases equation <;> decide

/-- **No exception.** The dictionary takes every key. -/
theorem IsFor.buildTask_eq (h : form.IsFor equation) (data : TaskData) :
    buildTask form data = some ⟨data, form.entries⟩ := by
  have hall := h.entries_nodup
  have hparameters : (([] ++ form.parameters.map ParameterViewModel.entry).map Prod.fst).Nodup := by
    rw [entries, List.map_append] at hall
    exact (List.nodup_append.1 hall).1
  rw [buildTask, toDictionary, Lists.addAll_eq hparameters, List.nil_append, Option.bind_eq_bind, Option.bind_some,
    Lists.addAll_eq hall]
  rfl

/-- a parameter of the form is found under its key -/
theorem entries_lookup {key : String} (hkey : key ∈ form.parameters.map ParameterViewModel.key) :
    form.entries.lookup key = form.valueAt key := by
  have hfind : ∀ parameters : List ParameterViewModel, (parameters.map ParameterViewModel.entry).lookup key =
      (parameters.find? fun p => p.key == key).map ParameterViewModel.value := by
    intro parameters
    induction parameters with
    | nil => rfl
    | cons p parameters ih =>
      rw [List.map_cons, List.lookup_cons, List.find?_cons, ih, ParameterViewModel.entry, Bool.beq_comm]
      cases p.key == key <;> rfl
  obtain ⟨p, hp, rfl⟩ := List.mem_map.1 hkey
  have hsome : (form.parameters.find? fun q => q.key == p.key).isSome := List.find?_isSome.2 ⟨p, hp, by simp⟩
  obtain ⟨q, hq⟩ := Option.isSome_iff_exists.1 hsome
  rw [entries, List.lookup_append, hfind, valueAt, hq]
  rfl

end ParameterForm

/-! ## Numbers -/

section Numbers

variable {R : Type} [Field R]

/-- the number as a double -/
def Decimal.cast (d : Decimal) : R := d.coefficient / d.unit

/-- the number that the user sees under a key, 0 if there is none -/
def ParameterForm.entered (form : ParameterForm) (key : String) : R := ((form.valueAt key).map Decimal.cast).getD 0

/-- every token of a decimal is read as its number -/
theorem Decimal.toJson_getDouble (d : Decimal) : (d.toJson : Json R).getDouble = .ok d.cast := by
  have hwhole : d.scale = 0 → (d.cast : R) = d.coefficient := by
    intro hscale
    rw [Decimal.cast, Decimal.unit, hscale, pow_zero, Nat.cast_one, div_one]
  unfold Decimal.toJson
  split_ifs with hscale hsign
  · have hnat : ((d.coefficient.toNat : ℤ) : R) = d.coefficient := by rw [Int.toNat_of_nonneg hsign]
    rw [Json.getDouble, hwhole hscale, ← hnat, Int.cast_natCast]
  · rw [Json.getDouble, hwhole hscale]
  · rfl

/-- an integer of the form is read as it is -/
theorem Decimal.toJson_getInt [LinearOrder R] [FloorRing R] (n : Int32) :
    ((⟨n.toInt, 0⟩ : Decimal).toJson : Json R).getInt = .ok n.toInt := by
  have hmod : n.toInt.bmod (2 ^ 32) = n.toInt := n.toInt_bmod
  unfold Decimal.toJson
  rw [if_pos rfl]
  split_ifs with hsign
  · rw [Json.getInt, Int.toNat_of_nonneg hsign, hmod]
  · rw [Json.getInt, hmod]

end Numbers

end OdeClientServer.Client
