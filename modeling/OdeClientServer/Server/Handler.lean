/-
The POST /solve handler (`Routers.cpp`) from the parsed body to the response.

The body is read with the mutable `operator[]`, and an exception there is answered with 400. The parameters are captured
by the detached thread, so its lookups are constant: an exception is answered with 500, but a missing key is a failed
assertion and ends the process. `ParseDispsFlags` asks `contains` first; t0, t1, tolerance and the I, J, K of DISPF are
looked up without asking.

- `enabled_not_aborts`: the guarded lookups are safe.
- `readRequest_aborts_iff`: the first lookups that are not.
- `survives_iff`: which JSON values cannot end the process by any lookup.
- `missing_keys_abort`: the process ends on a request without t0, and on one to DISPF without I, J and K.
-/
import OdeClientServer.Server.Json
import OdeClientServer.Server.ParseUtils
import OdeClientServer.Server.Routers

namespace OdeClientServer.Routers

open Loop ParseUtils

/-! ## Model -/

/-- what the standard library and uninitialised memory leave open -/
structure Runtime (R : Type) where
  sort : List (ℕ × R) → List (ℕ × R)
  sort_isSort : IsSort sort
  /-- the order in which an `unordered_map` enumerates its entries -/
  enumerate : List (String × R) → List (String × R)
  enumerate_perm : ∀ l, (enumerate l).Perm l
  /-- what the DISPD constructor leaves uninitialised -/
  currentScheme : DISPDSolver.SchemeParams R

/-- how a request ends -/
inductive Response (R : Type) where
  /-- 400 -/
  | badRequest (body : String)
  /-- 500 -/
  | serverError (body : String)
  /-- the stream of rows, with status success -/
  | success (rows : List (R × Vec R))
  /-- a failed assertion in a lookup ends the process -/
  | processDown (key : String)
  /-- undefined behaviour inside `Solve` -/
  | undefined
  /-- `Solve` has not returned after the passes it was given -/
  | unfinished

section Model

variable {R : Type} [Field R]

/-- `Except` of the solver library among the reads -/
def lift {α : Type} : Except Exn α → Except Stop α
  | .ok a => .ok a
  | .error e => .error (.threw e)

/-- what the outer try block reads: the task name, the method and the parameters -/
def accept (body : Json R) : Except Stop (String × String × Json R) := do
  let (body, equation) ← body.subscript "Equation"
  let taskName ← equation.getString
  let (body, methodValue) ← body.subscript "Method"
  let method ← methodValue.getString
  let (_, parameters) ← body.subscript "Parameters"
  return (taskName, method, parameters)

/-- `TaskManager::LoadParameters`; the keys of `items()` differ, so each item is an entry of its own -/
def loadParameters : List (String × Json R) → Except Stop (List (String × R))
  | [] => .ok []
  | (key, value) :: items => do
    let x ← value.getDouble
    let entries ← loadParameters items
    return (key, x) :: entries

variable [LinearOrder R] [FloorRing R]

/-- `params.contains(key) && params[key].get<int>() == 1` -/
def enabled (params : Json R) (key : String) : Except Stop Bool := do
  if params.contains key then
    let value ← params.subscriptConst key
    let n ← value.getInt
    return n = 1
  else return false

def parseDispsFlags (params : Json R) : Except Stop DISPSSolver.DispsEnabledFlags := do
  let disps13 ← enabled params "Disps13"
  let disps15 ← enabled params "Disps15"
  let disps23 ← enabled params "Disps23"
  let disps25 ← enabled params "Disps25"
  let disps35 ← enabled params "Disps35"
  let disps36 ← enabled params "Disps36"
  return ⟨disps13, disps15, disps23, disps25, disps35, disps36⟩

/-- `parameters[key].get<double>()` -/
def doubleAt (parameters : Json R) (key : String) : Except Stop R := do
  let value ← parameters.subscriptConst key
  value.getDouble

/-- `parameters[key].get<int>()` -/
def intAt (parameters : Json R) (key : String) : Except Stop ℤ := do
  let value ← parameters.subscriptConst key
  value.getInt

/-- what the branch of the method reads. The compiler may look up I, J and K in another order: by then every parameter
is known to be a number, so the order is only seen in the key of a failed assertion. -/
def readMethod (req : SolveRequest R) (parameters : Json R) : Except Stop (SolveRequest R) :=
  if req.method = "DISPF" then do
    let I ← intAt parameters "I"
    let J ← intAt parameters "J"
    let K ← intAt parameters "K"
    return { req with I := I, J := J, K := K }
  else if req.method = "DISPS" then do
    let flags ← parseDispsFlags parameters
    return { req with flags := flags }
  else return req

variable [CMath R]

/-- the reads after `LoadParameters`; I, J, K and the flags are there for the methods that read them -/
def readLoaded (rt : Runtime R) (taskName method : String) (parameters : Json R) (t0 tEnd tolerance : R)
    (entries : List (String × R)) : Except Stop (SolveRequest R) := do
  let y0 ← lift (extractInitialConditions rt.sort (rt.enumerate entries))
  let odeFunction ← lift (TaskManager.getTask (fun name => (entries.lookup name).getD 0) taskName)
  readMethod ⟨method, odeFunction, t0, tEnd, tolerance, y0, 0, 0, 0, ⟨false, false, false, false, false, false⟩⟩
    parameters

/-- what the thread reads before `Solve` -/
def readRequest (rt : Runtime R) (taskName method : String) (parameters : Json R) : Except Stop (SolveRequest R) := do
  let t0 ← doubleAt parameters "t0"
  let tEnd ← doubleAt parameters "t1"
  let tolerance ← doubleAt parameters "tolerance"
  let entries ← loadParameters parameters.items
  readLoaded rt taskName method parameters t0 tEnd tolerance entries

/-- the catch block of the thread -/
def caught (e : Exn) : Response R :=
  match e.what with
  | some what => .serverError ("Error: " ++ what)
  | none => .undefined

/-- the thread -/
def solveThread (rt : Runtime R) (taskName method : String) (parameters : Json R) (fuel n : ℕ) : Response R :=
  match readRequest rt taskName method parameters with
  | .error (.threw e) => caught e
  | .error (.aborted key) => .processDown key
  | .ok req =>
    match solve req rt.currentScheme fuel n with
    | .exit rows => .success rows
    | .raise e _ => caught e
    | .next _ => .unfinished
    | .starved _ => .unfinished

/-- the handler, on what `json::parse` makes of the body; `Solve` makes at most n passes -/
def solveHandler (rt : Runtime R) (parsed : Except Exn (Json R)) (fuel n : ℕ) : Response R :=
  match (do accept (← lift parsed)) with
  | .error (.threw e) => .badRequest ("Error: " ++ e.what.getD "")
  | .error (.aborted key) => .processDown key
  | .ok (taskName, method, parameters) => solveThread rt taskName method parameters fuel n

end Model

/-! ## Reads -/

theorem lift_not_aborts {α : Type} (x : Except Exn α) : ¬ Aborts (lift x) := by
  cases x with
  | ok a => exact not_aborts_ok a
  | error e => exact not_aborts_threw e

theorem lift_eq_ok {α : Type} {x : Except Exn α} {a : α} : lift x = .ok a ↔ x = .ok a := by
  cases x with
  | ok b => simp [lift]
  | error e => exact iff_of_false nofun nofun

section Reads

variable {R : Type} [Field R] {members items : List (String × Json R)} {key : String}

/-- a number is stored under the key -/
def numberAt (members : List (String × Json R)) (key : String) : Bool :=
  match members.lookup key with
  | some value => value.isNumber
  | none => false

theorem doubleAt_aborts_iff : Aborts (doubleAt (.object members) key) ↔ members.lookup key = none := by
  rw [doubleAt, aborts_seq (Q := False) fun value _ => iff_of_false value.getDouble_not_aborts id,
    Json.subscriptConst_aborts_iff, and_false, or_false]

theorem doubleAt_returns_iff : (∃ x, doubleAt (.object members) key = .ok x) ↔ numberAt members key := by
  rw [doubleAt, Json.subscriptConst, numberAt]
  cases members.lookup key with
  | none =>
    refine iff_of_false ?_ Bool.false_ne_true
    rintro ⟨x, h⟩
    cases h
  | some value => exact Json.getDouble_returns_iff

theorem loadParameters_not_aborts (items : List (String × Json R)) : ¬ Aborts (loadParameters items) := by
  induction items with
  | nil => exact not_aborts_ok _
  | cons item items ih =>
    obtain ⟨key, value⟩ := item
    simp only [loadParameters, aborts_bind, not_aborts_pure, and_false, exists_false, or_false]
    rintro (h | ⟨x, -, h⟩)
    · exact value.getDouble_not_aborts h
    · exact ih h

/-- all parameters are numbers, or `LoadParameters` throws -/
theorem loadParameters_returns_iff :
    (∃ entries, loadParameters items = .ok entries) ↔ ∀ item ∈ items, item.2.isNumber := by
  induction items with
  | nil => exact iff_of_true ⟨_, rfl⟩ nofun
  | cons item items ih =>
    obtain ⟨key, value⟩ := item
    rw [List.forall_mem_cons, ← ih, ← Json.getDouble_returns_iff, loadParameters]
    cases value.getDouble with
    | error e => exact iff_of_false nofun (fun h => nomatch h.1)
    | ok x =>
      cases loadParameters items with
      | error e => exact iff_of_false nofun (fun h => nomatch h.2)
      | ok entries => exact iff_of_true ⟨_, rfl⟩ ⟨⟨_, rfl⟩, ⟨_, rfl⟩⟩

theorem loadParameters_keys {entries : List (String × R)} (h : loadParameters items = .ok entries) :
    entries.map Prod.fst = items.map Prod.fst := by
  induction items generalizing entries with
  | nil => cases h; rfl
  | cons item items ih =>
    obtain ⟨key, value⟩ := item
    rw [loadParameters] at h
    cases hx : value.getDouble with
    | error e => rw [hx] at h; cases h
    | ok x =>
      cases hl : loadParameters items with
      | error e => rw [hx, hl] at h; cases h
      | ok rest =>
        rw [hx, hl] at h
        cases h
        simp [ih hl]

variable [LinearOrder R] [FloorRing R]

theorem intAt_aborts_iff : Aborts (intAt (.object members) key) ↔ members.lookup key = none := by
  rw [intAt, aborts_seq (Q := False) fun value _ => iff_of_false value.getInt_not_aborts id,
    Json.subscriptConst_aborts_iff, and_false, or_false]

theorem intAt_returns_iff (hnum : ∀ item ∈ members, item.2.isNumber) :
    (∃ n, intAt (.object members) key = .ok n) ↔ members.lookup key ≠ none := by
  rw [intAt, Json.subscriptConst]
  cases hl : members.lookup key with
  | none =>
    refine iff_of_false ?_ fun h => h rfl
    rintro ⟨n, h⟩
    cases h
  | some value => exact iff_of_true (Json.getInt_returns (Json.isNumber_of_lookup hnum hl)) (Option.some_ne_none value)

/-- I, J and K, when every parameter is a number -/
theorem ijk_aborts_iff {α : Type} (hnum : ∀ item ∈ members, item.2.isNumber) (f : ℤ → ℤ → ℤ → α) :
    Aborts (do
      let I ← intAt (.object members) "I"
      let J ← intAt (.object members) "J"
      let K ← intAt (.object members) "K"
      return f I J K) ↔ ∃ key ∈ ["I", "J", "K"], members.lookup key = none := by
  have hK : ∀ I J, Aborts (do return f I J (← intAt (.object members) "K")) ↔ members.lookup "K" = none := by
    intro I J
    rw [aborts_seq (Q := False) fun _ _ => iff_of_false (not_aborts_pure _) id, intAt_aborts_iff, and_false, or_false]
  rw [aborts_seq fun I _ => aborts_seq fun J _ => hK I J]
  simp only [intAt_aborts_iff, intAt_returns_iff hnum, List.mem_cons, List.not_mem_nil, or_false, exists_eq_or_imp,
    exists_eq_left]
  tauto

/-- **Guarded lookups.** A flag of DISPS is read without an assertion that can fail. -/
theorem enabled_not_aborts (params : Json R) (key : String) : ¬ Aborts (enabled params key) := by
  unfold enabled
  split
  · next hkey =>
    obtain ⟨members, value, rfl, hl⟩ := Json.contains_iff.1 hkey
    simp only [aborts_bind, not_aborts_pure, and_false, exists_false, or_false, Json.subscriptConst_aborts_iff, hl]
    rintro (h | ⟨x, -, h⟩)
    · cases h
    · exact x.getInt_not_aborts h
  · exact not_aborts_ok _

theorem parseDispsFlags_not_aborts (params : Json R) : ¬ Aborts (parseDispsFlags params) := by
  simp [parseDispsFlags, aborts_bind, enabled_not_aborts]

/-- what the method reads, when every parameter is a number -/
theorem readMethod_aborts_iff {req : SolveRequest R} (hnum : ∀ item ∈ members, item.2.isNumber) :
    Aborts (readMethod req (.object members)) ↔
      req.method = "DISPF" ∧ ∃ key ∈ ["I", "J", "K"], members.lookup key = none := by
  unfold readMethod
  split_ifs with h1 h2
  · rw [ijk_aborts_iff hnum, and_iff_right h1]
  · simp [aborts_bind, parseDispsFlags_not_aborts, h1]
  · simp [h1]

end Reads

/-! ## The process -/

section Process

variable {R : Type} {members : List (String × Json R)} {body parameters : Json R} {taskName method : String}

theorem accept_not_aborts (body : Json R) : ¬ Aborts (accept body) := by
  simp [accept, aborts_bind, Json.subscript_not_aborts, Json.getString_not_aborts]

/-- the thread gets an object of parameters when the body holds the three fields with their types -/
theorem accept_object_iff :
    accept body = .ok (taskName, method, .object members) ↔
      ∃ b, body = .object b ∧ b.lookup "Equation" = some (.string taskName) ∧
        b.lookup "Method" = some (.string method) ∧ b.lookup "Parameters" = some (.object members) := by
  constructor
  · intro h
    simp only [accept, bind_eq_ok, Json.getString_eq_ok] at h
    obtain ⟨⟨j1, v1⟩, h1, s1, rfl, ⟨j2, v2⟩, h2, s2, rfl, ⟨j3, v3⟩, h3, hret⟩ := h
    cases hret
    obtain ⟨b, rfl, rfl, hequation⟩ := Json.subscript_eq_ok h1 nofun
    obtain ⟨b', hb, rfl, hmethod⟩ := Json.subscript_eq_ok h2 nofun
    cases hb
    obtain ⟨b', hb, rfl, hparameters⟩ := Json.subscript_eq_ok h3 nofun
    cases hb
    exact ⟨b, rfl, hequation, hmethod, hparameters⟩
  · rintro ⟨b, rfl, he, hm, hp⟩
    simp [accept, Json.subscript, he, hm, hp, Json.getString, bind, Except.bind, pure, Except.pure]

variable {rt : Runtime R}

/-- no exception stops the reads before the method is looked at -/
def Readable (members : List (String × Json R)) (taskName : String) : Prop :=
  (∀ item ∈ members, item.2.isNumber) ∧
  (¬ TooLarge (members.map Prod.fst) ∧ matching (members.map Prod.fst) ≠ []) ∧
  taskName ∈ ["VanDerPol", "ForcedOscillator", "RobertsonSystem"]

/-- a missing key among the members ends the process -/
def Unguarded (members : List (String × Json R)) (taskName method : String) : Prop :=
  (∃ key, ["t0", "t1", "tolerance"].find? (fun key => !numberAt members key) = some key ∧ members.lookup key = none) ∨
  ((∀ key ∈ ["t0", "t1", "tolerance"], numberAt members key) ∧ Readable members taskName ∧ method = "DISPF" ∧
    ∃ key ∈ ["I", "J", "K"], members.lookup key = none)

/-- the values that `ExtractInitialConditions` gets, in any enumeration order -/
theorem extract_loaded_iff [Field R] {entries : List (String × R)} (h : loadParameters members = .ok entries) :
    (∃ y0, lift (extractInitialConditions rt.sort (rt.enumerate entries)) = .ok y0) ↔
      ¬ TooLarge (members.map Prod.fst) ∧ matching (members.map Prod.fst) ≠ [] := by
  have hperm := rt.enumerate_perm entries
  simp only [lift_eq_ok]
  have hmatching : matching ((rt.enumerate entries).map Prod.fst) = [] ↔ matching (entries.map Prod.fst) = [] := by
    have hlen := ((hperm.map Prod.fst).filter fun key => (initIndex key).isSome).length_eq
    rw [matching, matching, ← List.length_eq_zero_iff, hlen, List.length_eq_zero_iff]
  rw [extract_returns_iff rt.sort_isSort, tooLarge_perm hperm, Ne, hmatching, loadParameters_keys h]

variable [Field R] [LinearOrder R] [FloorRing R] [CMath R]

theorem readLoaded_aborts_iff (rt : Runtime R) (taskName method : String) (t0 tEnd tolerance : R)
    (entries : List (String × R)) (h : loadParameters members = .ok entries) :
    Aborts (readLoaded rt taskName method (.object members) t0 tEnd tolerance entries) ↔
      (¬ TooLarge (members.map Prod.fst) ∧ matching (members.map Prod.fst) ≠ []) ∧
        taskName ∈ ["VanDerPol", "ForcedOscillator", "RobertsonSystem"] ∧
        method = "DISPF" ∧ ∃ key ∈ ["I", "J", "K"], members.lookup key = none := by
  have hnum : ∀ item ∈ members, item.2.isNumber := loadParameters_returns_iff.1 ⟨entries, h⟩
  have hmethod : ∀ y0 odeFunction, Aborts (readMethod
      ⟨method, odeFunction, t0, tEnd, tolerance, y0, 0, 0, 0, ⟨false, false, false, false, false, false⟩⟩
      (.object members)) ↔ method = "DISPF" ∧ ∃ key ∈ ["I", "J", "K"], members.lookup key = none :=
    fun _ _ => readMethod_aborts_iff hnum
  rw [readLoaded, aborts_seq fun y0 _ => aborts_seq fun odeFunction _ => hmethod y0 odeFunction, extract_loaded_iff h]
  simp only [lift_not_aborts, false_or, lift_eq_ok, TaskManager.getTask_returns_iff]

theorem readRequest_aborts_iff :
    Aborts (readRequest rt taskName method (.object members)) ↔ Unguarded members taskName method := by
  have hitems : (Json.object members).items = members := rfl
  rw [readRequest, hitems, aborts_seq fun t0 _ => aborts_seq fun tEnd _ => aborts_seq fun tolerance _ =>
    aborts_seq fun entries he => readLoaded_aborts_iff rt taskName method t0 tEnd tolerance entries he]
  simp only [doubleAt_aborts_iff, doubleAt_returns_iff, loadParameters_not_aborts, false_or,
    loadParameters_returns_iff]
  have hnone : ∀ key, numberAt members key = true → members.lookup key ≠ none := by
    intro key hkey hl
    rw [numberAt, hl] at hkey
    cases hkey
  unfold Unguarded Readable
  by_cases h0 : numberAt members "t0" = true
  · by_cases h1 : numberAt members "t1" = true
    · by_cases h2 : numberAt members "tolerance" = true
      · simp [h0, h1, h2, hnone, and_assoc]
      · simp [h0, h1, h2, hnone]
    · simp [h0, h1, hnone]
  · simp [h0]

/-- parameters that are not an object are answered with 500 at the first lookup -/
theorem readRequest_not_object (hobject : ∀ members, parameters ≠ .object members) :
    ¬ Aborts (readRequest rt taskName method parameters) := by
  obtain ⟨e, he⟩ : ∃ e, parameters.subscriptConst "t0" = .error (.threw e) := Json.subscriptConst_threw hobject
  have hread : readRequest rt taskName method parameters = .error (.threw e) := by
    rw [readRequest, doubleAt, he]
    rfl
  rw [hread]
  exact not_aborts_threw e

/-- a body whose JSON lookups end the process -/
def EndsProcess (body : Json R) : Prop :=
  ∃ b taskName method members, body = .object b ∧ b.lookup "Equation" = some (.string taskName) ∧
    b.lookup "Method" = some (.string method) ∧ b.lookup "Parameters" = some (.object members) ∧
    Unguarded members taskName method

/-- the thread ends the process where its reads abort -/
theorem solveThread_processDown_iff {fuel n : ℕ} :
    (∃ key, solveThread rt taskName method parameters fuel n = .processDown key) ↔
      Aborts (readRequest rt taskName method parameters) := by
  have hcaught : ∀ (e : Exn) key, (caught e : Response R) ≠ .processDown key := by
    intro e key
    cases e <;> nofun
  unfold solveThread
  cases readRequest rt taskName method parameters with
  | error s =>
    cases s with
    | threw e => exact iff_of_false (fun ⟨key, h⟩ => hcaught e key h) (not_aborts_threw e)
    | aborted key => exact iff_of_true ⟨key, rfl⟩ ⟨key, rfl⟩
  | ok req =>
    refine iff_of_false (fun ⟨key, h⟩ => ?_) (not_aborts_ok req)
    dsimp only at h
    split at h
    · cases h
    · exact hcaught _ key h
    · cases h
    · cases h

theorem solveHandler_accept {fuel n : ℕ} (h : accept body = .ok (taskName, method, parameters)) :
    solveHandler rt (.ok body) fuel n = solveThread rt taskName method parameters fuel n := by
  have hparsed : (do accept (← lift (.ok body))) = accept body := rfl
  rw [solveHandler, hparsed, h]

theorem solveHandler_threw {e : Exn} {fuel n : ℕ} (h : accept body = .error (.threw e)) :
    solveHandler rt (.ok body) fuel n = .badRequest ("Error: " ++ e.what.getD "") := by
  have hparsed : (do accept (← lift (.ok body))) = accept body := rfl
  rw [solveHandler, hparsed, h]

/-- **The process survives.** No lookup that the handler makes for a body ends the process, exactly when the body is
none of those that do. -/
theorem survives_iff (rt : Runtime R) (body : Json R) :
    (∀ fuel n key, solveHandler rt (.ok body) fuel n ≠ .processDown key) ↔ ¬ EndsProcess body := by
  constructor
  · rintro hsafe ⟨b, taskName, method, members, hb, he, hm, hp, hunguarded⟩
    have haccept := accept_object_iff.2 ⟨b, hb, he, hm, hp⟩
    have haborts : Aborts (readRequest rt taskName method (.object members)) := readRequest_aborts_iff.2 hunguarded
    obtain ⟨key, hkey⟩ : ∃ key, solveThread rt taskName method (.object members) 0 0 = .processDown key :=
      solveThread_processDown_iff.2 haborts
    exact hsafe 0 0 key ((solveHandler_accept haccept).trans hkey)
  · intro hguarded fuel n key hkey
    cases ha : accept body with
    | error s =>
      cases s with
      | threw e =>
        rw [solveHandler_threw ha] at hkey
        cases hkey
      | aborted key' => exact accept_not_aborts body ⟨key', ha⟩
    | ok read =>
      obtain ⟨taskName, method, parameters⟩ := read
      have haborts := solveThread_processDown_iff.1 ⟨key, (solveHandler_accept ha).symm.trans hkey⟩
      by_cases hobject : ∃ members, parameters = .object members
      · obtain ⟨members, rfl⟩ := hobject
        obtain ⟨b, hb, he, hm, hp⟩ := accept_object_iff.1 ha
        exact hguarded ⟨b, taskName, method, members, hb, he, hm, hp, readRequest_aborts_iff.1 haborts⟩
      · exact readRequest_not_object (fun members h => hobject ⟨members, h⟩) haborts

end Process

/-- a sort, an enumeration and zeros -/
def standard {R : Type} [Field R] : Runtime R where
  sort := byIndex
  sort_isSort := byIndex_isSort
  enumerate := id
  enumerate_perm := List.Perm.refl
  currentScheme := ⟨0, 0, 0, 0⟩

/-- a request without parameters, and one to DISPF with everything but I, J and K -/
theorem missing_keys_abort :
    solveHandler (R := ℝ) standard (.ok (.object [("Equation", .string "VanDerPol"), ("Method", .string "RungeKutta2"),
      ("Parameters", .object [])])) 1 1 = .processDown "t0" ∧
    solveHandler (R := ℝ) standard (.ok (.object [("Equation", .string "VanDerPol"), ("Method", .string "DISPF"),
      ("Parameters", .object [("t0", .numberUnsigned 0), ("t1", .numberUnsigned 1), ("tolerance", .numberUnsigned 1),
        ("y0_init", .numberUnsigned 1), ("y1_init", .numberUnsigned 0)])])) 1 1 = .processDown "I" := by
  constructor
  · rfl
  · rfl

end OdeClientServer.Routers
