/-
What the client asks and what the server understands. The two sides share no code: the client writes decimals under the
keys of its form, the server looks its parameters up by name, collects the initial values by the pattern of their keys,
and sorts them by the number in the key.

- `loadParameters_members`: the numbers of a body, in any order of its members.
- `reads_initial`: the initial values reach their components.
- `readMethod_members`: I, J, K and the flags of DISPS.
- `request_understood`: a task that passes the validation of the client is read by the server as the problem in the
  form.
-/
import OdeClientServer.Client.Parameters
import OdeClientServer.Server.Handler

namespace OdeClientServer.Requests

open Client Routers ParseUtils TaskManager

variable {form : ParameterForm} {data : TaskData} {equation : EquationType}

/-- the flags of DISPS that the server knows -/
def flagsOf (form : ParameterForm) : DISPSSolver.DispsEnabledFlags :=
  ⟨form.disps .Disps13, form.disps .Disps15, form.disps .Disps23, form.disps .Disps25, form.disps .Disps35,
    form.disps .Disps36⟩

/-- **Understood.** The request is the problem in the form: the method and the system with their parameters, the
interval, the tolerance, and an initial value for each component; and the options of the method. -/
structure Understood (form : ParameterForm) (data : TaskData) (req : SolveRequest ℝ) : Prop where
  method : req.method = data.method.name
  system : getTask form.entered data.equation.name = .ok req.odeFunction
  t0 : req.t0 = form.entered "t0"
  tEnd : req.tEnd = form.entered "t1"
  interval : req.t0 < req.tEnd
  tolerance : req.tolerance = form.entered "tolerance"
  y0 : req.y0 = (List.range (dimension data.equation.name)).map fun i => form.entered (ownKey i)
  ijk : data.method = .DISPF →
    req.I = form.selectedI.toInt ∧ req.J = form.selectedJ.toInt ∧ req.K = form.selectedK.toInt
  flags : data.method = .DISPS → req.flags = flagsOf form

/-- the request with the options that its method reads -/
def withOptions (form : ParameterForm) (req : SolveRequest ℝ) : SolveRequest ℝ :=
  if req.method = "DISPF" then
    { req with I := form.selectedI.toInt, J := form.selectedJ.toInt, K := form.selectedK.toInt }
  else if req.method = "DISPS" then { req with flags := flagsOf form }
  else req

/-! ## Validation -/

/-- a form that passes the validation has an interval -/
theorem interval_of_valid (hvalid : form.validateParameters = none) {t0 t1 : Decimal} (h0 : form.valueAt "t0" = some t0)
    (h1 : form.valueAt "t1" = some t1) : (t0.cast : ℝ) < t1.cast := by
  have hcast : ∀ d : Decimal, (d.cast : ℝ) = (d.toRat : ℝ) := by
    intro d
    rw [Decimal.cast, Decimal.toRat, Rat.cast_div, Rat.cast_intCast, Rat.cast_natCast]
  unfold ParameterForm.validateParameters at hvalid
  split at hvalid
  · cases hvalid
  · split_ifs at hvalid with horder
    rw [ParameterForm.endsBeforeStart, h0, h1] at horder
    rw [hcast, hcast, Rat.cast_lt]
    exact not_le.1 fun hle => horder (decide_eq_true hle)

/-! ## The numbers of a body -/

section Entries

variable {R : Type} [Field R] {entries : List (String × Decimal)} {key : String}

/-- the members of Parameters, in the order of the entries -/
def members (entries : List (String × Decimal)) : List (String × Json R) :=
  entries.map fun entry => (entry.1, entry.2.toJson)

theorem members_lookup (entries : List (String × Decimal)) (key : String) :
    (members (R := R) entries).lookup key = (entries.lookup key).map Decimal.toJson := Lists.lookup_map _ _ _

theorem doubleAt_members {d : Decimal} (h : entries.lookup key = some d) :
    doubleAt (R := R) (.object (members entries)) key = .ok d.cast := by
  rw [doubleAt, Json.subscriptConst, members_lookup, h]
  exact d.toJson_getDouble

theorem intAt_members [LinearOrder R] [FloorRing R] {n : Int32} (h : entries.lookup key = some ⟨n.toInt, 0⟩) :
    intAt (R := R) (.object (members entries)) key = .ok n.toInt := by
  rw [intAt, Json.subscriptConst, members_lookup, h]
  exact Decimal.toJson_getInt n

theorem enabled_members [LinearOrder R] [FloorRing R] {b : Bool}
    (h : entries.lookup key = some ⟨if b then 1 else 0, 0⟩) :
    enabled (R := R) (.object (members entries)) key = .ok b := by
  have hcontains : (Json.object (members (R := R) entries)).contains key = true := by
    rw [Json.contains, members_lookup, h]
    rfl
  rw [enabled, if_pos hcontains, Json.subscriptConst, members_lookup, h]
  cases b <;> rfl

/-- **Numbers.** `LoadParameters` takes every entry with its number. -/
theorem loadParameters_members (entries : List (String × Decimal)) :
    loadParameters (members entries) = .ok (entries.map fun entry => (entry.1, (entry.2.cast : R))) := by
  induction entries with
  | nil => rfl
  | cons entry entries ih =>
    have hcons : members (R := R) (entry :: entries) = (entry.1, entry.2.toJson) :: members entries := rfl
    rw [hcons, loadParameters, entry.2.toJson_getDouble, ih]
    rfl

end Entries

/-! ## The problem in the form -/

section Form

variable {entries : List (String × Decimal)} (hform : form.IsFor equation) (hperm : entries.Perm form.entries)

include hform hperm

/-- an entry is found in any order of the members -/
theorem lookup_entries (key : String) : entries.lookup key = form.entries.lookup key :=
  Lists.lookup_perm hperm ((hperm.map Prod.fst).nodup_iff.2 hform.entries_nodup) key

/-- a parameter of the equation is found with the number that the user sees -/
theorem lookup_parameter {key : String} (hkey : key ∈ (updateEquationFormula equation).map ParameterViewModel.key) :
    ∃ d, entries.lookup key = some d ∧ form.valueAt key = some d ∧ form.entered key = (d.cast : ℝ) := by
  have hlookup := lookup_entries hform hperm key
  rw [← hform] at hkey
  rw [ParameterForm.entries_lookup hkey] at hlookup
  obtain ⟨p, hp, hpkey⟩ := List.mem_map.1 hkey
  have hsome : (form.parameters.find? fun q => q.key == key).isSome := List.find?_isSome.2 ⟨p, hp, by simpa using hpkey⟩
  obtain ⟨q, hq⟩ := Option.isSome_iff_exists.1 hsome
  have hvalue : form.valueAt key = some q.value := by rw [ParameterForm.valueAt, hq]; rfl
  exact ⟨q.value, hlookup.trans hvalue, hvalue, by rw [ParameterForm.entered, hvalue]; rfl⟩

/-- **Initial values.** Each reaches its own component, in any order of the members and of the `unordered_map`. -/
theorem reads_initial (rt : Runtime ℝ) (hknown : equation ≠ .Unknown) :
    extractInitialConditions rt.sort (rt.enumerate (entries.map fun entry => (entry.1, entry.2.cast))) =
      .ok ((List.range (dimension equation.name)).map fun i => form.entered (ownKey i)) := by
  have hmatching : matching (form.entries.map Prod.fst) = (List.range (dimension equation.name)).map ownKey := by
    rw [hform.entries_keys]
    cases equation with
    | Unknown => exact absurd rfl hknown
    | VanDerPol => decide +kernel
    | ForcedOscillator => decide +kernel
    | RobertsonSystem => decide +kernel
  have hdim : 0 < dimension equation.name ∧ dimension equation.name ≤ 3 := by
    unfold dimension
    split_ifs <;> omega
  have hown : ∀ i < dimension equation.name,
      ownKey i ∈ (updateEquationFormula equation).map ParameterViewModel.key := by
    intro i hi
    have hmem : ownKey i ∈ form.entries.map Prod.fst :=
      List.mem_of_mem_filter (hmatching ▸ List.mem_map_of_mem (List.mem_range.2 hi))
    rw [hform.entries_keys, List.mem_append] at hmem
    refine hmem.resolve_right fun hselection => ?_
    have hsome : (initIndex (ownKey i)).isSome := by rw [initIndex_ownKey]; rfl
    have hnone : ∀ key ∈ ["I", "J", "K"] ++ DispsFlag.all.map DispsFlag.key, (initIndex key).isSome = false := by
      decide +kernel
    rw [hnone _ hselection] at hsome
    cases hsome
  have horder := rt.enumerate_perm (entries.map fun entry => (entry.1, (entry.2.cast : ℝ)))
  have hkeys : ((rt.enumerate (entries.map fun entry => (entry.1, (entry.2.cast : ℝ)))).map Prod.fst).Perm
      (form.entries.map Prod.fst) := by
    refine (horder.map Prod.fst).trans ?_
    rw [List.map_map]
    exact hperm.map Prod.fst
  refine extract_consecutive rt.sort_isSort hdim.1 (by omega) ?_ fun i hi x hx => ?_
  · rw [← hmatching]
    exact hkeys.filter _
  · obtain ⟨entry, hentry, heq⟩ := List.mem_map.1 (horder.mem_iff.1 hx)
    obtain ⟨hkey, rfl⟩ := Prod.mk.inj heq
    obtain ⟨d, hd, -, hentered⟩ := lookup_parameter hform hperm (hown i hi)
    have hnodup := (hperm.map Prod.fst).nodup_iff.2 hform.entries_nodup
    have hmem : (ownKey i, entry.2) ∈ entries := by rw [← hkey]; exact hentry
    rw [(Lists.lookup_iff_mem hnodup).2 hmem, Option.some.injEq] at hd
    rw [hentered, hd]

/-- an option is found as it is set -/
theorem lookup_selection {key : String} {d : Decimal} (hd : (key, d) ∈ form.selections) :
    entries.lookup key = some d := by
  rw [lookup_entries hform hperm, Lists.lookup_iff_mem hform.entries_nodup, ParameterForm.entries]
  exact List.mem_append_right _ hd

theorem enabled_flag (flag : DispsFlag) :
    enabled (R := ℝ) (.object (members entries)) flag.key = .ok (form.disps flag) := by
  refine enabled_members (lookup_selection hform hperm (List.mem_append_right _ (List.mem_map.2 ⟨flag, ?_, rfl⟩)))
  cases flag <;> decide

/-- **Options.** DISPF reads I, J and K, and DISPS its flags, as they are set in the form. -/
theorem readMethod_members (req : SolveRequest ℝ) :
    readMethod req (.object (members entries)) = .ok (withOptions form req) := by
  unfold readMethod withOptions
  split_ifs with hF hS
  · have hI : ("I", ⟨form.selectedI.toInt, 0⟩) ∈ form.selections := .head _
    have hJ : ("J", ⟨form.selectedJ.toInt, 0⟩) ∈ form.selections := .tail _ (.head _)
    have hK : ("K", ⟨form.selectedK.toInt, 0⟩) ∈ form.selections := .tail _ (.tail _ (.head _))
    rw [intAt_members (lookup_selection hform hperm hI), intAt_members (lookup_selection hform hperm hJ),
      intAt_members (lookup_selection hform hperm hK)]
    rfl
  · have hflags : parseDispsFlags (R := ℝ) (.object (members entries)) = .ok (flagsOf form) := by
      have hkey : ∀ flag key, flag.key = key →
          enabled (R := ℝ) (.object (members entries)) key = .ok (form.disps flag) :=
        fun flag _ hkey => hkey ▸ enabled_flag hform hperm flag
      rw [parseDispsFlags, hkey .Disps13 "Disps13" rfl, hkey .Disps15 "Disps15" rfl, hkey .Disps23 "Disps23" rfl,
        hkey .Disps25 "Disps25" rfl, hkey .Disps35 "Disps35" rfl, hkey .Disps36 "Disps36" rfl]
      rfl
    rw [hflags]
    rfl
  · rfl

end Form

/-- a task reads the parameters of its equation only -/
theorem getTask_congr {p q : String → ℝ}
    (h : ∀ key ∈ (equationParameters equation).map ParameterViewModel.key, p key = q key) :
    getTask p equation.name = getTask q equation.name := by
  cases equation with
  | Unknown => rfl
  | VanDerPol =>
    have hmu : p "mu" = q "mu" := h _ (by decide)
    have hp : p "p" = q "p" := h _ (by decide)
    have htask : vanDerPol p = vanDerPol q := by
      funext t y
      simp only [vanDerPol, hmu, hp]
    exact congrArg Except.ok htask
  | ForcedOscillator =>
    have homega : p "omega" = q "omega" := h _ (by decide)
    have hgamma : p "gamma" = q "gamma" := h _ (by decide)
    have hF : p "F" = q "F" := h _ (by decide)
    have hdrive : p "omega_k" = q "omega_k" := h _ (by decide)
    have htask : forcedOscillator p = forcedOscillator q := by
      funext t y
      simp only [forcedOscillator, homega, hgamma, hF, hdrive]
    exact congrArg Except.ok htask
  | RobertsonSystem =>
    have h1 : p "k1" = q "k1" := h _ (by decide)
    have h2 : p "k2" = q "k2" := h _ (by decide)
    have h3 : p "k3" = q "k3" := h _ (by decide)
    have htask : robertsonSystem p = robertsonSystem q := by
      funext t y
      simp only [robertsonSystem, h1, h2, h3]
    exact congrArg Except.ok htask

/-! ## Requests -/

/-- the body has the fields that the outer try block reads -/
theorem accept_body {task : SentTask} {body : Json ℝ} (hbody : task.IsBody body) :
    ∃ entries : List (String × Decimal), entries.Perm task.parameters ∧
      accept body = .ok (task.data.equation.name, task.data.method.name, .object (members entries)) := by
  obtain ⟨b, entries, rfl, hperm, hb⟩ := hbody
  have hnodup : (b.map Prod.fst).Nodup := (hb.map Prod.fst).nodup_iff.2 (by simp)
  refine ⟨entries, hperm, accept_object_iff.2 ⟨b, rfl, ?_, ?_, ?_⟩⟩
  · exact (Lists.lookup_perm hb hnodup _).trans rfl
  · exact (Lists.lookup_perm hb hnodup _).trans rfl
  · exact (Lists.lookup_perm hb hnodup _).trans rfl

/-- **Understood.** A task that passes the validation of the client is accepted, whatever the order of its members, and
the server solves the problem that is in the form. -/
theorem request_understood (rt : Runtime ℝ) (hform : form.IsFor data.equation) (hknown : data.equation ≠ .Unknown)
    (hvalid : form.validateParameters = none) {body : Json ℝ} (hbody : SentTask.IsBody ⟨data, form.entries⟩ body) :
    ∃ parameters req, accept body = .ok (data.equation.name, data.method.name, parameters) ∧
      readRequest rt data.equation.name data.method.name parameters = .ok req ∧ Understood form data req := by
  obtain ⟨entries, hperm, haccept⟩ := accept_body hbody
  have hcommon : ∀ key ∈ ["t0", "t1", "tolerance"],
    key ∈ (updateEquationFormula data.equation).map ParameterViewModel.key := by
    cases data.equation <;> decide
  obtain ⟨t0, ht0, hv0, he0⟩ := lookup_parameter hform hperm (hcommon "t0" (by decide))
  obtain ⟨t1, ht1, hv1, he1⟩ := lookup_parameter hform hperm (hcommon "t1" (by decide))
  obtain ⟨tolerance, htol, -, hetol⟩ := lookup_parameter hform hperm (hcommon "tolerance" (by decide))
  have hsystem : getTask (fun name => ((entries.map fun entry => (entry.1, (entry.2.cast : ℝ))).lookup name).getD 0)
      data.equation.name = getTask form.entered data.equation.name := by
    refine getTask_congr fun key hkey => ?_
    have hmem : key ∈ (updateEquationFormula data.equation).map ParameterViewModel.key := by
      rw [updateEquationFormula, List.map_append]
      exact List.mem_append_left _ hkey
    obtain ⟨d, hd, -, hentered⟩ := lookup_parameter hform hperm hmem
    rw [Lists.lookup_map, hd, hentered]
    rfl
  obtain ⟨f, hf⟩ : ∃ f, getTask (R := ℝ) form.entered data.equation.name = .ok f := by
    refine getTask_returns_iff.2 ?_
    cases hequation : data.equation with
    | Unknown => exact absurd hequation hknown
    | VanDerPol => decide
    | ForcedOscillator => decide
    | RobertsonSystem => decide
  let req : SolveRequest ℝ := ⟨data.method.name, f, t0.cast, t1.cast, tolerance.cast,
    (List.range (dimension data.equation.name)).map fun i => form.entered (ownKey i), 0, 0, 0,
    ⟨false, false, false, false, false, false⟩⟩
  have hread : readRequest rt data.equation.name data.method.name (.object (members entries)) =
      .ok (withOptions form req) := by
    rw [readRequest, doubleAt_members ht0, doubleAt_members ht1, doubleAt_members htol, Json.items,
      loadParameters_members]
    simp only [ok_bind, readLoaded, reads_initial hform hperm rt hknown, hsystem, hf, lift]
    exact readMethod_members hform hperm req
  have hinterval : (t0.cast : ℝ) < t1.cast := interval_of_valid hvalid hv0 hv1
  refine ⟨_, _, haccept, hread, ?_⟩
  unfold withOptions
  split_ifs with hF hS
  · refine ⟨rfl, hf, he0.symm, he1.symm, hinterval, hetol.symm, rfl, fun _ => ⟨rfl, rfl, rfl⟩, fun hmethod => ?_⟩
    have hname : req.method = "DISPS" := congrArg SolutionMethod.name hmethod
    exact absurd (hF.symm.trans hname) (by decide)
  · refine ⟨rfl, hf, he0.symm, he1.symm, hinterval, hetol.symm, rfl, fun hmethod => ?_, fun _ => rfl⟩
    exact absurd (congrArg SolutionMethod.name hmethod) hF
  · refine ⟨rfl, hf, he0.symm, he1.symm, hinterval, hetol.symm, rfl, fun hmethod => ?_, fun hmethod => ?_⟩
    · exact absurd (congrArg SolutionMethod.name hmethod) hF
    · exact absurd (congrArg SolutionMethod.name hmethod) hS

end OdeClientServer.Requests
