/-
The window in front of the server. A graph is stored when the text of a response can be read; between the form and the
graph lie the decimals of the request, the lookups of the server, its solver, the stream, and the arrival of the
responses in any order.

- `valid_request_answered`: what the server can answer to a valid request.
- `reach_inv`: what holds in every state of the two together. The rows of the server have a value for each axis, so the
  window never throws.
- `graphs_answer_requests`: every graph is the result of the problem that was in the form when its request was sent.
- `graphs_are_solutions`: its rows run forward through the interval, for DISPS as a trajectory of the variants that were
  enabled.
-/
import OdeClientServer.Client.TaskSolverService
import OdeClientServer.Results.Bounds
import OdeClientServer.Results.MainWindow
import OdeClientServer.Results.Requests
import OdeClientServer.Results.Streaming
import OdeClientServer.Results.Timeline

namespace OdeClientServer.EndToEnd

open Client Routers Requests MainWindow

/-! ## The server -/

section Server

variable {rt : Runtime ℝ} {task : SentTask} {body : Json ℝ} {fuel n : ℕ}

theorem caught_ne_success {R : Type} (e : Exn) (rows : List (R × Vec R)) : caught e ≠ .success rows := by
  unfold caught
  cases e.what <;> exact fun h => by cases h

theorem readRequest_known {taskName method : String} {parameters : Json ℝ} {req : SolveRequest ℝ}
    (h : readRequest rt taskName method parameters = .ok req) :
    taskName ∈ ["VanDerPol", "ForcedOscillator", "RobertsonSystem"] := by
  obtain ⟨t0, -, h⟩ := bind_eq_ok.1 h
  obtain ⟨tEnd, -, h⟩ := bind_eq_ok.1 h
  obtain ⟨tolerance, -, h⟩ := bind_eq_ok.1 h
  obtain ⟨entries, -, h⟩ := bind_eq_ok.1 h
  obtain ⟨y0, -, h⟩ := bind_eq_ok.1 h
  obtain ⟨odeFunction, hf, -⟩ := bind_eq_ok.1 h
  exact TaskManager.getTask_returns_iff.1 ⟨odeFunction, lift_eq_ok.1 hf⟩

/-- rows are the answer to an equation that the server knows -/
theorem known_of_success {rows : List (ℝ × Vec ℝ)} (hbody : task.IsBody body)
    (h : solveHandler rt (.ok body) fuel n = .success rows) : task.data.equation ≠ .Unknown := by
  intro hunknown
  obtain ⟨entries, -, haccept⟩ := accept_body hbody
  rw [solveHandler_accept haccept, solveThread] at h
  cases hread : readRequest rt task.data.equation.name task.data.method.name (.object (members entries)) with
  | error stop =>
    rw [hread] at h
    cases stop with
    | threw e => exact caught_ne_success e rows h
    | aborted key => cases h
  | ok req =>
    have hknown := readRequest_known hread
    rw [hunknown] at hknown
    exact absurd hknown (by decide)

/-- a valid request reaches `Solve` with the problem in the form -/
theorem solveHandler_valid (rt : Runtime ℝ) (hvalid : Valid task) (hknown : task.data.equation ≠ .Unknown)
    (hbody : task.IsBody body) :
    ∃ form req, form.IsFor task.data.equation ∧ form.validateParameters = none ∧ task.parameters = form.entries ∧
      Understood form task.data req ∧
      ∀ fuel n, solveHandler rt (.ok body) fuel n = match Routers.solve req rt.currentScheme fuel n with
        | .exit rows => .success rows
        | .raise e _ => caught e
        | .next _ => .unfinished
        | .starved _ => .unfinished := by
  obtain ⟨form, hform, hvalidated, hentries⟩ := hvalid
  obtain ⟨data, parameters⟩ := task
  obtain rfl : parameters = form.entries := hentries
  obtain ⟨parameters, req, haccept, hread, hunderstood⟩ := request_understood rt hform hknown hvalidated hbody
  refine ⟨form, req, hform, hvalidated, rfl, hunderstood, fun fuel n => ?_⟩
  rw [solveHandler_accept haccept, solveThread, hread]
  dsimp only
  cases Routers.solve req rt.currentScheme fuel n <;> rfl

theorem solve_of_success {rows : List (ℝ × Vec ℝ)} (hvalid : Valid task) (hbody : task.IsBody body)
    (h : solveHandler rt (.ok body) fuel n = .success rows) :
    ∃ form req, form.IsFor task.data.equation ∧ form.validateParameters = none ∧ task.parameters = form.entries ∧
      Understood form task.data req ∧ Routers.solve req rt.currentScheme fuel n = .exit rows := by
  obtain ⟨form, req, hform, hvalidated, hentries, hunderstood, hsolve⟩ :=
    solveHandler_valid rt hvalid (known_of_success hbody h) hbody
  rw [hsolve] at h
  refine ⟨form, req, hform, hvalidated, hentries, hunderstood, ?_⟩
  cases hrun : Routers.solve req rt.currentScheme fuel n with
  | exit rows' =>
    rw [hrun] at h
    cases h
    rfl
  | raise e rows' =>
    rw [hrun] at h
    exact absurd h (caught_ne_success e rows)
  | next rows' =>
    rw [hrun] at h
    cases h
  | starved rows' =>
    rw [hrun] at h
    cases h

/-- the request has as many initial values as its system has components -/
theorem inBounds_of_understood {form : ParameterForm} {data : TaskData} {req : SolveRequest ℝ}
    (h : Understood form data req) :
    Bounds.InBounds req := by
  refine Bounds.inBounds_of_dimension ?_
  rw [h.y0, List.length_map, List.length_range]
  exact TaskManager.getTask_indexes h.system

/-- **Valid requests.** A task that has passed the validation is read as the problem in its form, and it is never
refused with 400, does not end the process and causes no undefined behaviour: it gets rows with a value for each
component, or 500 with the message of an exception, or it is still being computed. -/
theorem valid_request_answered (rt : Runtime ℝ) (hvalid : Valid task) (hknown : task.data.equation ≠ .Unknown)
    (hbody : task.IsBody body) :
    ∃ form req, form.IsFor task.data.equation ∧ task.parameters = form.entries ∧ Understood form task.data req ∧
      ∀ fuel n, (∃ rows, solveHandler rt (.ok body) fuel n = .success rows ∧
            Routers.solve req rt.currentScheme fuel n = .exit rows ∧
            ∀ r ∈ rows, r.2.length = TaskManager.dimension task.data.equation.name) ∨
          (∃ what, solveHandler rt (.ok body) fuel n = .serverError ("Error: " ++ what)) ∨
          solveHandler rt (.ok body) fuel n = .unfinished := by
  obtain ⟨form, req, hform, -, hentries, hunderstood, hsolve⟩ := solveHandler_valid rt hvalid hknown hbody
  refine ⟨form, req, hform, hentries, hunderstood, fun fuel n => ?_⟩
  obtain ⟨hraise, hlength⟩ := inBounds_of_understood hunderstood rt.currentScheme fuel n
  rw [hsolve]
  cases hrun : Routers.solve req rt.currentScheme fuel n with
  | exit rows =>
    refine Or.inl ⟨rows, rfl, rfl, fun r hr => ?_⟩
    rw [hrun] at hlength
    rw [hlength r hr, hunderstood.y0, List.length_map, List.length_range]
  | raise e rows =>
    refine Or.inr (Or.inl ?_)
    cases e with
    | badIndex => exact absurd hrun (hraise rows)
    | _ what => exact ⟨what, rfl⟩
  | next rows => exact Or.inr (Or.inr rfl)
  | starved rows => exact Or.inr (Or.inr rfl)

end Server

/-! ## Graphs -/

section Graphs

variable {K : Type} {round : ℝ → K} {dumpFloat : K → String} {deserializeObject : String → Option (RawResult K)}
  {task : SentTask} {text : String}

/-- **Answers.** The points are the rows of a run of the server on the problem that was in the form of the task. -/
def Answers (round : ℝ → K) (task : SentTask) (points : List (List K)) : Prop :=
  ∃ form req currentScheme fuel n rows, form.IsFor task.data.equation ∧ form.validateParameters = none ∧
    task.parameters = form.entries ∧ Understood form task.data req ∧
    Routers.solve req currentScheme fuel n = .exit rows ∧ points = rows.map fun row => round row.1 :: row.2.map round

/-- the initial values in the form -/
noncomputable def initialValues (form : ParameterForm) (data : TaskData) : Vec ℝ :=
  (List.range (TaskManager.dimension data.equation.name)).map fun i => form.entered (ParseUtils.ownKey i)

/-- **Solution.** The rows begin with the initial values in the form and go forward in time; all but the last one are
before t1, and for the methods that do not give up the last one reaches it. For DISPS they are a trajectory of the
enabled variants. -/
structure Solution (form : ParameterForm) (data : TaskData) (rows : List (ℝ × Vec ℝ)) : Prop where
  first : rows.head? = some (form.entered "t0", initialValues form data)
  increasing : (rows.map Prod.fst).Pairwise (· < ·)
  inside : ∀ r ∈ rows.dropLast, r.1 < form.entered "t1"
  reaches : data.method ∈ [.ExplicitEuler, .RungeKutta2, .DISPF] → ∃ r, rows.getLast? = some r ∧ form.entered "t1" ≤ r.1
  trajectory : data.method = .DISPS → ∃ f, TaskManager.getTask form.entered data.equation.name = .ok f ∧
    Trajectory.ValidTrajectory f (DISPSSolver.variants (flagsOf form)) (form.entered "t0") (initialValues form data)
      (form.entered "t1") rows

theorem solution_of_run {form : ParameterForm} {data : TaskData} {req : SolveRequest ℝ}
    {currentScheme : DISPDSolver.SchemeParams ℝ} {fuel n : ℕ} {rows : List (ℝ × Vec ℝ)} (h : Understood form data req)
    (hrun : Routers.solve req currentScheme fuel n = .exit rows) (htol : 0 < (form.entered "tolerance" : ℝ)) :
    Solution form data rows := by
  have hforward := Timeline.rows_forward req currentScheme fuel n h.interval (h.tolerance ▸ htol) hrun
  refine ⟨?_, hforward.increasing, ?_, fun hm => ?_, fun hm => ⟨req.odeFunction, h.system, ?_⟩⟩
  · rw [hforward.first, h.t0, h.y0]
    rfl
  · rw [← h.tEnd]
    exact hforward.inside
  · rw [← h.tEnd]
    refine hforward.reaches ?_
    rw [h.method]
    exact List.mem_map_of_mem hm
  · have htrajectory := hforward.trajectory (h.method.trans (congrArg SolutionMethod.name hm))
    rw [h.flags hm, h.t0, h.tEnd, h.y0] at htrajectory
    exact htrajectory

/-- over a connection that stays up the payloads are the whole document -/
theorem stream_whole {conn : Connection} (hconn : ∀ i, conn.isConnected i = true) (storage : List (K × Vec K)) :
    String.join (streamResults conn dumpFloat storage).payloads = Streaming.document dumpFloat storage := by
  rcases (Streaming.streamResults_follows conn dumpFloat storage).state with h | ⟨hlost, -⟩
  · rwa [Streaming.streamResults_buffer hconn, String.append_empty] at h
  · rw [hconn] at hlost
    cases hlost

/-- a graph whose rows have as many values as the first one -/
theorem ofRaw_rectangular {raw : RawResult K} (n : ℕ) (h : ∀ r ∈ raw.results, r.values.length = n) :
    (SimulationResult.ofRaw raw).Rectangular := by
  intro p hp
  obtain ⟨r, hr, rfl⟩ := List.mem_map.1 hp
  rw [SimulationResult.ofRaw, List.length_cons, List.length_cons, h r hr]
  cases hresults : raw.results with
  | nil =>
    rw [hresults] at hr
    cases hr
  | cons first rest =>
    have hfirst : first.values.length = n := h first (hresults ▸ List.mem_cons_self)
    rw [List.length_map, List.length_range, hfirst]

/-- a text that does not begin with the word for an error is the whole document of some rows -/
theorem document_of_reply (hreply : Reply round dumpFloat task text) (herror : ∀ s, text ≠ "Ошибка" ++ s) :
    ∃ (rt : Runtime ℝ) (body : Json ℝ) (fuel n : ℕ) (rows : List (ℝ × Vec ℝ)), task.IsBody body ∧
      solveHandler rt (.ok body) fuel n = .success rows ∧
      text = Streaming.document dumpFloat (printedRows round rows) := by
  cases hreply with
  | failed message =>
    refine absurd ?_ (herror (" соединения: " ++ message))
    rw [← String.append_assoc]
    rfl
  | @response rt body fuel n conn _ hbody hconn htext =>
    cases hresponse : solveHandler rt (.ok body) fuel n with
    | success rows =>
      rw [hresponse] at htext
      refine ⟨rt, body, fuel, n, rows, hbody, hresponse, ?_⟩
      rw [← stream_whole hconn]
      exact (Option.some.inj htext).symm
    | badRequest what =>
      rw [hresponse] at htext
      exact absurd (Option.some.inj htext).symm (herror ": BadRequest")
    | serverError what =>
      rw [hresponse] at htext
      exact absurd (Option.some.inj htext).symm (herror ": InternalServerError")
    | _ =>
      rw [hresponse] at htext
      cases htext

/-- **One reply.** A text that can be read holds the rows of a run on the problem of its task. -/
theorem reply_answers (hread : Streaming.Faithful deserializeObject dumpFloat)
    (herror : ∀ s, deserializeObject ("Ошибка" ++ s) = none) (hvalid : Valid task)
    (hreply : Reply round dumpFloat task text) {graph : SimulationResult K}
    (hgraph : SimulationResult.construct deserializeObject text = some graph) :
    Answers round task graph.points ∧ graph.Rectangular := by
  have hnone : ∀ s, text ≠ "Ошибка" ++ s := by
    rintro s rfl
    rw [SimulationResult.construct, herror] at hgraph
    cases hgraph
  obtain ⟨rt, body, fuel, n, rows, hbody, hresponse, rfl⟩ := document_of_reply hreply hnone
  obtain ⟨form, req, hform, hvalidated, hentries, hunderstood, hrun⟩ := solve_of_success hvalid hbody hresponse
  obtain ⟨result, hresult, hpoints⟩ := Streaming.construct_document hread (printedRows round rows)
  cases hgraph.symm.trans hresult
  have hrows : graph.points = rows.map fun row => round row.1 :: row.2.map round := by
    rw [hpoints, printedRows, List.map_map]
    rfl
  refine ⟨⟨form, req, rt.currentScheme, fuel, n, rows, hform, hvalidated, hentries, hunderstood, hrun, hrows⟩, ?_⟩
  obtain ⟨raw, -, hraw⟩ := Option.map_eq_some_iff.1 hresult
  rw [← hraw] at hrows ⊢
  refine ofRaw_rectangular req.y0.length fun r hr => ?_
  have hlength := Bounds.rows_length req rt.currentScheme fuel n
  rw [hrun] at hlength
  have hmem : r.t :: r.values ∈ (SimulationResult.ofRaw raw).points := List.mem_map_of_mem hr
  rw [hrows] at hmem
  obtain ⟨row, hrow, heq⟩ := List.mem_map.1 hmem
  rw [← (List.cons.inj heq).2, List.length_map]
  exact hlength row hrow

end Graphs

/-! ## The window and the server -/

section System

variable {K : Type} [Field K] [LinearOrder K] {round : ℝ → K} {dumpFloat : K → String}
  {deserializeObject : String → Option (RawResult K)} {w w' : Window K} {op : Window.Op K}

/-- a handler runs at the arrival of its response only -/
theorem step_completions (h : Window.step deserializeObject w op = some w') {c : Completion K}
    (hc : c ∈ w'.core.completions) :
    c ∈ w.core.completions ∨ ∃ request text, op = .response request text ∧ c.request = request ∧ c.response = text := by
  rw [step_core h] at hc
  cases op with
  | edit op => cases op <;> exact Or.inl hc
  | solve =>
    rw [coreOps] at hc
    split_ifs at hc <;> exact Or.inl hc
  | response request text =>
    change c ∈ (Client.step deserializeObject w.core (.response request text)).completions at hc
    rw [Client.step] at hc
    cases hlookup : w.core.pending.lookup request with
    | none =>
      rw [hlookup] at hc
      exact Or.inl hc
    | some task =>
      rw [hlookup] at hc
      rcases List.mem_append.1 hc with hc | hc
      · exact Or.inl hc
      · rw [List.mem_singleton.1 hc]
        exact Or.inr ⟨request, text, rfl, rfl, rfl⟩
  | deleteCharts => exact Or.inl hc
  | view op => exact Or.inl hc

/-- what has been sent stays sent -/
theorem step_sent (h : Window.step deserializeObject w op = some w') : w.sent ⊆ w'.sent := by
  cases op with
  | edit op =>
    obtain rfl := Option.some.inj h
    cases op with
    | selectEquation equation =>
      rw [Window.edit]
      split_ifs <;> exact List.Subset.refl _
    | _ => exact List.Subset.refl _
  | solve =>
    rw [Window.step, Window.solve] at h
    split at h
    · obtain rfl := Option.some.inj h
      exact List.Subset.refl _
    · obtain ⟨task, -, h⟩ := Option.bind_eq_some_iff.1 h
      obtain rfl := Option.some.inj h
      exact List.subset_append_left _ _
  | response request text =>
    rw [Window.step] at h
    split at h
    · obtain rfl := Option.some.inj h
      exact List.Subset.refl _
    · obtain rfl := Option.some.inj h
      unfold Window.handleResponse
      dsimp only
      split
      · split <;> exact List.Subset.refl _
      · exact List.Subset.refl _
  | deleteCharts =>
    obtain rfl := Option.some.inj h
    exact List.Subset.refl _
  | view op =>
    obtain ⟨v, -, h⟩ := Option.bind_eq_some_iff.1 h
    obtain rfl := Option.some.inj h
    exact List.Subset.refl _

variable [IsStrictOrderedRing K]

/-- the window is in order, and what its handlers have read are replies to what it has sent -/
structure SystemInv (round : ℝ → K) (dumpFloat : K → String) (deserializeObject : String → Option (RawResult K))
    (w : Window K) : Prop where
  window : MainWindow.Inv deserializeObject w
  replies : ∀ c ∈ w.core.completions, ∃ task, (c.request, task) ∈ w.sent ∧ Reply round dumpFloat task c.response

variable (hread : Streaming.Faithful deserializeObject dumpFloat)
    (herror : ∀ s, deserializeObject ("Ошибка" ++ s) = none)

include hread herror

omit [Field K] [IsStrictOrderedRing K] in
/-- the rows of a reply have a value for each axis -/
theorem rectangular_of_arrives (h : SystemInv round dumpFloat deserializeObject w)
    (harrives : Arrives round dumpFloat w op) :
    RectangularOp deserializeObject op := by
  cases op with
  | response request text =>
    obtain ⟨task, htask, hreply⟩ := harrives
    exact fun graph hgraph => (reply_answers hread herror (h.window.sent.valid _ htask) hreply hgraph).2
  | _ => trivial

theorem reach_inv (h : Reach round dumpFloat deserializeObject w) : SystemInv round dumpFloat deserializeObject w := by
  induction h with
  | init => exact ⟨MainWindow.inv_init deserializeObject, fun c hc => absurd hc List.not_mem_nil⟩
  | @step w w' op h harrives hstep ih =>
    obtain ⟨w1, hstep1, hinv, -⟩ := step_inv ih.window (rectangular_of_arrives hread herror ih harrives)
    cases hstep.symm.trans hstep1
    refine ⟨hinv, fun c hc => ?_⟩
    rcases step_completions hstep hc with hold | ⟨request, text, rfl, rfl, rfl⟩
    · exact (ih.replies c hold).imp fun task h => ⟨step_sent hstep h.1, h.2⟩
    · exact harrives.imp fun task h => ⟨step_sent hstep h.1, h.2⟩

omit [Field K] [IsStrictOrderedRing K] in
/-- a stored graph is the result of one request -/
theorem graph_answers (h : SystemInv round dumpFloat deserializeObject w) {entry : String × SimulationResult K}
    (hentry : entry ∈ w.storage.graphs) :
    ∃ c ∈ w.core.completions, c.handled = .stored entry.1 entry.2 ∧
      ∃ task, (c.request, task) ∈ w.sent ∧ Answers round task entry.2.points := by
  rw [Window.storage, h.window.requests.contents] at hentry
  obtain ⟨c, hc, hstored⟩ := List.mem_filterMap.1 hentry
  have hmem := List.mem_of_mem_drop hc
  obtain ⟨task, htask, hreply⟩ := h.replies c hmem
  rcases h.window.requests.handled c hmem with ⟨-, hhandled⟩ | ⟨graph, number, hgraph, hhandled⟩
  · rw [Identity.entry, hhandled] at hstored
    cases hstored
  · rw [Identity.entry, hhandled] at hstored
    cases hstored
    exact ⟨c, hmem, hhandled, task, htask,
      (reply_answers hread herror (h.window.sent.valid _ htask) hreply hgraph).1⟩

/-- **End to end.** In every state that the window reaches in front of the server, whatever the user does and in
whatever order the responses arrive: no operation ends the program, and every stored graph is the result of one request,
with the rows of a run of the server on the problem that was in the form when that request was sent. -/
theorem graphs_answer_requests (h : Reach round dumpFloat deserializeObject w) :
    (∀ op, Arrives round dumpFloat w op → ∃ w', Window.step deserializeObject w op = some w') ∧
      ∀ entry ∈ w.storage.graphs, ∃ c ∈ w.core.completions, c.handled = .stored entry.1 entry.2 ∧
        ∃ task, (c.request, task) ∈ w.sent ∧ Answers round task entry.2.points := by
  have hinv := reach_inv hread herror h
  refine ⟨fun op harrives => ?_, fun entry hentry => graph_answers hread herror hinv hentry⟩
  obtain ⟨w', hstep, -⟩ := step_inv hinv.window (rectangular_of_arrives hread herror hinv harrives)
  exact ⟨w', hstep⟩

/-- **Solutions.** Every stored graph is the rounding of rows that run forward through the interval in the form, for
DISPS of a trajectory of the enabled variants, if the tolerance in the form was positive. -/
theorem graphs_are_solutions (h : Reach round dumpFloat deserializeObject w) :
    ∀ entry ∈ w.storage.graphs, ∃ request task form rows, (request, task) ∈ w.sent ∧ form.IsFor task.data.equation ∧
      task.parameters = form.entries ∧ (entry.2.points = rows.map fun row => round row.1 :: row.2.map round) ∧
      (0 < (form.entered "tolerance" : ℝ) → Solution form task.data rows) := by
  intro entry hentry
  obtain ⟨c, -, -, task, htask, form, req, currentScheme, fuel, n, rows, hform, -, hentries, hunderstood, hrun,
    hpoints⟩ :=
    graph_answers hread herror (reach_inv hread herror h) hentry
  exact ⟨c.request, task, form, rows, htask, hform, hentries, hpoints, solution_of_run hunderstood hrun⟩

end System

/-! ## A client for rational numbers -/

/-- natural numbers as `dump` prints them, and the others by their place in an enumeration -/
def rationalText : Json.FloatText ℚ where
  print q := if q.den = 1 ∧ 0 ≤ q.num then Streaming.wholeText.print q.num.toNat
    else "-" ++ Streaming.wholeText.print (Encodable.encode q)
  read s := match s.toList with
    | '-' :: cs => (Streaming.wholeText.read (String.ofList cs)).bind Encodable.decode
    | _ => (Streaming.wholeText.read s).map (Nat.cast : ℕ → ℚ)
  read_print q := by
    split_ifs with hwhole
    · obtain ⟨c, cs, hc⟩ := List.exists_cons_of_ne_nil (Nat.toDigits_ne_nil (n := q.num.toNat) (b := 10))
      have hdigit : c.isDigit = true := Nat.isDigit_of_mem_toDigits (by norm_num) le_rfl (by rw [hc]; simp)
      have hprint : (Streaming.wholeText.print q.num.toNat).toList = c :: (cs ++ ".0".toList) := by
        change (toString q.num.toNat ++ ".0").toList = _
        rw [String.toList_append, Nat.toString_eq_repr, Nat.toList_repr, hc, List.cons_append]
      have hq : ((q.num.toNat : ℕ) : ℚ) = q := by
        rw [← Int.cast_natCast, Int.toNat_of_nonneg hwhole.2]
        exact Rat.coe_int_num_of_den_eq_one hwhole.1
      rw [hprint]
      split
      · next cs' heq =>
        rw [(List.cons.inj heq).1] at hdigit
        exact absurd hdigit (by decide)
      · rw [Streaming.wholeText.read_print, Option.map_some, hq]
    · have hprint : ("-" ++ Streaming.wholeText.print (Encodable.encode q)).toList =
          '-' :: (Streaming.wholeText.print (Encodable.encode q)).toList := by
        rw [String.toList_append]
        rfl
      rw [hprint]
      change (Streaming.wholeText.read (String.ofList _)).bind Encodable.decode = some q
      rw [String.ofList_toList, Streaming.wholeText.read_print, Option.bind_some, Encodable.encodek]
  print_ne q := by
    split_ifs
    · exact Streaming.wholeText.print_ne _
    · rw [String.toList_append]
      exact List.append_ne_nil_of_left_ne_nil (by decide) _
  print_chars q c hc := by
    split_ifs at hc
    · exact Streaming.wholeText.print_chars _ c hc
    · rw [String.toList_append, List.mem_append] at hc
      rcases hc with hc | hc
      · rw [List.mem_singleton.1 hc]
        decide
      · exact Streaming.wholeText.print_chars _ c hc

/-- a text that begins with a letter is no JSON -/
theorem rawResult_error {K : Type} (F : Json.FloatText K) (s : String) :
    Streaming.rawResult F ("Ошибка" ++ s) = none := by
  have htext : ∃ cs, ("Ошибка" ++ s).toList = 'О' :: cs := by
    rw [String.toList_append]
    exact ⟨_, rfl⟩
  obtain ⟨cs, hcs⟩ := htext
  have hparse : Json.parse F ("Ошибка" ++ s) = none := by
    rw [Json.parse, hcs, List.length_cons]
    have hvalue : Json.readValue F (cs.length + 1) ('О' :: cs) =
        (Json.readNumber F ('О' :: cs)).map fun p => (.numberFloat p.1, p.2) := rfl
    have hdrop : ('О' :: cs).dropWhile Json.isNumberChar = 'О' :: cs := rfl
    rw [hvalue, Json.readNumber, hdrop]
    cases F.read (String.ofList (('О' :: cs).takeWhile Json.isNumberChar)) <;> rfl
  rw [Streaming.rawResult, hparse]

/-! ## Runs with steps -/

section Drift

-- the second component is 1, and is the derivative of the first one
variable {f : Rhs ℝ} (hf : ∀ t a, f t [a, 1] = .ok [1, 0])

include hf

theorem euler_drift (t a h : ℝ) : EulerSolver.step f 1e-4 t [a, 1] h = .returned () [a + h, 1] (h * 2) h := by
  have hgrow : min (0.9 * Real.sqrt (1e-4 / (0 + 1e-12))) 2.0 = (2 : ℝ) := by
    have hroot : (10 : ℝ) ≤ Real.sqrt (1e-4 / (0 + 1e-12)) := Real.le_sqrt_of_sq_le (by norm_num)
    rw [min_eq_right (by linarith)]
    norm_num
  have hupdate : EulerSolver.update f t [a, 1] h = .ok [a + h, 1] := by
    simp only [EulerSolver.update, hf, ok_bind, multiplyScalarByVector, addVectors]
    norm_num
  have hattempt : EulerSolver.attempt f t [a, 1] h = .ok ([a + h, 1], 0) := by
    simp only [EulerSolver.attempt, hupdate, hf, ok_bind]
    norm_num [maxOver, List.range_succ, read]
  simp only [EulerSolver.step, hattempt]
  rw [if_neg (by norm_num), cmath_sqrt, EulerSolver.safetyFactor, EulerSolver.maxFactor, hgrow]

theorem disps_drift (t a : ℝ) {h : ℝ} (hh : 0 < h) (left : ℕ) :
    DISPSSolver.tryLoop f DISPSSolver.disps13 1e-4 t [a, 1] (left + 1) h =
      .ok (.accepted h [a + 0.999999999999997 * h, 1] (h * 1.2) false) := by
  have hnorm : norm [h, 0] = h := by
    rw [norm, List.foldl_cons, List.foldl_cons, List.foldl_nil, cmath_sqrt, mul_zero, add_zero, zero_add,
      Real.sqrt_mul_self hh.le]
  have hzero : norm [(0 : ℝ), 0] = 0 := by norm_num [norm]
  have hstep : DISPSSolver.doOneStep f t [a, 1] h DISPSSolver.disps13 =
      .ok ([a + 0.999999999999997 * h, 1], [[h, 0], [h, 0], [h, 0]]) := by
    simp only [DISPSSolver.doOneStep, DISPSSolver.disps13, DISPSSolver.step3Stage, if_true, hf, ok_bind,
      DISPSSolver.mul, DISPSSolver.add, multiplyScalarByVector, read]
    norm_num [hf]
    ring
  have hcontrol : DISPSSolver.control DISPSSolver.disps13 [[h, 0], [h, 0], [h, 0]] h 1e-4 =
      .ok ⟨true, h * 1.2, false⟩ := by
    norm_num [DISPSSolver.control, DISPSSolver.disps13, DISPSSolver.control1stOrder, DISPSSolver.subtract, read, hzero,
      DISPSSolver.verdict, DISPSSolver.vnTest]
  rw [DISPSSolver.tryLoop, hstep, ok_bind]
  dsimp only
  rw [hcontrol]
  rfl

/-- one pass of Euler; t advances by the step that is chosen for the next pass -/
theorem euler_pass {t a step h t' a' : ℝ} {storage : List (ℝ × Vec ℝ)} {attempts : List ℝ} (ht : t < 0.003)
    (hclip : min step (0.003 - t) = h) (hh : 0 < h) (ht' : t + h * 2 = t') (ha' : a + h = a') :
    (EulerSolver.driver f 1e-4).body 0.003 ⟨(), t, [a, 1], step, storage, attempts⟩ =
      .next ⟨(), t', [a', 1], h * 2, storage ++ [(t', [a', 1])], attempts ++ [h]⟩ := by
  have htiny : ¬ (EulerSolver.driver f (1e-4 : ℝ)).tiny h = true := by
    rw [EulerSolver.driver, decide_eq_true_iff]
    exact not_le.2 hh
  have hstep : (EulerSolver.driver f 1e-4).step () t [a, 1] h = .returned () [a + h, 1] (h * 2) h :=
    euler_drift hf t a h
  rw [← ht', ← ha', Driver.body, if_pos ht, show (EulerSolver.driver f (1e-4 : ℝ)).clip t step 0.003 = h from hclip]
  dsimp only
  rw [if_neg htiny, hstep]
  rfl

/-- two steps of Euler; the clock runs ahead of the accepted steps -/
theorem euler_run : ∃ s, EulerSolver.solve f initialStep 0 [1, 1] 0.003 1e-4 3 = .exit s ∧
    s.storage = [(0, [1, 1]), (0.002, [1.001, 1]), (0.004, [1.002, 1])] := by
  have h1 : (EulerSolver.driver f 1e-4).body 0.003 ⟨(), 0, [1, 1], initialStep, [(0, [1, 1])], []⟩ =
      .next ⟨(), 0.002, [1.001, 1], 0.001 * 2, [(0, [1, 1]), (0.002, [1.001, 1])], [0.001]⟩ :=
    euler_pass hf (by norm_num) (by norm_num [initialStep]) (by norm_num) (by norm_num) (by norm_num)
  have h2 : (EulerSolver.driver f 1e-4).body 0.003
      ⟨(), 0.002, [1.001, 1], 0.001 * 2, [(0, [1, 1]), (0.002, [1.001, 1])], [0.001]⟩ =
      .next ⟨(), 0.004, [1.002, 1], 0.001 * 2, [(0, [1, 1]), (0.002, [1.001, 1]), (0.004, [1.002, 1])],
        [0.001, 0.001]⟩ :=
    euler_pass hf (by norm_num) (by norm_num) (by norm_num) (by norm_num) (by norm_num)
  have hend : (0.003 : ℝ) ≤ 0.004 := by norm_num
  exact ⟨_, (Loop.run_succ_next h1 2).trans ((Loop.run_succ_next h2 1).trans
    (Loop.run_succ_exit (body_idle (Or.inl hend)) 0)), rfl⟩

open DISPSSolver

/-- one pass of DISPS with the variant Disps13 -/
theorem disps_pass (a : ℝ) (results : List (ℝ × Vec ℝ)) {t step h t' : ℝ} (ht : t < 0.003)
    (hclip : min step (0.003 - t) = h) (hh : 1e-14 ≤ h) (ht' : t + h = t') :
    body f [disps13] 0.003 1e-4 ⟨t, [a, 1], step, 0, results⟩ =
      .next ⟨t', [a + 0.999999999999997 * h, 1], h * 1.2, 0,
        results ++ [(t', [a + 0.999999999999997 * h, 1])]⟩ := by
  have hh0 : 0 < h := lt_of_lt_of_le (by norm_num) hh
  rw [← ht', body, if_pos ht]
  dsimp only
  rw [hclip, if_neg (not_lt.2 hh), show read [(disps13 : DispsVariant ℝ)] 0 = .ok disps13 from rfl, ok_bind,
    disps_drift hf t a hh0 29]
  rfl

/-- three steps of DISPS, the last one clipped -/
theorem disps_run : ∃ s, DISPSSolver.solve f [disps13] initialStep 0 0 [1, 1] 0.003 1e-4 4 = .exit s ∧
    s.results.map Prod.fst = [0, 0.001, 0.0022, 0.003] := by
  have hend : ∀ s : State ℝ, s.t = 0.003 → body f [disps13] 0.003 1e-4 s = .exit s := fun s hs =>
    if_neg (by rw [hs]; exact lt_irrefl _)
  have h1 := fun a results => disps_pass hf a results (show (0 : ℝ) < 0.003 by norm_num)
    (show min initialStep (0.003 - 0) = (0.001 : ℝ) by norm_num [initialStep]) (by norm_num)
    (show (0 : ℝ) + 0.001 = 0.001 by norm_num)
  have h2 := fun a results => disps_pass hf a results (show (0.001 : ℝ) < 0.003 by norm_num)
    (show min (0.001 * 1.2) (0.003 - 0.001) = (0.0012 : ℝ) by norm_num) (by norm_num)
    (show (0.001 : ℝ) + 0.0012 = 0.0022 by norm_num)
  have h3 := fun a results => disps_pass hf a results (show (0.0022 : ℝ) < 0.003 by norm_num)
    (show min (0.0012 * 1.2) (0.003 - 0.0022) = (0.0008 : ℝ) by norm_num) (by norm_num)
    (show (0.0022 : ℝ) + 0.0008 = 0.003 by norm_num)
  exact ⟨_, (Loop.run_succ_next (h1 1 [(0, [1, 1])]) 3).trans ((Loop.run_succ_next (h2 _ _) 2).trans
    ((Loop.run_succ_next (h3 _ _) 1).trans (Loop.run_succ_exit (hend _ rfl) 0))), rfl⟩

end Drift

/-! ### Two requests -/

/-- the oscillator without forces, from (1, 1), with t1 = 0.003 -/
def driftForm : ParameterForm :=
  (((((ParameterForm.mk (updateEquationFormula .ForcedOscillator) 0 0 0 fun _ => false).setValue 0 ⟨0, 1⟩).setValue 1
    ⟨0, 1⟩).setValue 2 ⟨0, 1⟩).setValue 5 ⟨10, 1⟩).setValue 7 ⟨3, 3⟩

def eulerTask : SentTask := ⟨⟨.ExplicitEuler, .ForcedOscillator, "Метод Эйлера"⟩, driftForm.entries⟩

/-- the same problem, with the variant Disps13 -/
def dispsTask : SentTask := ⟨⟨.DISPS, .ForcedOscillator, "DISPS"⟩, (driftForm.setDisps .Disps13 true).entries⟩

/-- the members in the order in which they are written -/
noncomputable def writtenBody (task : SentTask) : Json ℝ :=
  .object [("Method", .string task.data.method.name), ("Equation", .string task.data.equation.name),
    ("GraphTitle", .string task.data.graphTitle),
    ("Parameters", .object (task.parameters.map fun entry => (entry.1, entry.2.toJson)))]

theorem writtenBody_isBody (task : SentTask) : task.IsBody (writtenBody task) :=
  ⟨_, task.parameters, rfl, List.Perm.refl _, List.Perm.refl _⟩

theorem driftForm_valid : driftForm.validateParameters = none := by decide +kernel

theorem dispsForm_valid : (driftForm.setDisps .Disps13 true).validateParameters = none := driftForm_valid

theorem eulerTask_valid : Valid eulerTask := ⟨driftForm, rfl, driftForm_valid, rfl⟩

theorem entered_of_valueAt {form : ParameterForm} {key : String} {d : Decimal} (h : form.valueAt key = some d) :
    (form.entered key : ℝ) = d.coefficient / (10 ^ d.scale : ℕ) := by
  rw [ParameterForm.entered, h]
  rfl

/-- the problem of both tasks -/
theorem drift_understood {form : ParameterForm} {data : TaskData} {req : SolveRequest ℝ} (h : Understood form data req)
    (hform : form.parameters = driftForm.parameters) (hequation : data.equation = .ForcedOscillator) :
    req.t0 = 0 ∧ req.tEnd = 0.003 ∧ req.tolerance = 1e-4 ∧ req.y0 = [1, 1] ∧
      ∀ t a, req.odeFunction t [a, 1] = .ok [1, 0] := by
  have hat : ∀ key, form.valueAt key = driftForm.valueAt key := fun key => by
    rw [ParameterForm.valueAt, hform, ParameterForm.valueAt]
  have hentered : ∀ key d, driftForm.valueAt key = some d →
      (form.entered key : ℝ) = d.coefficient / (10 ^ d.scale : ℕ) :=
    fun key d hd => entered_of_valueAt ((hat key).trans hd)
  have hsystem := h.system
  have hy0 := h.y0
  rw [hequation] at hsystem hy0
  refine ⟨?_, ?_, ?_, ?_, fun t a => ?_⟩
  · rw [h.t0, hentered "t0" ⟨0, 1⟩ (by decide)]
    norm_num
  · rw [h.tEnd, hentered "t1" ⟨3, 3⟩ (by decide)]
    norm_num
  · rw [h.tolerance, hentered "tolerance" ⟨1, 4⟩ (by decide)]
    norm_num
  · rw [hy0]
    change [form.entered "y0_init", form.entered "y1_init"] = [(1 : ℝ), 1]
    rw [hentered "y0_init" ⟨10, 1⟩ (by decide), hentered "y1_init" ⟨10, 1⟩ (by decide)]
    norm_num
  · have hf : req.odeFunction = TaskManager.forcedOscillator form.entered := (Except.ok.inj hsystem).symm
    rw [hf]
    change Except.ok [(1 : ℝ), -form.entered "omega" * form.entered "omega" * a - form.entered "gamma" * 1 +
      form.entered "F" * Real.cos (form.entered "omega_k" * t)] = .ok [1, 0]
    rw [hentered "omega" ⟨0, 1⟩ (by decide), hentered "gamma" ⟨0, 1⟩ (by decide), hentered "F" ⟨0, 1⟩ (by decide)]
    norm_num

theorem eulerTask_success : ∃ rows, solveHandler standard (.ok (writtenBody eulerTask)) 0 3 = .success rows ∧
    rows = [(0, [1, 1]), (0.002, [1.001, 1]), (0.004, [1.002, 1])] := by
  have hform : driftForm.IsFor eulerTask.data.equation := rfl
  obtain ⟨parameters, req, haccept, hread, hunderstood⟩ :=
    request_understood standard hform (by decide) driftForm_valid (writtenBody_isBody eulerTask)
  obtain ⟨ht0, htEnd, htol, hy0, hf⟩ := drift_understood hunderstood rfl rfl
  obtain ⟨s, hs, hrows⟩ := euler_run hf
  refine ⟨_, ?_, hrows⟩
  rw [solveHandler_accept haccept, solveThread, hread]
  dsimp only
  rw [Routers.solve, hunderstood.method, if_pos (by decide), ht0, htEnd, htol, hy0, hs]
  rfl

theorem dispsTask_success : ∃ rows, solveHandler standard (.ok (writtenBody dispsTask)) 0 4 = .success rows ∧
    rows.map Prod.fst = [0, 0.001, 0.0022, 0.003] := by
  have hform : (driftForm.setDisps .Disps13 true).IsFor dispsTask.data.equation := rfl
  obtain ⟨parameters, req, haccept, hread, hunderstood⟩ :=
    request_understood standard hform (by decide) dispsForm_valid (writtenBody_isBody dispsTask)
  obtain ⟨ht0, htEnd, htol, hy0, hf⟩ := drift_understood hunderstood rfl rfl
  obtain ⟨s, hs, hrows⟩ := disps_run hf
  refine ⟨_, ?_, hrows⟩
  have hvariants : DISPSSolver.construct req.flags = .ok [(DISPSSolver.disps13 : DISPSSolver.DispsVariant ℝ)] := by
    rw [hunderstood.flags rfl]
    rfl
  rw [solveHandler_accept haccept, solveThread, hread]
  dsimp only
  rw [Routers.solve, hunderstood.method, if_neg (by decide), if_neg (by decide), if_neg (by decide), if_neg (by decide),
    if_neg (by decide), if_neg (by decide), if_pos (by decide), hvariants]
  dsimp only
  rw [ht0, htEnd, htol, hy0, hs]
  rfl

/-! ### A run of the window -/

/-- the double just below a number, among those with 52 binary places -/
noncomputable def roundDown (x : ℝ) : ℚ := ⌊x * 2 ^ 52⌋ / 2 ^ 52

/-- both requests have been sent -/
def driftWindow : Window ℚ where
  core := { Client.init with
    vm := { MainWindowViewModel.init with
      graphTitle := "DISPS", selectedMethod := .DISPS, selectedEquation := .ForcedOscillator }
    pending := [(0, eulerTask.data), (1, dispsTask.data)]
    nextRequest := 2 }
  form := driftForm.setDisps .Disps13 true
  sent := [(0, eulerTask), (1, dispsTask)]
  view := .init
  snackbar := []

/-- the equation and its parameters are set and a request is sent, then the method is changed and another one is sent -/
theorem driftWindow_reach (deserializeObject : String → Option (RawResult ℚ)) :
    Reach roundDown rationalText.print deserializeObject driftWindow := by
  have hedit : ∀ {w : Window ℚ} (op : FormOp), Reach roundDown rationalText.print deserializeObject w →
      Reach roundDown rationalText.print deserializeObject (w.edit deserializeObject op) := fun op h =>
    h.step (show Arrives roundDown rationalText.print _ (.edit op) from trivial) rfl
  have hform : Reach roundDown rationalText.print deserializeObject _ :=
    hedit (.editParameter 7 ⟨3, 3⟩) (hedit (.editParameter 5 ⟨10, 1⟩) (hedit (.editParameter 2 ⟨0, 1⟩)
      (hedit (.editParameter 1 ⟨0, 1⟩) (hedit (.editParameter 0 ⟨0, 1⟩)
        (hedit (.selectEquation .ForcedOscillator) .init)))))
  let eulerWindow : Window ℚ :=
    { driftWindow with
      core := { Client.init with
        vm := { MainWindowViewModel.init with selectedEquation := .ForcedOscillator }
        pending := [(0, eulerTask.data)]
        nextRequest := 1 }
      form := driftForm
      sent := [(0, eulerTask)] }
  have heuler : Reach roundDown rationalText.print deserializeObject eulerWindow := by
    refine hform.step (show Arrives roundDown rationalText.print _ .solve from trivial) ?_
    refine (MainWindow.solve_of_valid driftForm_valid eulerTask ?_).trans ?_
    · rfl
    · rfl
  refine (hedit (.setDisps .Disps13 true) (hedit (.selectMethod .DISPS) heuler)).step
    (show Arrives roundDown rationalText.print _ .solve from trivial) ?_
  refine (MainWindow.solve_of_valid dispsForm_valid dispsTask ?_).trans ?_
  · rfl
  · rfl

/-- the states of the window in front of a server that prints and reads rational numbers -/
abbrev RationalReach : Window ℚ → Prop :=
  Reach roundDown rationalText.print (Streaming.rawResult rationalText)

/-- a response with rows stores them as a further graph -/
theorem answered_reach {w : Window ℚ} (h : RationalReach w) {request : ℕ} {task : SentTask} {data : TaskData}
    (hsent : (request, task) ∈ w.sent) (hpending : w.core.pending.lookup request = some data) {fuel n : ℕ}
    {rows : List (ℝ × Vec ℝ)} (hrows : solveHandler standard (.ok (writtenBody task)) fuel n = .success rows) :
    ∃ w' entry, RationalReach w' ∧ w'.storage.graphs = w.storage.graphs ++ [entry] ∧
      (entry.2.points = rows.map fun row => roundDown row.1 :: row.2.map roundDown) ∧ w.sent ⊆ w'.sent ∧
      w'.core.pending = w.core.pending.filter fun p => p.1 ≠ request := by
  let conn : Connection := ⟨fun _ => true, fun _ h => by cases h⟩
  let text := String.join (streamResults conn rationalText.print (printedRows roundDown rows)).payloads
  have hreply : Reply roundDown rationalText.print task text :=
    .response (writtenBody_isBody task) (fun _ => rfl) (by rw [hrows]; rfl)
  have hstep : Window.step (Streaming.rawResult rationalText) w (.response request text) =
      some (w.handleResponse (Streaming.rawResult rationalText) request text) := by
    rw [Window.step, hpending]
  have hclient : Client.step (Streaming.rawResult rationalText) w.core (.response request text) =
      { w.core with
        vm := (w.core.vm.handleResponse (Streaming.rawResult rationalText) text).1
        pending := w.core.pending.filter fun p => p.1 ≠ request
        completions := w.core.completions ++ [⟨request, data, text, w.core.vm.graphTitle,
          (w.core.vm.handleResponse (Streaming.rawResult rationalText) text).2⟩] } := by
    rw [Client.step, hpending]
  have hcore : (w.handleResponse (Streaming.rawResult rationalText) request text).core =
      Client.step (Streaming.rawResult rationalText) w.core (.response request text) := step_core hstep
  obtain ⟨graph, hgraph, hpoints⟩ := Streaming.construct_document (Streaming.rawResult_faithful rationalText)
    (printedRows roundDown rows)
  have hwhole : text = Streaming.document rationalText.print (printedRows roundDown rows) := stream_whole
    (fun _ => rfl) _
  rw [← hwhole] at hgraph
  have hinv := reach_inv (Streaming.rawResult_faithful rationalText) (rawResult_error rationalText) h
  rcases Identity.handleResponse_spec (Streaming.rawResult rationalText) hinv.window.requests.names text with
    ⟨hnone, -⟩ | ⟨graph', hgraph', -, hgraphs⟩
  · rw [hgraph] at hnone
    cases hnone
  · cases hgraph.symm.trans hgraph'
    have harrives : Arrives roundDown rationalText.print w (.response request text) := ⟨task, hsent, hreply⟩
    refine ⟨_, (MainWindowViewModel.numbered (w.core.vm.storage.graphs.length + 1) w.core.vm.graphTitle, graph),
      h.step harrives hstep, ?_, ?_, step_sent hstep, ?_⟩
    · rw [Window.storage, hcore, hclient]
      exact hgraphs
    · rw [hpoints, printedRows, List.map_map]
      rfl
    · rw [hcore, hclient]

/-- the responses arrive in the other order, and the graphs have the rows of two and of three steps -/
theorem drift_reach : ∃ w, RationalReach w ∧ w.storage.graphs.map (fun entry => entry.2.points.length) = [4, 3] := by
  obtain ⟨dispsRows, hdisps, hdispsRows⟩ := dispsTask_success
  obtain ⟨eulerRows, heuler, heulerRows⟩ := eulerTask_success
  have hsent : (1, dispsTask) ∈ driftWindow.sent := .tail _ (.head _)
  obtain ⟨w1, entry1, hreach1, hgraphs1, hpoints1, hsent1, hpending1⟩ :=
    answered_reach (driftWindow_reach _) hsent rfl hdisps
  have hpending : w1.core.pending.lookup 0 = some eulerTask.data := by
    rw [hpending1]
    rfl
  obtain ⟨w2, entry2, hreach2, hgraphs2, hpoints2, -, -⟩ :=
    answered_reach hreach1 (hsent1 (.head _)) hpending heuler
  refine ⟨w2, hreach2, ?_⟩
  have hlength : dispsRows.length = 4 := by
    rw [← List.length_map (f := Prod.fst), hdispsRows]
    rfl
  rw [hgraphs2, hgraphs1, List.map_append, List.map_append]
  simp only [List.map_cons, List.map_nil, hpoints1, hpoints2, List.length_map, hlength, heulerRows]
  rfl

/-- the requests of `dispsTask` and `eulerTask` are answered in the other order -/
theorem graphs_answer_requests_drift : ∃ w : Window ℚ,
    w.storage.graphs.map (fun entry => entry.2.points.length) = [4, 3] ∧
    (∀ op, Arrives roundDown rationalText.print w op →
      ∃ w', Window.step (Streaming.rawResult rationalText) w op = some w') ∧
    ∀ entry ∈ w.storage.graphs, ∃ c ∈ w.core.completions, c.handled = .stored entry.1 entry.2 ∧
      ∃ task, (c.request, task) ∈ w.sent ∧ Answers roundDown task entry.2.points := by
  obtain ⟨w, hreach, hlengths⟩ := drift_reach
  exact ⟨w, hlengths, graphs_answer_requests (Streaming.rawResult_faithful rationalText)
    (rawResult_error rationalText) hreach⟩

theorem graphs_are_solutions_drift : ∃ w : Window ℚ,
    w.storage.graphs.map (fun entry => entry.2.points.length) = [4, 3] ∧
    ∀ entry ∈ w.storage.graphs, ∃ request task form rows, (request, task) ∈ w.sent ∧ form.IsFor task.data.equation ∧
      task.parameters = form.entries ∧ (entry.2.points = rows.map fun row => roundDown row.1 :: row.2.map roundDown) ∧
      (0 < (form.entered "tolerance" : ℝ) → Solution form task.data rows) := by
  obtain ⟨w, hreach, hlengths⟩ := drift_reach
  exact ⟨w, hlengths, graphs_are_solutions (Streaming.rawResult_faithful rationalText)
    (rawResult_error rationalText) hreach⟩

theorem valid_request_answered_drift :
    ∃ form req, form.IsFor .ForcedOscillator ∧ driftForm.entries = form.entries ∧ Understood form eulerTask.data req ∧
      ∀ fuel n, (∃ rows, solveHandler standard (.ok (writtenBody eulerTask)) fuel n = .success rows ∧
            Routers.solve req (standard : Runtime ℝ).currentScheme fuel n = .exit rows ∧ ∀ r ∈ rows, r.2.length = 2) ∨
          (∃ what, solveHandler standard (.ok (writtenBody eulerTask)) fuel n = .serverError ("Error: " ++ what)) ∨
          solveHandler standard (.ok (writtenBody eulerTask)) fuel n = .unfinished :=
  valid_request_answered standard eulerTask_valid (by decide) (writtenBody_isBody eulerTask)

end OdeClientServer.EndToEnd
