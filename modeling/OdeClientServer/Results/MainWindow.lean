/-
The main window as a whole, over every run of edits, requests, responses in any order, deletions, operations on the view
and ticks of the timer, as long as the responses have a value for each axis in every row.

- `Inv`, `step_inv`, `run_inv`: what every operation keeps. None ends the program.
- `axes_right`: the axes that can be chosen, and the ones that are selected.
- `redraw_exact`: the chart after a tick.
- `nothing_hidden`: after the scale has been reset every point is drawn, until the user narrows the limits.
- `run_core`: without its form and its chart the window is the machine of the requests.
-/
import OdeClientServer.Client.Window
import OdeClientServer.Results.Identity
import OdeClientServer.Results.Redraw

namespace OdeClientServer.MainWindow

open Client Axes Redraw Drawing

variable {R : Type}

/-! ## The invariant -/

/-- a task that `Solve` has made of a valid form -/
def Valid (task : SentTask) : Prop :=
  ∃ form : ParameterForm, form.IsFor task.data.equation ∧ form.validateParameters = none ∧
    task.parameters = form.entries

/-- every request in flight or answered has been sent once, with a valid task -/
structure SentRight (core : St R) (sent : List (ℕ × SentTask)) : Prop where
  once : (sent.map Prod.fst).Nodup
  fresh : ∀ p ∈ sent, p.1 < core.nextRequest
  valid : ∀ p ∈ sent, Valid p.2
  pending : ∀ p ∈ core.pending, ∃ task, (p.1, task) ∈ sent ∧ task.data = p.2
  completions : ∀ c ∈ core.completions, ∃ task, (c.request, task) ∈ sent ∧ task.data = c.task

theorem SentRight.solve (deserializeObject : String → Option (RawResult R)) {core : St R} {sent : List (ℕ × SentTask)}
    (h : SentRight core sent) {task : SentTask}
    (htask : Valid task) (hdata : task.data = core.vm.taskData) :
    SentRight (Client.step deserializeObject core .solve) (sent ++ [(core.nextRequest, task)]) where
  once := by
    rw [List.map_append, List.nodup_append]
    refine ⟨h.once, List.nodup_singleton _, ?_⟩
    rintro a ha b hb rfl
    obtain ⟨p, hp, rfl⟩ := List.mem_map.1 ha
    exact absurd (h.fresh p hp) (List.mem_singleton.1 hb ▸ lt_irrefl _)
  fresh p hp := by
    rcases List.mem_append.1 hp with hp | hp
    · exact Nat.lt_succ_of_lt (h.fresh p hp)
    · rw [List.mem_singleton.1 hp]
      exact Nat.lt_succ_self _
  valid p hp := by
    rcases List.mem_append.1 hp with hp | hp
    · exact h.valid p hp
    · rw [List.mem_singleton.1 hp]
      exact htask
  pending p hp := by
    rcases List.mem_append.1 hp with hp | hp
    · exact (h.pending p hp).imp fun _ ht => ⟨List.mem_append_left _ ht.1, ht.2⟩
    · rw [List.mem_singleton.1 hp]
      exact ⟨task, List.mem_append_right _ (List.mem_singleton_self _), hdata⟩
  completions c hc := (h.completions c hc).imp fun _ ht => ⟨List.mem_append_left _ ht.1, ht.2⟩

theorem SentRight.response (deserializeObject : String → Option (RawResult R)) {core : St R}
    {sent : List (ℕ × SentTask)} (h : SentRight core sent) (request : ℕ) (text : String) :
    SentRight (Client.step deserializeObject core (.response request text)) sent := by
  rw [Client.step]
  cases hlookup : core.pending.lookup request with
  | none => exact h
  | some task =>
    refine ⟨h.once, h.fresh, h.valid, fun p hp => h.pending p (List.mem_filter.1 hp).1, fun c hc => ?_⟩
    rcases List.mem_append.1 hc with hc | hc
    · exact h.completions c hc
    · rw [List.mem_singleton.1 hc]
      exact h.pending _ (Lists.mem_of_lookup hlookup)

variable [LinearOrder R] {deserializeObject : String → Option (RawResult R)} {w : Window R}

structure Inv (deserializeObject : String → Option (RawResult R)) (w : Window R) : Prop where
  requests : Identity.Inv deserializeObject w.core
  sent : SentRight w.core w.sent
  form : w.form.IsFor w.core.vm.selectedEquation
  graphs : ∀ entry ∈ w.storage.graphs, Plottable entry.2
  view : Right w.storage w.view

/-- an operation that leaves the storage and the view as they are -/
theorem Inv.aside (h : Inv deserializeObject w) (w' : Window R) (hcore : Identity.Inv deserializeObject w'.core)
    (hsent : SentRight w'.core w'.sent) (hform : w'.form.IsFor w'.core.vm.selectedEquation)
    (hstorage : w'.storage = w.storage) (hview : w'.view = w.view) :
    Inv deserializeObject w' ∧ (Framed w.storage w.view → Framed w'.storage w'.view) := by
  rw [hstorage, hview]
  refine ⟨⟨hcore, hsent, hform, ?_, ?_⟩, id⟩
  · rw [hstorage]
    exact h.graphs
  · rw [hstorage, hview]
    exact h.view

theorem edit_inv [Field R] (h : Inv deserializeObject w) (op : FormOp) :
    Inv deserializeObject (w.edit deserializeObject op) ∧
      (Framed w.storage w.view →
        Framed (w.edit deserializeObject op).storage (w.edit deserializeObject op).view) := by
  have hsent := h.sent
  have hsame : ∀ vm, SentRight { w.core with vm := vm } w.sent := fun _ =>
    ⟨hsent.once, hsent.fresh, hsent.valid, hsent.pending, hsent.completions⟩
  cases op with
  | editTitle title => exact h.aside _ (Identity.step_inv h.requests (.editTitle title)) (hsame _) h.form rfl rfl
  | selectMethod method =>
    refine h.aside _ (Identity.step_inv h.requests (.selectMethod method)) (hsame _) ?_
      (Identity.setSelectedMethod_storage w.core.vm method) rfl
    have hequation : (w.core.vm.setSelectedMethod method).selectedEquation = w.core.vm.selectedEquation := by
      unfold MainWindowViewModel.setSelectedMethod
      split_ifs <;> rfl
    exact hequation ▸ h.form
  | selectEquation equation =>
    have hstorage := Identity.setSelectedEquation_storage w.core.vm equation
    have hcore := Identity.step_inv h.requests (.selectEquation equation)
    by_cases hchanged : w.core.vm.selectedEquation ≠ equation
    · -- the parameters are those of the new equation
      have hequation : (w.core.vm.setSelectedEquation equation).selectedEquation = equation := by
        rw [MainWindowViewModel.setSelectedEquation, if_pos hchanged]
        split_ifs <;> rfl
      rw [Window.edit, if_pos hchanged]
      exact h.aside _ hcore (hsame _) (congrArg _ (congrArg updateEquationFormula hequation.symm)) hstorage rfl
    · have hform : w.form.IsFor (w.core.vm.setSelectedEquation equation).selectedEquation := by
        rw [MainWindowViewModel.setSelectedEquation, if_neg hchanged]
        exact h.form
      rw [Window.edit, if_neg hchanged]
      exact h.aside _ hcore (hsame _) hform hstorage rfl
  | editParameter i value => exact h.aside _ h.requests h.sent (h.form.setValue i value) rfl rfl
  | selectI value => exact h.aside _ h.requests h.sent h.form rfl rfl
  | selectJ value => exact h.aside _ h.requests h.sent h.form rfl rfl
  | selectK value => exact h.aside _ h.requests h.sent h.form rfl rfl
  | setDisps flag value => exact h.aside _ h.requests h.sent h.form rfl rfl

variable [Field R]

theorem inv_init (deserializeObject : String → Option (RawResult R)) : Inv deserializeObject Window.init where
  requests := Identity.inv_init
  sent := ⟨List.nodup_nil, fun _ h => absurd h List.not_mem_nil, fun _ h => absurd h List.not_mem_nil,
    fun _ h => absurd h List.not_mem_nil, fun _ h => absurd h List.not_mem_nil⟩
  form := rfl
  graphs _ h := absurd h List.not_mem_nil
  view := ⟨rfl, fun _ => ⟨rfl, rfl⟩, fun h => absurd rfl h, ⟨.medium, rfl⟩, fun h => by cases h⟩

/-! ## Steps -/

/-- a response whose rows have a value for each axis, or that cannot be read -/
def RectangularOp (deserializeObject : String → Option (RawResult R)) : Window.Op R → Prop
  | .response _ text => ∀ graph, SimulationResult.construct deserializeObject text = some graph → graph.Rectangular
  | _ => True

/-- operations by which the user can move the limits over a point -/
def Narrows : Window.Op R → Prop
  | .view op => Redraw.Narrows op
  | _ => False

variable [IsStrictOrderedRing R]

/-- the handler of a response: the graph is shown, or the message says that there is none -/
theorem handleResponse_inv (h : Inv deserializeObject w) {request : ℕ} {task : TaskData}
    (hlookup : w.core.pending.lookup request = some task) {text : String}
    (htext : ∀ graph, SimulationResult.construct deserializeObject text = some graph → graph.Rectangular) :
    Inv deserializeObject (w.handleResponse deserializeObject request text) ∧ (Framed w.storage w.view →
      Framed (w.handleResponse deserializeObject request text).storage
        (w.handleResponse deserializeObject request text).view) := by
  have hcore := Identity.step_inv h.requests (.response request text)
  have hsent : SentRight _ w.sent := h.sent.response deserializeObject request text
  have hvm : (Client.step deserializeObject w.core (.response request text)).vm =
      (w.core.vm.handleResponse deserializeObject text).1 := by
    rw [Client.step, hlookup]
  have hform : w.form.IsFor (Client.step deserializeObject w.core (.response request text)).vm.selectedEquation := by
    rw [hvm]
    unfold MainWindowViewModel.handleResponse
    dsimp only
    split
    · exact h.form
    · split <;> exact h.form
  rcases Identity.handleResponse_spec deserializeObject h.requests.names text with
    ⟨-, hhandled, hstorage⟩ | ⟨graph, hread, hhandled, hgraphs⟩
  · rw [Window.handleResponse, hhandled]
    exact h.aside _ hcore hsent hform ((congrArg _ hvm).trans hstorage) rfl
  · have hnew : (w.stepCore deserializeObject (.response request text)).storage.graphs = w.storage.graphs ++ [_] :=
      (congrArg (fun vm => vm.storage.graphs) hvm).trans hgraphs
    have hplottable : ∀ entry ∈ (w.stepCore deserializeObject (.response request text)).storage.graphs,
        Plottable entry.2 := by
      intro entry hentry
      rw [hnew] at hentry
      rcases List.mem_append.1 hentry with hentry | hentry
      · exact h.graphs entry hentry
      · obtain ⟨raw, -, hraw⟩ := Option.map_eq_some_iff.1 hread
        rw [List.mem_singleton.1 hentry]
        exact ⟨hraw ▸ ofRaw_axes raw, htext graph hread⟩
    have hne : (w.stepCore deserializeObject (.response request text)).storage.graphs ≠ [] := by
      rw [hnew]
      exact List.append_ne_nil_of_right_ne_nil _ (List.cons_ne_nil _ _)
    have hchosen : w.view.availableAxes = View.allAxes (w.stepCore deserializeObject (.response request text)).storage →
        Chosen w.view := by
      intro hsame
      refine h.view.chosen fun hnil => allAxes_ne_nil hplottable hne ?_
      rw [← hsame, h.view.available, View.allAxes, hnil]
      rfl
    obtain ⟨v, hshow, havailable, hchosen', hquality, hdraw, hframed⟩ := showGraph_ok hplottable hne hchosen
    rw [Window.handleResponse, hhandled]
    simp only [View.outcome, hshow]
    refine ⟨⟨hcore, hsent, hform, hplottable, ?_⟩, fun _ => hframed⟩
    refine ⟨havailable, fun hnil => absurd hnil hne, fun _ => hchosen', ?_, fun hd => ?_⟩
    · rw [hquality]
      exact h.view.quality
    · exact absurd (hdraw.symm.trans hd) (by decide)

omit [Field R] [LinearOrder R] [IsStrictOrderedRing R] in
/-- a valid form is sent -/
theorem solve_of_valid (hvalid : w.form.validateParameters = none) (task : SentTask)
    (htask : buildTask w.form w.core.vm.taskData = some task) :
    w.solve deserializeObject =
      some { w.stepCore deserializeObject .solve with sent := w.sent ++ [(w.core.nextRequest, task)] } := by
  rw [Window.solve, hvalid]
  dsimp only
  rw [htask]
  rfl

/-- **Steps.** No operation ends the program, each keeps the invariant, and one that does not narrow the limits keeps
every point within them. -/
theorem step_inv (h : Inv deserializeObject w) {op : Window.Op R} (hop : RectangularOp deserializeObject op) :
    ∃ w', Window.step deserializeObject w op = some w' ∧ Inv deserializeObject w' ∧
      (¬ Narrows op → Framed w.storage w.view → Framed w'.storage w'.view) := by
  cases op with
  | edit op => exact ⟨_, rfl, (edit_inv h op).1, fun _ => (edit_inv h op).2⟩
  | solve =>
    cases hvalid : w.form.validateParameters with
    | some message =>
      have haside := h.aside (w.showErrorMessage message) h.requests h.sent h.form rfl rfl
      exact ⟨_, by rw [Window.step, Window.solve, hvalid], haside.1, fun _ => haside.2⟩
    | none =>
      have haside := h.aside
        { w.stepCore deserializeObject .solve with
          sent := w.sent ++ [(w.core.nextRequest, ⟨w.core.vm.taskData, w.form.entries⟩)] }
        (Identity.step_inv h.requests .solve)
        (h.sent.solve deserializeObject ⟨w.form, h.form, hvalid, rfl⟩ rfl) h.form rfl rfl
      exact ⟨_, solve_of_valid hvalid _ (h.form.buildTask_eq w.core.vm.taskData), haside.1, fun _ => haside.2⟩
  | response request text =>
    cases hlookup : w.core.pending.lookup request with
    | none => exact ⟨w, by rw [Window.step, hlookup], h, fun _ hf => hf⟩
    | some task =>
      have hhandled := handleResponse_inv h hlookup hop
      exact ⟨_, by rw [Window.step, hlookup], hhandled.1, fun _ => hhandled.2⟩
  | deleteCharts =>
    have hsent : SentRight (Client.step deserializeObject w.core .deleteCharts) w.sent :=
      ⟨h.sent.once, h.sent.fresh, h.sent.valid, h.sent.pending, h.sent.completions⟩
    refine ⟨_, by rw [Window.step, clearCharts_eq], ?_, ?_⟩
    · refine ⟨Identity.step_inv h.requests .deleteCharts, hsent, h.form, fun _ he => absurd he List.not_mem_nil, ?_⟩
      exact ⟨rfl, fun _ => ⟨rfl, rfl⟩, fun hne => absurd rfl hne, h.view.quality, fun hd => by cases hd⟩
    · rintro - - x y ⟨entry, hentry, -⟩
      exact absurd hentry List.not_mem_nil
  | view op =>
    obtain ⟨v, hstep, hright, hframed⟩ := step_right h.graphs h.view op
    refine ⟨{ w with view := v }, ?_, ⟨h.requests, h.sent, h.form, h.graphs, hright⟩, hframed⟩
    rw [Window.step, hstep]
    rfl

/-! ## Runs -/

omit [IsStrictOrderedRing R] in
theorem run_cons (op : Window.Op R) (ops : List (Window.Op R)) :
    Window.run deserializeObject w (op :: ops) =
      (Window.step deserializeObject w op).bind fun w' => Window.run deserializeObject w' ops := rfl

omit [IsStrictOrderedRing R] in
theorem run_append (ops ops' : List (Window.Op R)) :
    Window.run deserializeObject w (ops ++ ops') =
      (Window.run deserializeObject w ops).bind fun w' => Window.run deserializeObject w' ops' := List.foldlM_append ..

/-- **Runs.** -/
theorem run_inv (h : Inv deserializeObject w) {ops : List (Window.Op R)}
    (hops : ∀ op ∈ ops, RectangularOp deserializeObject op) :
    ∃ w', Window.run deserializeObject w ops = some w' ∧ Inv deserializeObject w' ∧
      ((∀ op ∈ ops, ¬ Narrows op) → Framed w.storage w.view → Framed w'.storage w'.view) := by
  induction ops generalizing w with
  | nil => exact ⟨w, rfl, h, fun _ hf => hf⟩
  | cons op ops ih =>
    obtain ⟨w1, hstep, h1, hframed1⟩ := step_inv h (hops op List.mem_cons_self)
    obtain ⟨w2, hrun, h2, hframed2⟩ := ih h1 fun op' hop' => hops op' (List.mem_cons_of_mem op hop')
    refine ⟨w2, ?_, h2, fun hn hf => ?_⟩
    · rw [run_cons, hstep]
      exact hrun
    · apply hframed2 fun op' hop' => hn op' (List.mem_cons_of_mem op hop')
      exact hframed1 (hn op List.mem_cons_self) hf

/-! ## The machine of the requests -/

/-- what an operation is to the machine of the requests -/
def coreOps (w : Window R) : Window.Op R → List Client.Op
  | .edit (.editTitle title) => [.editTitle title]
  | .edit (.selectMethod method) => [.selectMethod method]
  | .edit (.selectEquation equation) => [.selectEquation equation]
  | .edit _ => []
  | .solve => if w.form.validateParameters = none then [.solve] else []
  | .response request text => [.response request text]
  | .deleteCharts => [.deleteCharts]
  | .view _ => []

omit [IsStrictOrderedRing R] in
theorem step_core {op : Window.Op R} {w' : Window R} (h : Window.step deserializeObject w op = some w') :
    w'.core = Client.run deserializeObject w.core (coreOps w op) := by
  cases op with
  | edit op =>
    obtain rfl := Option.some.inj h
    cases op with
    | selectEquation equation =>
      rw [Window.edit]
      split_ifs <;> rfl
    | _ => rfl
  | solve =>
    rw [Window.step, Window.solve] at h
    cases hvalid : w.form.validateParameters with
    | some message =>
      rw [hvalid] at h
      obtain rfl := Option.some.inj h
      rw [coreOps, hvalid]
      rfl
    | none =>
      rw [hvalid] at h
      obtain ⟨task, -, h⟩ := Option.bind_eq_some_iff.1 h
      obtain rfl := Option.some.inj h
      rw [coreOps, if_pos hvalid]
      rfl
  | response request text =>
    rw [Window.step] at h
    change _ = Client.step deserializeObject w.core (.response request text)
    cases hlookup : w.core.pending.lookup request with
    | none =>
      rw [hlookup] at h
      obtain rfl := Option.some.inj h
      rw [Client.step, hlookup]
    | some task =>
      rw [hlookup] at h
      obtain rfl := Option.some.inj h
      unfold Window.handleResponse
      dsimp only
      split
      · split <;> rfl
      · rfl
  | deleteCharts =>
    obtain rfl := Option.some.inj h
    rfl
  | view op =>
    obtain ⟨v, -, h⟩ := Option.bind_eq_some_iff.1 h
    obtain rfl := Option.some.inj h
    rfl

omit [IsStrictOrderedRing R] in
/-- **Projection.** Every run of the window is a run of the machine of the requests, so all that holds of its runs holds
of the requests of the window. -/
theorem run_core {ops : List (Window.Op R)} {w' : Window R} (h : Window.run deserializeObject w ops = some w') :
    ∃ ops', w'.core = Client.run deserializeObject w.core ops' := by
  induction ops generalizing w with
  | nil =>
    obtain rfl := Option.some.inj h
    exact ⟨[], rfl⟩
  | cons op ops ih =>
    rw [run_cons] at h
    obtain ⟨w1, hstep, hrun⟩ := Option.bind_eq_some_iff.1 h
    obtain ⟨ops', hops⟩ := ih hrun
    refine ⟨coreOps w op ++ ops', ?_⟩
    rw [hops, step_core hstep, Client.run, Client.run, Client.run, List.foldl_append]

/-! ## Axes -/

/-- **Axes.** No operation ends the program. The axes that can be chosen are those of the stored graph with the most
components, every graph has the first of them, and two of them are selected as long as there is a graph. -/
theorem axes_right (deserializeObject : String → Option (RawResult R)) (ops : List (Window.Op R))
    (hops : ∀ op ∈ ops, RectangularOp deserializeObject op) :
    ∃ w, Window.run deserializeObject Window.init ops = some w ∧
      (∀ entry ∈ w.storage.graphs, entry.2.axes <+: w.view.availableAxes) ∧
      (w.storage.graphs ≠ [] → (∃ entry ∈ w.storage.graphs, entry.2.axes = w.view.availableAxes) ∧ Chosen w.view) ∧
      (w.storage.graphs = [] →
        w.view.availableAxes = [] ∧ w.view.selectedXAxis = none ∧ w.view.selectedYAxis = none) := by
  obtain ⟨w, hrun, h, -⟩ := run_inv (inv_init deserializeObject) hops
  obtain ⟨hlongest, hattained⟩ := allAxes_spec h.graphs
  refine ⟨w, hrun, ?_, fun hne => ⟨?_, h.view.chosen hne⟩, fun hnil => ⟨?_, h.view.empty hnil⟩⟩
  · rw [h.view.available]
    exact hlongest
  · rw [h.view.available]
    exact hattained hne
  · rw [h.view.available, View.allAxes, hnil]
    rfl

/-- the responses of two requests, one of a system with two components and one of a system with three -/
def pairText : String :=
  "\x7b\"status\":\"success\",\"results\":[\x7b\"t\":0.0,\"values\":[2.0,0.0]\x7d,\x7b\"t\":0.5,\"values\":[3.0,1.0]\x7d]\x7d"

def tripleText : String := "\x7b\"status\":\"success\",\"results\":[\x7b\"t\":0.0,\"values\":[1.0,0.0,0.0]\x7d]\x7d"

/-- a deserializer that knows the two responses -/
def twoResponses (text : String) : Option (RawResult ℚ) :=
  if text = pairText then some ⟨[⟨0, [2, 0]⟩, ⟨1 / 2, [3, 1]⟩]⟩
  else if text = tripleText then some ⟨[⟨0, [1, 0, 0]⟩]⟩
  else none

theorem twoResponses_rectangular (op : Window.Op ℚ) : RectangularOp twoResponses op := by
  cases op with
  | response request text =>
    intro graph hgraph
    obtain ⟨raw, hraw, rfl⟩ := Option.map_eq_some_iff.1 hgraph
    unfold twoResponses at hraw
    split_ifs at hraw <;> cases hraw <;> simp [SimulationResult.Rectangular, SimulationResult.ofRaw]
  | _ => trivial

/-- two requests whose responses arrive in the other order; in between y1 is selected for the first axis -/
def twoGraphs : List (Window.Op ℚ) :=
  [.solve, .edit (.selectEquation .RobertsonSystem), .solve, .response 1 tripleText, .view (.selectXAxis 2),
    .view .tick, .view .zoomIn, .response 0 pairText]

theorem axes_right_two : ∃ w, Window.run twoResponses Window.init twoGraphs = some w ∧
    (∀ entry ∈ w.storage.graphs, entry.2.axes <+: w.view.availableAxes) ∧
    (w.storage.graphs ≠ [] → (∃ entry ∈ w.storage.graphs, entry.2.axes = w.view.availableAxes) ∧ Chosen w.view) ∧
    (w.storage.graphs = [] →
      w.view.availableAxes = [] ∧ w.view.selectedXAxis = none ∧ w.view.selectedYAxis = none) :=
  axes_right twoResponses twoGraphs fun op _ => twoResponses_rectangular op

/-! ## The chart -/

/-- **Redraw.** After any run a tick leaves the chart of a full drawing, also when it skips the drawing: of every stored
graph, in their order, a sample of the points in the range of now, or the message that it lacks one of the axes. -/
theorem redraw_exact (deserializeObject : String → Option (RawResult R)) (ops : List (Window.Op R))
    (hops : ∀ op ∈ ops, RectangularOp deserializeObject op) :
    ∃ w, Window.run deserializeObject Window.init (ops ++ [.view .tick]) = some w ∧ Shows w.storage w.view ∧
      List.Forall₂ (DrawnFrom w.view.settings (View.drawnRange w.view.axisX).min (View.drawnRange w.view.axisX).max)
        w.storage.graphs w.view.shown := by
  obtain ⟨w, hrun, h, -⟩ := run_inv (inv_init deserializeObject) hops
  have hrectangular : ∀ entry ∈ w.storage.graphs, entry.2.Rectangular := fun entry he => (h.graphs entry he).rectangular
  obtain ⟨v, htick, hshows⟩ := tick_shows hrectangular h.view
  obtain ⟨shown, hshown, hall⟩ := drawGraphs_faithful v.settings (View.drawnRange v.axisX).min
    (View.drawnRange v.axisX).max
    hrectangular
  refine ⟨{ w with view := v }, ?_, hshows, ?_⟩
  · rw [run_append, hrun, Option.bind_some, run_cons, Window.step, htick]
    rfl
  · cases hshown.symm.trans hshows
    exact hall

theorem redraw_exact_two : ∃ w, Window.run twoResponses Window.init (twoGraphs ++ [.view .tick]) = some w ∧
    Shows w.storage w.view ∧
    List.Forall₂ (DrawnFrom w.view.settings (View.drawnRange w.view.axisX).min (View.drawnRange w.view.axisX).max)
      w.storage.graphs w.view.shown :=
  redraw_exact twoResponses twoGraphs fun op _ => twoResponses_rectangular op

/-- a graph is a chart that samples all its points, each within the limits, or a message if it lacks one of the axes -/
def WholeFrom (v : View R) (entry : String × SimulationResult R) (shown : Shown R) : Prop :=
  match indexOf entry.2.axes v.selectedXAxis, indexOf entry.2.axes v.selectedYAxis with
  | some xIndex, some yIndex => ∃ points, shown = .chart entry.1 points ∧
      Sampling.IsSample v.maxPointsPerChart.toNat (toPoint xIndex yIndex) entry.2.points points ∧
      ∀ point ∈ points, Holds v.axisX point.x ∧ Holds v.axisY point.y
  | _, _ => shown = .message (axesNotFound v.settings entry.1)

/-- the range that is drawn is wider than the limits -/
theorem inRange_of_holds {limits : Limits R} {xIndex : ℕ} {p : List R} {x : R} (hp : p[xIndex]? = some x)
    (h : Holds limits x) : inRange (View.drawnRange limits).min (View.drawnRange limits).max xIndex p = true := by
  have hshift : 0 ≤ |limits.max - limits.min| * 0.1 := mul_nonneg (abs_nonneg _) (by norm_num)
  rw [inRange, hp, Option.any_some, decide_eq_true_eq]
  exact ⟨(sub_le_self _ hshift).trans h.1, h.2.trans (le_add_of_nonneg_right hshift)⟩

/-- with limits that hold every point the range leaves none out -/
theorem whole_of_drawn {storage : GraphStorage R} {v : View R} (hframed : Framed storage v)
    {entry : String × SimulationResult R} (hentry : entry ∈ storage.graphs) (hrectangular : entry.2.Rectangular)
    {shown : Shown R}
    (h : DrawnFrom v.settings (View.drawnRange v.axisX).min (View.drawnRange v.axisX).max entry shown) :
    WholeFrom v entry shown := by
  unfold DrawnFrom at h
  unfold WholeFrom
  have hselected : v.settings.selectedXAxis = v.selectedXAxis ∧ v.settings.selectedYAxis = v.selectedYAxis := ⟨rfl, rfl⟩
  rw [hselected.1, hselected.2] at h
  cases hx : indexOf entry.2.axes v.selectedXAxis with
  | none => rwa [hx] at h
  | some xIndex =>
    cases hy : indexOf entry.2.axes v.selectedYAxis with
    | none => rwa [hx, hy] at h
    | some yIndex =>
      rw [hx, hy] at h
      obtain ⟨points, rfl, hsample⟩ := h
      have hpoint : ∀ p ∈ entry.2.points, ∀ x y, p[xIndex]? = some x → p[yIndex]? = some y →
          Holds v.axisX x ∧ Holds v.axisY y := by
        intro p hp x y hpx hpy
        exact hframed x y ⟨entry, hentry, xIndex, yIndex, hx, hy, p, hp, hpx, hpy⟩
      have hall : entry.2.points.filter (inRange (View.drawnRange v.axisX).min (View.drawnRange v.axisX).max xIndex) =
          entry.2.points := by
        refine List.filter_eq_self.2 fun p hp => ?_
        have hlength := hrectangular p hp
        have hpx := List.getElem?_eq_getElem (hlength ▸ indexOf_lt hx : xIndex < p.length)
        have hpy := List.getElem?_eq_getElem (hlength ▸ indexOf_lt hy : yIndex < p.length)
        exact inRange_of_holds hpx (hpoint p hp _ _ hpx hpy).1
      rw [hall] at hsample
      refine ⟨points, rfl, hsample, fun point hmem => ?_⟩
      obtain ⟨p, hp, hread⟩ := hsample.mem hmem
      obtain ⟨x, hpx, hread⟩ := Option.bind_eq_some_iff.1 hread
      obtain ⟨y, hpy, hread⟩ := Option.bind_eq_some_iff.1 hread
      cases hread
      exact hpoint p hp x y hpx hpy

/-- **Nothing hidden.** Once the scale has been reset, and until the user narrows the limits, a tick draws of every
stored graph a sample of all its points, at least a hundred if there are as many, and the limits hold each of them:
whatever arrives, is deleted, selected or redrawn in between. -/
theorem nothing_hidden (deserializeObject : String → Option (RawResult R)) (ops ops' : List (Window.Op R))
    (hops : ∀ op ∈ ops ++ ops', RectangularOp deserializeObject op) (hwide : ∀ op ∈ ops', ¬ Narrows op) :
    ∃ w, Window.run deserializeObject Window.init (ops ++ .view .resetZoom :: ops' ++ [.view .tick]) = some w ∧
      List.Forall₂ (WholeFrom w.view) w.storage.graphs w.view.shown ∧ LOW_QUALITY ≤ w.view.maxPointsPerChart := by
  obtain ⟨w1, hrun1, h1, -⟩ := run_inv (inv_init deserializeObject)
    fun op hop => hops op (List.mem_append_left _ hop)
  obtain ⟨v2, hreset, hright, hframed2⟩ := resetZoom_framed h1.graphs h1.view
  obtain ⟨w3, hrun3, h3, hkeeps⟩ := run_inv (w := { w1 with view := v2 })
    ⟨h1.requests, h1.sent, h1.form, h1.graphs, hright⟩
    fun op hop => hops op (List.mem_append_right _ hop)
  have hframed3 := hkeeps hwide hframed2
  obtain ⟨v4, htick, hshows⟩ := tick_shows (fun entry he => (h3.graphs entry he).rectangular) h3.view
  obtain ⟨v4', htick', hright4, hframed4⟩ := step_right h3.graphs h3.view .tick
  cases htick.symm.trans htick'
  obtain ⟨shown, hshown, hall⟩ := drawGraphs_faithful v4.settings (View.drawnRange v4.axisX).min
    (View.drawnRange v4.axisX).max
    fun entry he => (h3.graphs entry he).rectangular
  cases hshown.symm.trans hshows
  refine ⟨{ w3 with view := v4 }, ?_, ?_, ?_⟩
  · rw [run_append, run_append, hrun1, Option.bind_some, run_cons, Window.step, hreset]
    change (Window.run _ { w1 with view := v2 } ops').bind _ = _
    rw [hrun3, Option.bind_some, run_cons, Window.step, htick]
    rfl
  · have hmem := (List.forall₂_and_left _ _).2 ⟨fun entry he => And.intro he (h3.graphs entry he).rectangular, hall⟩
    exact hmem.imp fun entry s hs => whole_of_drawn (hframed4 id hframed3) hs.1.1 hs.1.2 hs.2
  · obtain ⟨quality, hquality⟩ := hright4.quality
    dsimp only
    rw [hquality]
    cases quality <;> decide

/-- after the reset a request starts, the limits are widened and the quality is lowered -/
theorem nothing_hidden_two : ∃ w, Window.run twoResponses Window.init
      (twoGraphs ++ .view .resetZoom :: [.solve, .view .zoomOut, .view (.setQuality .low)] ++ [.view .tick]) = some w ∧
    List.Forall₂ (WholeFrom w.view) w.storage.graphs w.view.shown ∧ LOW_QUALITY ≤ w.view.maxPointsPerChart := by
  refine nothing_hidden twoResponses twoGraphs _ (fun op _ => twoResponses_rectangular op) fun op hop => ?_
  fin_cases hop <;> exact id

end OdeClientServer.MainWindow
