/-
The identity of concurrent requests in the client, over every run of operations: requests that start, responses that
arrive in any order, edits of the title, selections of a method or an equation, and deletions of the charts.

- `numbered_inj`: a name tells its number and its title.
- `Inv`, `step_inv`, `run_inv`: what every operation keeps. The names in the storage are numbered from 1, so that the
  next name is new.
- `keepsIdentity_iff`: every response that can be read is stored once, with its points and under a new name; the name
  has the title that the request was sent with if and only if no title changed before its handler ran.
- `selectedInBetween_attributed`: a run on which one did.
-/
import OdeClientServer.Client.MainWindowViewModel
import OdeClientServer.Core.Text

namespace OdeClientServer.Identity

open Client MainWindowViewModel

variable {R : Type} {deserializeObject : String → Option (RawResult R)} {s : St R}

/-! ## Names -/

theorem toList_numbered (number : ℕ) (title : String) :
    (numbered number title).toList = (toString number).toList ++ '.' :: ' ' :: title.toList := by
  rw [numbered, String.toList_append, String.toList_append, List.append_assoc]
  rfl

theorem numbered_inj {m n : ℕ} {title title' : String} (h : numbered m title = numbered n title') :
    m = n ∧ title = title' := by
  have hlist := congrArg String.toList h
  rw [toList_numbered, toList_numbered] at hlist
  obtain rfl := Text.repr_append_inj (by decide) (by decide) hlist
  have htail := List.append_cancel_left hlist
  simp only [List.cons.injEq, true_and, String.toList_inj] at htail
  exact ⟨rfl, htail⟩

theorem numbered_not_blank (number : ℕ) (title : String) :
    GraphStorage.isNullOrWhiteSpace (numbered number title) = false := by
  obtain ⟨c, digits, hc⟩ := List.exists_cons_of_ne_nil (Nat.toDigits_ne_nil (n := number) (b := 10))
  have hdigit : c.isDigit = true := Nat.isDigit_of_mem_toDigits (by norm_num) le_rfl (by rw [hc]; simp)
  rw [GraphStorage.isNullOrWhiteSpace, toList_numbered, Nat.toString_eq_repr, Nat.toList_repr, hc, List.cons_append,
    List.all_cons, GraphStorage.isWhiteSpace_of_isDigit hdigit, Bool.false_and]

/-- the i-th name has the number i, counted from 1 -/
def Numbered (graphs : List (String × SimulationResult R)) : Prop :=
  ∀ i entry, graphs[i]? = some entry → ∃ title, entry.1 = numbered (i + 1) title

theorem numbered_nil : Numbered ([] : List (String × SimulationResult R)) := by
  intro i entry hi
  cases hi

theorem Numbered.append {graphs : List (String × SimulationResult R)} (h : Numbered graphs) (title : String)
    (graph : SimulationResult R) : Numbered (graphs ++ [(numbered (graphs.length + 1) title, graph)]) := by
  intro i entry hi
  rcases lt_or_ge i graphs.length with hlt | hge
  · rw [List.getElem?_append_left hlt] at hi
    exact h i entry hi
  · rw [List.getElem?_append_right hge, List.getElem?_singleton] at hi
    split_ifs at hi with hzero
    cases hi
    exact ⟨title, by rw [show i = graphs.length by omega]⟩

/-- **Fresh names.** The next number is not in use. -/
theorem Numbered.fresh {graphs : List (String × SimulationResult R)} (h : Numbered graphs) (title : String) :
    numbered (graphs.length + 1) title ∉ graphs.map Prod.fst := by
  intro hmem
  obtain ⟨entry, hentry, hname⟩ := List.mem_map.1 hmem
  obtain ⟨i, hi⟩ := List.mem_iff_getElem?.1 hentry
  obtain ⟨title', htitle⟩ := h i entry hi
  have hlt : i < graphs.length := (List.getElem?_eq_some_iff.1 hi).1
  have := (numbered_inj (htitle.symm.trans hname)).1
  omega

/-! ## The handler -/

/-- what the handler of a response does in a storage with numbered names -/
theorem handleResponse_spec (deserializeObject : String → Option (RawResult R)) {vm : MainWindowViewModel R}
    (h : Numbered vm.storage.graphs) (text : String) :
    (SimulationResult.construct deserializeObject text = none ∧
        (vm.handleResponse deserializeObject text).2 = .unreadable ∧
        (vm.handleResponse deserializeObject text).1.storage = vm.storage) ∨
      ∃ graph, SimulationResult.construct deserializeObject text = some graph ∧
        (vm.handleResponse deserializeObject text).2 =
          .stored (numbered (vm.storage.graphs.length + 1) vm.graphTitle) graph ∧
        (vm.handleResponse deserializeObject text).1.storage.graphs =
          vm.storage.graphs ++ [(numbered (vm.storage.graphs.length + 1) vm.graphTitle, graph)] := by
  cases hread : SimulationResult.construct deserializeObject text with
  | none =>
    refine Or.inl ⟨rfl, ?_⟩
    simp only [handleResponse, hread, and_self]
  | some graph =>
    obtain ⟨storage, hadd, hgraphs⟩ := GraphStorage.addGraph_eq_ok graph
      (numbered_not_blank (vm.storage.graphs.length + 1) vm.graphTitle) (h.fresh vm.graphTitle)
    refine Or.inr ⟨graph, rfl, ?_⟩
    simp only [handleResponse, hread, GraphStorage.getGraphCount, hadd, hgraphs, and_self]

theorem setSelectedMethod_storage (vm : MainWindowViewModel R) (value : SolutionMethod) :
    (vm.setSelectedMethod value).storage = vm.storage := by
  unfold setSelectedMethod
  split <;> rfl

theorem setSelectedEquation_storage (vm : MainWindowViewModel R) (value : EquationType) :
    (vm.setSelectedEquation value).storage = vm.storage := by
  unfold setSelectedEquation
  split_ifs <;> rfl

/-! ## The invariant -/

/-- what a handler has put into the storage -/
def entry (c : Completion R) : Option (String × SimulationResult R) :=
  match c.handled with
  | .stored name graph => some (name, graph)
  | _ => none

/-- how a handler ends: its response could not be read, or it is stored under the title of the handler -/
def HandledRight (deserializeObject : String → Option (RawResult R)) (c : Completion R) : Prop :=
  SimulationResult.construct deserializeObject c.response = none ∧ c.handled = .unreadable ∨
    ∃ graph number, SimulationResult.construct deserializeObject c.response = some graph ∧
      c.handled = .stored (numbered number c.title) graph

structure Inv (deserializeObject : String → Option (RawResult R)) (s : St R) : Prop where
  pending_lt : ∀ p ∈ s.pending, p.1 < s.nextRequest
  completed_lt : ∀ c ∈ s.completions, c.request < s.nextRequest
  disjoint : ∀ c ∈ s.completions, ∀ p ∈ s.pending, c.request ≠ p.1
  once : (s.completions.map (·.request)).Nodup
  names : Numbered s.vm.storage.graphs
  handled : ∀ c ∈ s.completions, HandledRight deserializeObject c
  cleared_le : s.cleared ≤ s.completions.length
  /-- the storage holds what the handlers since the last deletion have put into it -/
  contents : s.vm.storage.graphs = (s.completions.drop s.cleared).filterMap entry

theorem inv_init : Inv deserializeObject (init : St R) where
  pending_lt _ hp := absurd hp List.not_mem_nil
  completed_lt _ hc := absurd hc List.not_mem_nil
  disjoint _ hc := absurd hc List.not_mem_nil
  once := List.nodup_nil
  names := numbered_nil
  handled _ hc := absurd hc List.not_mem_nil
  cleared_le := le_rfl
  contents := rfl

/-- an operation that leaves the requests, the handlers and the storage as they are -/
theorem Inv.of_storage (h : Inv deserializeObject s) {vm : MainWindowViewModel R} (hvm : vm.storage = s.vm.storage) :
    Inv deserializeObject { s with vm := vm } where
  pending_lt := h.pending_lt
  completed_lt := h.completed_lt
  disjoint := h.disjoint
  once := h.once
  names := by rw [hvm]; exact h.names
  handled := h.handled
  cleared_le := h.cleared_le
  contents := by rw [hvm]; exact h.contents

/-- a request that has completed is no longer in flight -/
theorem Inv.complete (h : Inv deserializeObject s) {c : Completion R} {vm : MainWindowViewModel R}
    (hpending : (c.request, c.task) ∈ s.pending) (hnames : Numbered vm.storage.graphs)
    (hhandled : HandledRight deserializeObject c)
    (hentry : vm.storage.graphs = s.vm.storage.graphs ++ (entry c).toList) :
    Inv deserializeObject { s with
      vm := vm
      pending := s.pending.filter fun p => p.1 ≠ c.request
      completions := s.completions ++ [c] } where
  pending_lt p hp := h.pending_lt p (List.mem_filter.1 hp).1
  completed_lt d hd := by
    rcases List.mem_append.1 hd with hd | hd
    · exact h.completed_lt d hd
    · rw [List.mem_singleton.1 hd]
      exact h.pending_lt _ hpending
  disjoint d hd p hp := by
    obtain ⟨hp, hne⟩ := List.mem_filter.1 hp
    rcases List.mem_append.1 hd with hd | hd
    · exact h.disjoint d hd p hp
    · rw [List.mem_singleton.1 hd]
      exact (of_decide_eq_true hne).symm
  once := by
    rw [List.map_append, List.nodup_append]
    refine ⟨h.once, List.nodup_singleton _, ?_⟩
    intro a ha b hb hab
    obtain ⟨d, hd, rfl⟩ := List.mem_map.1 ha
    have hb' : b = c.request := List.mem_singleton.1 hb
    exact h.disjoint d hd _ hpending (hab.trans hb')
  names := hnames
  handled d hd := by
    rcases List.mem_append.1 hd with hd | hd
    · exact h.handled d hd
    · rw [List.mem_singleton.1 hd]
      exact hhandled
  cleared_le := by
    rw [List.length_append]
    exact h.cleared_le.trans (Nat.le_add_right _ _)
  contents := by
    rw [hentry, h.contents, List.drop_append_of_le_length h.cleared_le, List.filterMap_append]
    cases hc : entry c <;> simp [hc]

theorem step_inv (h : Inv deserializeObject s) (op : Op) : Inv deserializeObject (step deserializeObject s op) := by
  cases op with
  | editTitle title => exact h.of_storage rfl
  | selectMethod method => exact h.of_storage (setSelectedMethod_storage s.vm method)
  | selectEquation equation => exact h.of_storage (setSelectedEquation_storage s.vm equation)
  | solve =>
    refine { h with pending_lt := ?_, completed_lt := ?_, disjoint := ?_ }
    · intro p hp
      rcases List.mem_append.1 hp with hp | hp
      · exact Nat.lt_succ_of_lt (h.pending_lt p hp)
      · rw [List.mem_singleton.1 hp]
        exact Nat.lt_succ_self _
    · exact fun c hc => Nat.lt_succ_of_lt (h.completed_lt c hc)
    · intro c hc p hp
      rcases List.mem_append.1 hp with hp | hp
      · exact h.disjoint c hc p hp
      · rw [List.mem_singleton.1 hp]
        exact (h.completed_lt c hc).ne
  | response request text =>
    simp only [step]
    cases hlookup : s.pending.lookup request with
    | none => exact h
    | some task =>
      have hpending : (request, task) ∈ s.pending := by
        obtain ⟨l1, l2, hl, -⟩ := List.lookup_eq_some_iff.1 hlookup
        rw [hl]
        simp
      rcases handleResponse_spec deserializeObject h.names text with
        ⟨hread, hhandled, hstorage⟩ | ⟨graph, hread, hhandled, hgraphs⟩
      · refine h.complete (c := ⟨request, task, text, s.vm.graphTitle, _⟩) hpending ?_ (Or.inl ⟨hread, hhandled⟩) ?_
        · rw [hstorage]
          exact h.names
        · rw [hstorage, entry, hhandled]
          simp
      · refine h.complete (c := ⟨request, task, text, s.vm.graphTitle, _⟩) hpending ?_
          (Or.inr ⟨graph, _, hread, hhandled⟩) ?_
        · rw [hgraphs]
          exact h.names.append s.vm.graphTitle graph
        · rw [hgraphs, entry, hhandled]
          rfl
  | deleteCharts =>
    refine { h with names := numbered_nil, cleared_le := le_rfl, contents := ?_ }
    simp only [step, deleteCharts, GraphStorage.clear, GraphStorage.empty, List.drop_length, List.filterMap_nil]

theorem run_inv (h : Inv deserializeObject s) (ops : List Op) :
    Inv deserializeObject (run deserializeObject s ops) := by
  induction ops generalizing s with
  | nil => exact h
  | cons op ops ih => exact ih (step_inv h op)

/-! ## Identity -/

/-- **Identity.** No request is answered twice; every response that can be read is stored with its points and none is
refused; the storage holds exactly what has been stored since the charts were deleted; and every stored name has the
title that its request was sent with. -/
structure KeepsIdentity (deserializeObject : String → Option (RawResult R)) (s : St R) : Prop where
  once : (s.completions.map (·.request)).Nodup
  stored : ∀ c ∈ s.completions, ∀ graph, SimulationResult.construct deserializeObject c.response = some graph →
    ∃ name, c.handled = .stored name graph
  accepted : ∀ c ∈ s.completions, ∀ e, c.handled ≠ .refused e
  contents : s.vm.storage.graphs = (s.completions.drop s.cleared).filterMap entry
  attributed : ∀ c ∈ s.completions, ∀ name graph, c.handled = .stored name graph →
    ∃ number, name = numbered number c.task.graphTitle

/-- the handlers that have stored something found the title that their request was sent with -/
def OwnTitles (deserializeObject : String → Option (RawResult R)) (s : St R) : Prop :=
  ∀ c ∈ s.completions, SimulationResult.construct deserializeObject c.response ≠ none → c.title = c.task.graphTitle

/-- in a reachable state identity is a matter of the titles alone -/
theorem Inv.keepsIdentity_iff_ownTitles (h : Inv deserializeObject s) :
    KeepsIdentity deserializeObject s ↔ OwnTitles deserializeObject s := by
  constructor
  · intro hkeeps c hc hread
    rcases h.handled c hc with ⟨hnone, -⟩ | ⟨graph, number, -, hhandled⟩
    · exact absurd hnone hread
    · obtain ⟨number', hname⟩ := hkeeps.attributed c hc _ _ hhandled
      exact (numbered_inj hname).2
  · intro htitles
    refine ⟨h.once, ?_, ?_, h.contents, ?_⟩
    · intro c hc graph hread
      rcases h.handled c hc with ⟨hnone, -⟩ | ⟨graph', number, hread', hhandled⟩
      · rw [hread] at hnone
        cases hnone
      · cases hread.symm.trans hread'
        exact ⟨_, hhandled⟩
    · intro c hc e he
      rcases h.handled c hc with ⟨-, hhandled⟩ | ⟨_, _, -, hhandled⟩
      all_goals
        rw [hhandled] at he
        cases he
    · intro c hc name graph hstored
      rcases h.handled c hc with ⟨-, hhandled⟩ | ⟨graph', number, hread, hhandled⟩
      · rw [hhandled] at hstored
        cases hstored
      · rw [hhandled] at hstored
        cases hstored
        exact ⟨number, by rw [htitles c hc (by rw [hread]; nofun)]⟩

/-- a response that can be read arrives while the title is the one that its request was sent with -/
def Undisturbed (deserializeObject : String → Option (RawResult R)) (s : St R) : Op → Prop
  | .response request text => ∀ task, s.pending.lookup request = some task →
      SimulationResult.construct deserializeObject text ≠ none → s.vm.graphTitle = task.graphTitle
  | _ => True

theorem ownTitles_step (op : Op) : OwnTitles deserializeObject (step deserializeObject s op) ↔
    OwnTitles deserializeObject s ∧ Undisturbed deserializeObject s op := by
  cases op with
  | response request text =>
    simp only [step, Undisturbed]
    cases hlookup : s.pending.lookup request with
    | none => simp
    | some task =>
      simp only [OwnTitles, List.mem_append, List.mem_singleton, Option.some.injEq, forall_eq']
      constructor
      · exact fun h => ⟨fun c hc => h c (Or.inl hc), h _ (Or.inr rfl)⟩
      · rintro ⟨hold, hnew⟩ c (hc | rfl)
        · exact hold c hc
        · exact hnew
  | _ => exact (and_iff_left trivial).symm

/-- every step of a run is undisturbed -/
def UndisturbedRun (deserializeObject : String → Option (RawResult R)) : St R → List Op → Prop
  | _, [] => True
  | s, op :: ops =>
    Undisturbed deserializeObject s op ∧ UndisturbedRun deserializeObject (step deserializeObject s op) ops

theorem ownTitles_run (ops : List Op) : OwnTitles deserializeObject (run deserializeObject s ops) ↔
    OwnTitles deserializeObject s ∧ UndisturbedRun deserializeObject s ops := by
  induction ops generalizing s with
  | nil => exact (and_iff_left trivial).symm
  | cons op ops ih =>
    change OwnTitles deserializeObject (run deserializeObject (step deserializeObject s op) ops) ↔ _
    rw [ih, ownTitles_step, and_assoc]
    rfl

theorem UndisturbedRun.take {ops : List Op} (h : UndisturbedRun deserializeObject s ops) (n : ℕ) :
    UndisturbedRun deserializeObject s (ops.take n) := by
  induction ops generalizing s n with
  | nil => rwa [List.take_nil]
  | cons op ops ih =>
    cases n with
    | zero => trivial
    | succ n => exact ⟨h.1, ih h.2 n⟩

/-- **Concurrent requests.** Every state that a run reaches keeps the identity of the requests if and only if no
response that can be read arrives under another title than the one its request was sent with. -/
theorem keepsIdentity_iff (deserializeObject : String → Option (RawResult R)) (ops : List Op) :
    (∀ n, KeepsIdentity deserializeObject (run deserializeObject init (ops.take n))) ↔
      UndisturbedRun deserializeObject init ops := by
  have hstart : OwnTitles deserializeObject (init : St R) := fun _ hc => absurd hc List.not_mem_nil
  have hrun : ∀ ops, KeepsIdentity deserializeObject (run deserializeObject (init : St R) ops) ↔
      UndisturbedRun deserializeObject init ops := fun ops => by
    rw [(run_inv inv_init ops).keepsIdentity_iff_ownTitles, ownTitles_run, and_iff_right hstart]
  constructor
  · intro h
    have hall := h ops.length
    rwa [List.take_length, hrun] at hall
  · exact fun h n => (hrun _).2 (h.take n)

/-- a deserializer that knows one response -/
def oneResponse (text : String) : Option (RawResult ℕ) :=
  if text = "\x7b\"status\":\"success\",\"results\":[\x7b\"t\":0.0,\"values\":[2.0]\x7d]\x7d" then some ⟨[⟨0, [2]⟩]⟩
  else none

/-- a request of the Euler method, whose response arrives after RK2 has been selected -/
def selectedInBetween : List Op :=
  [.solve, .selectMethod .RungeKutta2,
    .response 0 "\x7b\"status\":\"success\",\"results\":[\x7b\"t\":0.0,\"values\":[2.0]\x7d]\x7d"]

/-- **Another title.** The result of the Euler method is stored as one of RK21. -/
theorem selectedInBetween_attributed :
    (run oneResponse init selectedInBetween).vm.storage.graphs = [("1. RK21", ⟨["t", "y0"], [[0, 2]]⟩)] ∧
      ¬ KeepsIdentity oneResponse (run oneResponse init selectedInBetween) := by
  have hstored : (run oneResponse init selectedInBetween).vm.storage.graphs =
      [("1. RK21", ⟨["t", "y0"], [[0, 2]]⟩)] := by
    decide
  have hcompleted : ∃ text, (run oneResponse init selectedInBetween).completions =
      [⟨0, ⟨.ExplicitEuler, .VanDerPol, "Метод Эйлера"⟩, text, "RK21", .stored "1. RK21" ⟨["t", "y0"], [[0, 2]]⟩⟩] :=
    ⟨_, rfl⟩
  refine ⟨hstored, fun h => ?_⟩
  obtain ⟨text, htext⟩ := hcompleted
  obtain ⟨number, hname⟩ := h.attributed _ (by rw [htext]; exact List.mem_singleton_self _) _ _ rfl
  have htitle := (numbered_inj (show numbered 1 "RK21" = numbered number "Метод Эйлера" from hname)).2
  exact absurd htitle (by decide)

end OdeClientServer.Identity
