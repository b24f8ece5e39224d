/-
The axes of the main window. Every stored graph names its axes t, y0, y1, ..., so the axes that can be chosen are those
of the graph with the most components.

- `allAxes_spec`: the union of the axes is the longest of them.
- `updateScale_ok`: after `UpdateScale` the limits hold every point that the selected axes have.
- `loadAxes_ok`: after `LoadAxes` two axes of the stored graphs are selected.
- `showGraph_ok`: what the handler of a response leaves.
-/
import OdeClientServer.Client.View
import OdeClientServer.Core.Lists
import OdeClientServer.Results.Drawing

namespace OdeClientServer.Axes

open Client View

variable {R : Type} {storage : GraphStorage R}

/-! ## The axes of a graph -/

/-- the axes of a graph with n components -/
def axisNames (n : ℕ) : List String := "t" :: (List.range n).map fun i => "y" ++ toString i

/-- the points have a value for each of the axes t, y0, y1, ... -/
structure Plottable (graph : SimulationResult R) : Prop where
  axes : ∃ n, graph.axes = axisNames n
  rectangular : graph.Rectangular

theorem ofRaw_axes (raw : RawResult R) : ∃ n, (SimulationResult.ofRaw raw).axes = axisNames n := by
  unfold SimulationResult.ofRaw
  cases raw.results with
  | nil => exact ⟨0, rfl⟩
  | cons first rest => exact ⟨first.values.length, rfl⟩

theorem axisNames_nodup (n : ℕ) : (axisNames n).Nodup := by
  have hinj : Function.Injective fun i : ℕ => "y" ++ toString i := by
    intro i j hij
    have hlist := congrArg String.toList hij
    simp only [String.toList_append, List.append_cancel_left_eq, Nat.toString_eq_repr, Nat.toList_repr] at hlist
    have hnumber := congrArg (Nat.ofDigitChars 10 · 0) hlist
    simpa only [Nat.ofDigitChars_ten_toDigits] using hnumber
  refine List.nodup_cons.2 ⟨fun hmem => ?_, List.nodup_range.map hinj⟩
  obtain ⟨i, -, hi⟩ := List.mem_map.1 hmem
  have hhead := congrArg (fun s : String => s.toList.head?) hi
  simp at hhead

theorem axisNames_mono {m n : ℕ} (h : m ≤ n) : axisNames m <+: axisNames n := by
  have hrange : List.range m <+: List.range n := by
    obtain ⟨k, rfl⟩ := Nat.exists_eq_add_of_le h
    rw [List.range_add]
    exact List.prefix_append _ _
  exact List.prefix_cons_iff.2 (Or.inr ⟨_, rfl, hrange.map _⟩)

theorem not_mem_axisNames (n : ℕ) : "" ∉ axisNames n := by
  intro hmem
  rcases List.mem_cons.1 hmem with h | h
  · exact absurd h (by decide)
  · obtain ⟨i, -, hi⟩ := List.mem_map.1 h
    have hempty := congrArg String.toList hi
    simp at hempty

/-- **Union.** The axes of the stored graphs are those of one of them, and every graph has the first of these. -/
theorem allAxes_spec (h : ∀ entry ∈ storage.graphs, Plottable entry.2) :
    (∀ entry ∈ storage.graphs, entry.2.axes <+: allAxes storage) ∧
      (storage.graphs ≠ [] → ∃ entry ∈ storage.graphs, entry.2.axes = allAxes storage) := by
  have hlongest : ∀ graphs : List (String × SimulationResult R), (∀ entry ∈ graphs, Plottable entry.2) →
      ∃ n, ∀ entry ∈ graphs, entry.2.axes <+: axisNames n := by
    intro graphs hgraphs
    induction graphs with
    | nil => exact ⟨0, by simp⟩
    | cons entry graphs ih =>
      obtain ⟨m, hm⟩ := (hgraphs entry List.mem_cons_self).axes
      obtain ⟨n, hn⟩ := ih fun e he => hgraphs e (List.mem_cons_of_mem _ he)
      refine ⟨max m n, fun e he => ?_⟩
      rcases List.mem_cons.1 he with rfl | he
      · exact hm ▸ axisNames_mono (le_max_left m n)
      · exact (hn e he).trans (axisNames_mono (le_max_right m n))
  obtain ⟨n, hn⟩ := hlongest storage.graphs h
  have hbegin : ∀ axes ∈ storage.graphs.map fun entry => entry.2.axes, axes <+: axisNames n := List.forall_mem_map.2 hn
  obtain ⟨-, hall, hattained⟩ := Lists.eraseDups_prefixes (axisNames_nodup n) hbegin
  refine ⟨fun entry hentry => hall _ (List.mem_map_of_mem hentry), fun hne => ?_⟩
  obtain ⟨entry, hentry, haxes⟩ := List.mem_map.1 (hattained (by simpa using hne))
  exact ⟨entry, hentry, haxes⟩

/-! ## The scale -/

/-- (x, y) is a point of a graph that has both axes -/
def PointOf (graphs : List (String × SimulationResult R)) (xAxis yAxis : Option String) (x y : R) : Prop :=
  ∃ entry ∈ graphs, ∃ xIndex yIndex, indexOf entry.2.axes xAxis = some xIndex ∧
    indexOf entry.2.axes yAxis = some yIndex ∧ ∃ p ∈ entry.2.points, p[xIndex]? = some x ∧ p[yIndex]? = some y

/-- a selected axis is one of the axes that it is found in -/
theorem mem_of_indexOf {axes : List String} {axis : Option String} {i : ℕ} (h : indexOf axes axis = some i) :
    ∃ a ∈ axes, axis = some a := by
  obtain ⟨a, rfl, hi⟩ := Option.bind_eq_some_iff.1 h
  obtain ⟨hlt, ha, -⟩ := List.idxOf?_eq_some_iff.1 hi
  exact ⟨a, ha ▸ List.getElem_mem hlt, rfl⟩

variable [LinearOrder R]

/-- the point is between the extremes -/
def Covers (e : Option (Extremes R)) (x y : R) : Prop :=
  ∃ ext, e = some ext ∧ (ext.xMin ≤ x ∧ x ≤ ext.xMax) ∧ ext.yMin ≤ y ∧ y ≤ ext.yMax

/-- the extremes are those of some points -/
def Ordered (e : Option (Extremes R)) : Prop := ∀ ext, e = some ext → ext.xMin ≤ ext.xMax ∧ ext.yMin ≤ ext.yMax

theorem extend_covers (e : Option (Extremes R)) (x y : R) : Covers (some (extend x y e)) x y := by
  cases e with
  | none => exact ⟨_, rfl, ⟨le_rfl, le_rfl⟩, le_rfl, le_rfl⟩
  | some e => exact ⟨_, rfl, ⟨min_le_right _ _, le_max_right _ _⟩, min_le_right _ _, le_max_right _ _⟩

theorem extend_widens {e : Option (Extremes R)} {x y : R} (x' y' : R) (h : Covers e x y) :
    Covers (some (extend x' y' e)) x y := by
  obtain ⟨ext, rfl, ⟨h1, h2⟩, h3, h4⟩ := h
  exact ⟨_, rfl, ⟨(min_le_left _ _).trans h1, h2.trans (le_max_left _ _)⟩, (min_le_left _ _).trans h3,
    h4.trans (le_max_left _ _)⟩

theorem extend_ordered (e : Option (Extremes R)) (x y : R) : Ordered (some (extend x y e)) := by
  intro ext hext
  obtain ⟨ext', hext', ⟨h1, h2⟩, h3, h4⟩ := extend_covers e x y
  cases hext.symm.trans hext'
  exact ⟨h1.trans h2, h3.trans h4⟩

/-- the loop over the points of a graph -/
theorem scanPoints_ok {xIndex yIndex : ℕ} {points : List (List R)}
    (hindex : ∀ p ∈ points, xIndex < p.length ∧ yIndex < p.length) {e : Option (Extremes R)} (he : Ordered e) :
    ∃ e', scanPoints xIndex yIndex points e = some e' ∧ Ordered e' ∧ (∀ x y, Covers e x y → Covers e' x y) ∧
      ∀ p ∈ points, ∀ x y, p[xIndex]? = some x → p[yIndex]? = some y → Covers e' x y := by
  induction points generalizing e with
  | nil => exact ⟨e, rfl, he, fun _ _ h => h, by simp⟩
  | cons p points ih =>
    obtain ⟨hx, hy⟩ := hindex p List.mem_cons_self
    obtain ⟨e', hscan, hordered, hwidens, hall⟩ :=
      ih (fun q hq => hindex q (List.mem_cons_of_mem _ hq)) (extend_ordered e p[xIndex] p[yIndex])
    refine ⟨e', ?_, hordered, fun x y h => hwidens x y (extend_widens _ _ h), fun q hq x y hqx hqy => ?_⟩
    · rw [scanPoints, List.getElem?_eq_getElem hx, List.getElem?_eq_getElem hy]
      exact hscan
    · rcases List.mem_cons.1 hq with rfl | hq
      · rw [List.getElem?_eq_getElem hx, Option.some.injEq] at hqx
        rw [List.getElem?_eq_getElem hy, Option.some.injEq] at hqy
        exact hwidens x y (hqx ▸ hqy ▸ extend_covers e _ _)
      · exact hall q hq x y hqx hqy

/-- **The loop of UpdateScale.** It does not throw, and finds extremes around every point that has both axes. -/
theorem scanGraphs_ok (xAxis yAxis : Option String) {graphs : List (String × SimulationResult R)}
    (hgraphs : ∀ entry ∈ graphs, entry.2.Rectangular) {e : Option (Extremes R)} (he : Ordered e) :
    ∃ e', scanGraphs xAxis yAxis graphs e = some e' ∧ Ordered e' ∧ (∀ x y, Covers e x y → Covers e' x y) ∧
      ∀ x y, PointOf graphs xAxis yAxis x y → Covers e' x y := by
  induction graphs generalizing e with
  | nil => exact ⟨e, rfl, he, fun _ _ h => h, fun x y ⟨entry, hentry, _⟩ => absurd hentry List.not_mem_nil⟩
  | cons entry graphs ih =>
    obtain ⟨graphName, graph⟩ := entry
    have hgraph : graph.Rectangular := hgraphs _ List.mem_cons_self
    have hrest : ∀ entry ∈ graphs, entry.2.Rectangular := fun g hg => hgraphs g (List.mem_cons_of_mem _ hg)
    by_cases hboth : ∃ xIndex yIndex, indexOf graph.axes xAxis = some xIndex ∧ indexOf graph.axes yAxis = some yIndex
    · obtain ⟨xIndex, yIndex, hx, hy⟩ := hboth
      have hindex : ∀ p ∈ graph.points, xIndex < p.length ∧ yIndex < p.length := by
        intro p hp
        rw [hgraph p hp]
        exact ⟨Drawing.indexOf_lt hx, Drawing.indexOf_lt hy⟩
      obtain ⟨e1, hscan1, hordered1, hwidens1, hall1⟩ := scanPoints_ok hindex he
      obtain ⟨e2, hscan2, hordered2, hwidens2, hall2⟩ := ih hrest hordered1
      refine ⟨e2, ?_, hordered2, fun x y h => hwidens2 x y (hwidens1 x y h), ?_⟩
      · simp only [scanGraphs, hx, hy, hscan1, Option.bind_eq_bind, Option.bind_some, hscan2]
      · rintro x y ⟨entry, hentry, xIndex', yIndex', hx', hy', p, hp, hpx, hpy⟩
        rcases List.mem_cons.1 hentry with rfl | hentry
        · cases hx.symm.trans hx'
          cases hy.symm.trans hy'
          exact hwidens2 x y (hall1 p hp x y hpx hpy)
        · exact hall2 x y ⟨entry, hentry, xIndex', yIndex', hx', hy', p, hp, hpx, hpy⟩
    · -- a graph without the axes is left out
      obtain ⟨e', hscan, hordered, hwidens, hall⟩ := ih hrest he
      refine ⟨e', ?_, hordered, hwidens, ?_⟩
      · rw [scanGraphs]
        split
        · next xIndex yIndex hx hy => exact absurd ⟨xIndex, yIndex, hx, hy⟩ hboth
        · exact hscan
      · rintro x y ⟨entry, hentry, xIndex, yIndex, hx, hy, hp⟩
        rcases List.mem_cons.1 hentry with rfl | hentry
        · exact absurd ⟨xIndex, yIndex, hx, hy⟩ hboth
        · exact hall x y ⟨entry, hentry, xIndex, yIndex, hx, hy, hp⟩

/-- the value is between the limits -/
def Holds (limits : Limits R) (x : R) : Prop := limits.min ≤ x ∧ x ≤ limits.max

/-- **Framed.** The limits hold every point of a graph that has both selected axes. -/
def Framed (storage : GraphStorage R) (v : View R) : Prop :=
  ∀ x y, PointOf storage.graphs v.selectedXAxis v.selectedYAxis x y → Holds v.axisX x ∧ Holds v.axisY y

variable [Field R]

theorem updateScale_eq (storage : GraphStorage R) (v : View R) : updateScale storage v =
    if isNullOrEmpty v.selectedXAxis ∨ isNullOrEmpty v.selectedYAxis then .ok () v
    else match scanGraphs v.selectedXAxis v.selectedYAxis storage.graphs none with
      | none => .error outOfBounds v
      | some none => .ok () v
      | some (some e) => .ok () { v with axisX := padded e.xMin e.xMax, axisY := padded e.yMin e.yMax } := by
  change (if isNullOrEmpty v.selectedXAxis ∨ isNullOrEmpty v.selectedYAxis then _ else _ : Handler R Unit) v = _
  split_ifs
  · rfl
  · cases scanGraphs v.selectedXAxis v.selectedYAxis storage.graphs none with
    | none => rfl
    | some e => cases e <;> rfl

variable [IsStrictOrderedRing R]

theorem padded_holds {a b x : R} (ha : a ≤ x) (hb : x ≤ b) : Holds (padded a b) x := by
  have hpadding : 0 ≤ (b - a) * 0.1 := mul_nonneg (sub_nonneg.2 (ha.trans hb)) (by norm_num)
  exact ⟨(sub_le_self a hpadding).trans ha, hb.trans (le_add_of_nonneg_right hpadding)⟩

/-- **UpdateScale.** It moves the limits and nothing else, and then they hold every point. -/
theorem updateScale_ok (hgraphs : ∀ entry ∈ storage.graphs, Plottable entry.2) (v : View R) :
    ∃ axisX axisY, updateScale storage v = .ok () { v with axisX := axisX, axisY := axisY } ∧
      Framed storage { v with axisX := axisX, axisY := axisY } := by
  rw [updateScale_eq]
  split_ifs with hnull
  · -- no graph has an axis without a name
    refine ⟨v.axisX, v.axisY, rfl, ?_⟩
    rintro x y ⟨entry, hentry, xIndex, yIndex, hx, hy, -⟩
    have hname : ∀ axis i, indexOf entry.2.axes axis = some i → isNullOrEmpty axis = false := by
      intro axis i hi
      obtain ⟨a, ha, rfl⟩ := mem_of_indexOf hi
      obtain ⟨n, hn⟩ := (hgraphs entry hentry).axes
      refine decide_eq_false fun hempty => ?_
      rw [hn, hempty] at ha
      exact not_mem_axisNames n ha
    rw [hname _ _ hx, hname _ _ hy] at hnull
    exact absurd hnull (by decide)
  · obtain ⟨e, hscan, -, -, hall⟩ := scanGraphs_ok v.selectedXAxis v.selectedYAxis
      (fun entry hentry => (hgraphs entry hentry).rectangular) (e := none) (fun _ h => by cases h)
    rw [hscan]
    cases e with
    | none =>
      refine ⟨v.axisX, v.axisY, rfl, fun x y hp => ?_⟩
      obtain ⟨ext, hext, -⟩ := hall x y hp
      cases hext
    | some e =>
      refine ⟨_, _, rfl, fun x y hp => ?_⟩
      obtain ⟨ext, hext, ⟨h1, h2⟩, h3, h4⟩ := hall x y hp
      cases hext
      exact ⟨padded_holds h1 h2, padded_holds h3 h4⟩

/-! ## The selected axes -/

/-- both selected axes can be chosen -/
structure Chosen (v : View R) : Prop where
  x : ∃ axis ∈ v.availableAxes, v.selectedXAxis = some axis
  y : ∃ axis ∈ v.availableAxes, v.selectedYAxis = some axis

omit [LinearOrder R] [Field R] [IsStrictOrderedRing R] in
theorem allAxes_ne_nil (hgraphs : ∀ entry ∈ storage.graphs, Plottable entry.2) (hne : storage.graphs ≠ []) :
    allAxes storage ≠ [] := by
  obtain ⟨entry, hentry, haxes⟩ := (allAxes_spec hgraphs).2 hne
  obtain ⟨n, hn⟩ := (hgraphs entry hentry).axes
  rw [← haxes, hn]
  exact List.cons_ne_nil _ _

omit [LinearOrder R] [Field R] [IsStrictOrderedRing R] in
theorem mem_of_hasAxis {axes : List String} {axis : Option String} (h : hasAxis axes axis = true) :
    ∃ a ∈ axes, axis = some a := by
  cases axis with
  | none => cases h
  | some a => exact ⟨a, List.contains_iff_mem.1 h, rfl⟩

theorem setSelectedXAxis_ok (hgraphs : ∀ entry ∈ storage.graphs, Plottable entry.2) (value : Option String)
    (v : View R) :
    ∃ v', setSelectedXAxis storage value v = .ok () v' ∧ v'.availableAxes = v.availableAxes ∧
      v'.selectedXAxis = value ∧ v'.selectedYAxis = v.selectedYAxis ∧ v'.maxPointsPerChart = v.maxPointsPerChart ∧
      v'.drawAnyway = true ∧ Framed storage v' := by
  obtain ⟨axisX, axisY, hscale, hframed⟩ := updateScale_ok hgraphs { v with selectedXAxis := value, drawAnyway := true }
  exact ⟨_, hscale, rfl, rfl, rfl, rfl, rfl, hframed⟩

theorem setSelectedYAxis_ok (hgraphs : ∀ entry ∈ storage.graphs, Plottable entry.2) (value : Option String)
    (v : View R) :
    ∃ v', setSelectedYAxis storage value v = .ok () v' ∧ v'.availableAxes = v.availableAxes ∧
      v'.selectedXAxis = v.selectedXAxis ∧ v'.selectedYAxis = value ∧ v'.maxPointsPerChart = v.maxPointsPerChart ∧
      v'.drawAnyway = true ∧ Framed storage v' := by
  obtain ⟨axisX, axisY, hscale, hframed⟩ := updateScale_ok hgraphs { v with selectedYAxis := value, drawAnyway := true }
  exact ⟨_, hscale, rfl, rfl, rfl, rfl, rfl, hframed⟩

/-- **LoadAxes.** The axes of all graphs can be chosen, and two of them are selected: the ones from before, if they are
still there. -/
theorem loadAxes_ok (hgraphs : ∀ entry ∈ storage.graphs, Plottable entry.2) (hne : storage.graphs ≠ []) {v : View R}
    (hchosen : v.availableAxes = allAxes storage → Chosen v) :
    ∃ v', loadAxes storage v = .ok () v' ∧ v'.availableAxes = allAxes storage ∧ Chosen v' ∧
      v'.maxPointsPerChart = v.maxPointsPerChart := by
  have hload : loadAxes storage v = (if v.availableAxes = allAxes storage then pure () else _ : Handler R Unit) v := rfl
  by_cases hsame : v.availableAxes = allAxes storage
  · rw [if_pos hsame] at hload
    exact ⟨v, hload, hsame, hchosen hsame, rfl⟩
  · obtain ⟨x, hx, hxsel⟩ : ∃ x ∈ allAxes storage,
        (if hasAxis (allAxes storage) v.selectedXAxis then v.selectedXAxis else (allAxes storage).head?) = some x := by
      split_ifs with hold
      · exact mem_of_hasAxis hold
      · exact ⟨_, List.head_mem (allAxes_ne_nil hgraphs hne), List.head?_eq_some_head _⟩
    obtain ⟨v1, hset1, ha1, hx1, hy1, hq1, -⟩ := setSelectedXAxis_ok hgraphs (some x)
      { v with availableAxes := allAxes storage }
    obtain ⟨y, hy, hysel⟩ : ∃ y ∈ allAxes storage,
        (if hasAxis (allAxes storage) v.selectedYAxis then v.selectedYAxis
          else (allAxes storage)[1]?.or v1.selectedXAxis) = some y := by
      split_ifs with hold
      · exact mem_of_hasAxis hold
      · cases hsecond : (allAxes storage)[1]? with
        | none => exact ⟨x, hx, hx1⟩
        | some y => exact ⟨y, List.mem_of_getElem? hsecond, rfl⟩
    obtain ⟨v2, hset2, ha2, hx2, hy2, hq2, -⟩ := setSelectedYAxis_ok hgraphs (some y) v1
    rw [if_neg hsame] at hload
    refine ⟨v2, ?_, ha2.trans ha1, ⟨⟨x, ?_, hx2.trans hx1⟩, ⟨y, ?_, hy2⟩⟩, hq2.trans hq1⟩
    · rw [hload]
      refine GraphStorage.bind_ok.2 ⟨(), { v with availableAxes := allAxes storage }, rfl, ?_⟩
      rw [hxsel]
      refine GraphStorage.bind_ok.2 ⟨(), v1, hset1, GraphStorage.bind_ok.2 ⟨v1, v1, rfl, ?_⟩⟩
      rw [hysel]
      exact hset2
    · rwa [ha2, ha1]
    · rwa [ha2, ha1]

/-- **A new graph.** The handler of a response leaves the axes of all graphs, limits that hold every point, and a chart
that is drawn at the next tick. -/
theorem showGraph_ok (hgraphs : ∀ entry ∈ storage.graphs, Plottable entry.2) (hne : storage.graphs ≠ []) {v : View R}
    (hchosen : v.availableAxes = allAxes storage → Chosen v) :
    ∃ v', showGraph storage v = .ok () v' ∧ v'.availableAxes = allAxes storage ∧ Chosen v' ∧
      v'.maxPointsPerChart = v.maxPointsPerChart ∧ v'.drawAnyway = true ∧ Framed storage v' := by
  obtain ⟨v1, hload, havailable, hchosen1, hquality⟩ := loadAxes_ok hgraphs hne hchosen
  obtain ⟨axisX, axisY, hscale, hframed⟩ := updateScale_ok hgraphs v1
  refine ⟨{ v1 with axisX := axisX, axisY := axisY, drawAnyway := true }, ?_, havailable, ⟨hchosen1.x, hchosen1.y⟩,
    hquality, rfl, hframed⟩
  exact GraphStorage.bind_ok.2 ⟨(), v1, hload, GraphStorage.bind_ok.2 ⟨(), _, hscale, rfl⟩⟩

omit [IsStrictOrderedRing R] in
/-- without graphs there is nothing to scale -/
theorem clearCharts_eq (v : View R) : clearCharts v = .ok () { v with
    shown := [], availableAxes := [], selectedXAxis := none, selectedYAxis := none, drawAnyway := true } := rfl

end OdeClientServer.Axes
