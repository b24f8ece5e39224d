/-
The timer of the chart. A tick draws only if the range has changed or something asks for it; otherwise the chart stays
as it is. The invariant of the view makes the two the same.

- `drawGraphs_ok`: a tick skips, or draws all graphs.
- `tick_shows`: after a tick the chart is the one of a full drawing.
- `Right`, `step_right`: what every operation on the view keeps, and which can move the limits over a point.
-/
import OdeClientServer.Results.Axes

namespace OdeClientServer.Redraw

open Client View Axes Drawing

variable {R : Type} [LinearOrder R] {storage : GraphStorage R} {v : View R}

/-! ## A drawing -/

theorem drawEach_ok [Field R] {settings : ChartSettings} {range : Limits R}
    {graphs : List (String × SimulationResult R)}
    {shown : List (Shown R)}
    (h : graphs.mapM (fun (name, graph) => drawGraph settings range.min range.max name graph) = some shown)
    (v : View R) :
    drawEach settings range graphs v = .ok () { v with shown := v.shown ++ shown } := by
  induction graphs generalizing shown v with
  | nil =>
    obtain rfl : shown = [] := (Option.some.inj h).symm
    rw [List.append_nil]
    rfl
  | cons entry graphs ih =>
    obtain ⟨s, rest, hs, hrest, rfl⟩ := Sampling.mapM_eq_some_cons h
    obtain ⟨name, graph⟩ := entry
    have hfirst : drawGraph settings range.min range.max name graph = some s := hs
    rw [drawEach, hfirst]
    have hgoal := ih hrest { v with shown := v.shown ++ [s] }
    rw [List.append_assoc] at hgoal
    exact GraphStorage.bind_ok.2 ⟨(), _, rfl, hgoal⟩

/-- the last drawing is one of the graphs, the axes and the quality of now -/
def Current (storage : GraphStorage R) (v : View R) : Prop :=
  ∃ range, v.lastRange = some range ∧ Client.drawGraphs v.settings range.min range.max storage = some v.shown

/-- **Right.** The axes are those of the stored graphs, two of them are selected as long as there is a graph, the limit
of the points is one of the three, and a chart that no one asks to draw is current. -/
structure Right (storage : GraphStorage R) (v : View R) : Prop where
  available : v.availableAxes = allAxes storage
  empty : storage.graphs = [] → v.selectedXAxis = none ∧ v.selectedYAxis = none
  chosen : storage.graphs ≠ [] → Chosen v
  quality : ∃ quality : Quality, v.maxPointsPerChart = quality.points
  current : v.drawAnyway = false → Current storage v

/-- moving the limits changes neither the graphs, the axes, the quality nor the chart -/
theorem Right.moved (h : Right storage v) (axisX axisY : Limits R) :
    Right storage { v with axisX := axisX, axisY := axisY } where
  available := h.available
  empty := h.empty
  chosen hne := ⟨(h.chosen hne).x, (h.chosen hne).y⟩
  quality := h.quality
  current := h.current

variable [Field R]

/-- **Shows.** What is shown is a full drawing of the range of now. -/
def Shows (storage : GraphStorage R) (v : View R) : Prop :=
  Client.drawGraphs v.settings (drawnRange v.axisX).min (drawnRange v.axisX).max storage = some v.shown

/-- the view after a drawing -/
def drawn (v : View R) (shown : List (Shown R)) : View R :=
  { v with drawAnyway := false, shown := shown, lastRange := some (drawnRange v.axisX) }

/-- a tick skips the drawing, or draws everything -/
theorem drawGraphs_ok (hgraphs : ∀ entry ∈ storage.graphs, entry.2.Rectangular) (v : View R) :
    (v.lastRange = some (drawnRange v.axisX) ∧ v.drawAnyway = false ∧ drawGraphs storage v = .ok () v) ∨
      ∃ shown, Client.drawGraphs v.settings (drawnRange v.axisX).min (drawnRange v.axisX).max storage = some shown ∧
        drawGraphs storage v = .ok () (drawn v shown) := by
  have hbody : drawGraphs storage v =
      (if v.lastRange = some (drawnRange v.axisX) ∧ v.drawAnyway = false then pure () else _ : Handler R Unit) v := rfl
  split_ifs at hbody with hskip
  · exact Or.inl ⟨hskip.1, hskip.2, hbody⟩
  · obtain ⟨shown, hshown, -⟩ := drawGraphs_faithful v.settings (drawnRange v.axisX).min
      (drawnRange v.axisX).max hgraphs
    refine Or.inr ⟨shown, hshown, ?_⟩
    have heach := drawEach_ok hshown { v with drawAnyway := false, shown := [] }
    rw [hbody]
    refine GraphStorage.bind_ok.2 ⟨(), { v with drawAnyway := false, shown := [] }, rfl, ?_⟩
    exact GraphStorage.bind_ok.2 ⟨(), _, heach, rfl⟩

/-- **Ticks.** After a tick the chart is the one of a full drawing, also when the tick has skipped it. -/
theorem tick_shows (hgraphs : ∀ entry ∈ storage.graphs, entry.2.Rectangular) (h : Right storage v) :
    ∃ v', View.step storage v .tick = some v' ∧ Shows storage v' := by
  rcases drawGraphs_ok hgraphs v with ⟨hlast, hdraw, htick⟩ | ⟨shown, hshown, htick⟩
  · obtain ⟨range, hrange, hcurrent⟩ := h.current hdraw
    rw [hlast, Option.some.injEq] at hrange
    refine ⟨v, by simp only [View.step, outcome, htick], ?_⟩
    rwa [Shows, hrange]
  · exact ⟨drawn v shown, by simp only [View.step, outcome, htick], hshown⟩

/-! ## The operations -/

/-- operations by which the user can move the limits over a point -/
def Narrows : ViewOp R → Prop
  | .moveX _ => True
  | .moveY _ => True
  | .zoomIn => True
  | _ => False

variable [IsStrictOrderedRing R]

theorem zoomOut_holds {limits : Limits R} {x : R} (h : Holds limits x) :
    Holds (adjustAxis limits (1 + ZoomStep)) x := by
  obtain ⟨hmin, hmax⟩ := h
  have hrange : 0 ≤ limits.max - limits.min := sub_nonneg.2 (hmin.trans hmax)
  constructor
  · calc (limits.max + limits.min) / 2 - (limits.max - limits.min) * (1 + ZoomStep) / 2
        = limits.min - (limits.max - limits.min) * 0.1 := by unfold ZoomStep; ring
      _ ≤ limits.min := sub_le_self _ (mul_nonneg hrange (by norm_num))
      _ ≤ x := hmin
  · calc x ≤ limits.max := hmax
      _ ≤ limits.max + (limits.max - limits.min) * 0.1 := le_add_of_nonneg_right (mul_nonneg hrange (by norm_num))
      _ = (limits.max + limits.min) / 2 + (limits.max - limits.min) * (1 + ZoomStep) / 2 := by unfold ZoomStep; ring

/-- a reset needs no limits that hold the points -/
theorem resetZoom_framed (hgraphs : ∀ entry ∈ storage.graphs, Plottable entry.2) (h : Right storage v) :
    ∃ v', View.step storage v .resetZoom = some v' ∧ Right storage v' ∧ Framed storage v' := by
  obtain ⟨axisX, axisY, hscale, hframed⟩ := updateScale_ok hgraphs v
  exact ⟨_, by simp only [View.step, hscale], h.moved axisX axisY, hframed⟩

/-- **Operations on the view.** None ends the program, each keeps the invariant, and one that does not narrow the limits
keeps every point within them. -/
theorem step_right (hgraphs : ∀ entry ∈ storage.graphs, Plottable entry.2) (h : Right storage v) (op : ViewOp R) :
    ∃ v', View.step storage v op = some v' ∧ Right storage v' ∧
      (¬ Narrows op → Framed storage v → Framed storage v') := by
  have hnonempty : ∀ {i : ℕ} {axis : String}, v.availableAxes[i]? = some axis → storage.graphs ≠ [] := by
    intro i axis hi hnil
    rw [h.available, allAxes, hnil] at hi
    cases hi
  cases op with
  | selectXAxis i =>
    cases ha : v.availableAxes[i]? with
    | none => exact ⟨v, by rw [View.step, ha], h, fun _ hf => hf⟩
    | some axis =>
      obtain ⟨v', hset, havailable, hx, hy, hquality, hdraw, hframed⟩ := setSelectedXAxis_ok hgraphs (some axis) v
      refine ⟨v', by simp only [View.step, ha, outcome, hset], ?_, fun _ _ => hframed⟩
      refine ⟨havailable.trans h.available, fun hnil => absurd hnil (hnonempty ha), fun hne => ⟨?_, ?_⟩, ?_,
        fun hd => ?_⟩
      · exact ⟨axis, havailable ▸ List.mem_of_getElem? ha, hx⟩
      · rw [havailable, hy]
        exact (h.chosen hne).y
      · rw [hquality]
        exact h.quality
      · rw [hdraw] at hd
        cases hd
  | selectYAxis i =>
    cases ha : v.availableAxes[i]? with
    | none => exact ⟨v, by rw [View.step, ha], h, fun _ hf => hf⟩
    | some axis =>
      obtain ⟨v', hset, havailable, hx, hy, hquality, hdraw, hframed⟩ := setSelectedYAxis_ok hgraphs (some axis) v
      refine ⟨v', by simp only [View.step, ha, outcome, hset], ?_, fun _ _ => hframed⟩
      refine ⟨havailable.trans h.available, fun hnil => absurd hnil (hnonempty ha), fun hne => ⟨?_, ?_⟩, ?_,
        fun hd => ?_⟩
      · rw [havailable, hx]
        exact (h.chosen hne).x
      · exact ⟨axis, havailable ▸ List.mem_of_getElem? ha, hy⟩
      · rw [hquality]
        exact h.quality
      · rw [hdraw] at hd
        cases hd
  | moveX limits => exact ⟨_, rfl, h.moved limits v.axisY, fun hn => absurd trivial hn⟩
  | moveY limits => exact ⟨_, rfl, h.moved v.axisX limits, fun hn => absurd trivial hn⟩
  | zoomIn => exact ⟨_, rfl, h.moved _ _, fun hn => absurd trivial hn⟩
  | zoomOut =>
    refine ⟨_, rfl, h.moved _ _, fun _ hf x y hp => ?_⟩
    exact ⟨zoomOut_holds (hf x y hp).1, zoomOut_holds (hf x y hp).2⟩
  | resetZoom =>
    obtain ⟨v', hstep, hright, hframed⟩ := resetZoom_framed hgraphs h
    exact ⟨v', hstep, hright, fun _ _ => hframed⟩
  | setQuality quality =>
    refine ⟨_, rfl, ⟨h.available, h.empty, fun hne => ⟨(h.chosen hne).x, (h.chosen hne).y⟩, ⟨quality, rfl⟩, ?_⟩,
      fun _ hf => hf⟩
    intro hd
    cases hd
  | tick =>
    rcases drawGraphs_ok (fun entry hentry => (hgraphs entry hentry).rectangular) v with
      ⟨-, -, htick⟩ | ⟨shown, hshown, htick⟩
    · exact ⟨v, by simp only [View.step, outcome, htick], h, fun _ hf => hf⟩
    · refine ⟨drawn v shown, by simp only [View.step, outcome, htick], ?_, fun _ hf => hf⟩
      exact ⟨h.available, h.empty, fun hne => ⟨(h.chosen hne).x, (h.chosen hne).y⟩, h.quality,
        fun _ => ⟨_, rfl, hshown⟩⟩

end OdeClientServer.Redraw
