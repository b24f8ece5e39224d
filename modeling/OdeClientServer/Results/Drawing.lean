/-
The points that are drawn. A chart has at most `MAX_POINTS_PER_CHART` points of a graph, and these are a faithful sample
of what is visible of it.

- `downsample_faithful`: `DownsamplePoints` takes its points at increasing positions, from the first one on.
- `drawGraphs_faithful`: every stored graph is drawn as a sample of its visible points, or reported.
-/
import OdeClientServer.Client.Charts
import OdeClientServer.Core.Sampling

namespace OdeClientServer.Drawing

open Client Sampling

variable {R : Type}

/-! ## Downsampling -/

theorem toPoint_isSome {xIndex yIndex : ℕ} {p : List R} (hx : xIndex < p.length) (hy : yIndex < p.length) :
    ∃ point, toPoint xIndex yIndex p = some point := by
  refine ⟨⟨p[xIndex], p[yIndex]⟩, ?_⟩
  simp only [toPoint, List.getElem?_eq_getElem hx, List.getElem?_eq_getElem hy]
  rfl

/-- what `DownsamplePoints` returns is a sample -/
theorem isSample_of_downsample {points : List (List R)} {maxPoints : ℤ} {xIndex yIndex : ℕ} {drawn : List (Point R)}
    (h : downsamplePoints points maxPoints xIndex yIndex = some drawn) :
    IsSample maxPoints.toNat (toPoint xIndex yIndex) points drawn := by
  unfold downsamplePoints at h
  split_ifs at h with hle
  · exact isSample_of_mapM (by omega) h
  · rcases le_or_gt maxPoints 0 with hneg | hpos
    · -- the loop makes no round
      rw [Int.toNat_of_nonpos hneg] at h ⊢
      cases h
      exact ⟨(Nat.min_zero _).symm, Fin.elim0, fun i => i.elim0, fun i => i.elim0, fun i => i.elim0⟩
    · obtain ⟨limit, rfl⟩ := Int.eq_ofNat_of_zero_le hpos.le
      rw [Int.toNat_natCast] at h ⊢
      exact isSample_of_step (K := ℚ) (by omega) h

/-- no access of `DownsamplePoints` is out of range -/
theorem downsample_isSome {points : List (List R)} (maxPoints : ℤ) {xIndex yIndex : ℕ}
    (hindex : ∀ p ∈ points, xIndex < p.length ∧ yIndex < p.length) :
    ∃ drawn, downsamplePoints points maxPoints xIndex yIndex = some drawn := by
  have hpoint : ∀ p ∈ points, ∃ point, toPoint xIndex yIndex p = some point :=
    fun p hp => toPoint_isSome (hindex p hp).1 (hindex p hp).2
  unfold downsamplePoints
  split_ifs with hle
  · exact mapM_isSome hpoint
  · refine mapM_isSome fun i hi => ?_
    have hlt : i < maxPoints.toNat := List.mem_range.1 hi
    have hmax : (maxPoints : ℚ) = (maxPoints.toNat : ℚ) := by
      rw [← Int.cast_natCast, Int.toNat_of_nonneg (by omega)]
    have hin : ⌊(i : ℚ) * ((points.length : ℚ) / (maxPoints : ℚ))⌋₊ < points.length := by
      rw [hmax]
      exact floor_mul_lt (by omega) hlt
    obtain ⟨point, h⟩ := hpoint _ (List.getElem_mem hin)
    exact ⟨point, by rw [List.getElem?_eq_getElem hin]; exact h⟩

/-- **Faithful sample.** For every list of points, limit and valid pair of axes, `DownsamplePoints` returns as many
points as the limit allows. They are points of the list at increasing positions, and the first point is among them. -/
theorem downsample_faithful {points : List (List R)} {maxPoints : ℤ} {xIndex yIndex : ℕ} (hmax : 1 ≤ maxPoints)
    (hindex : ∀ p ∈ points, xIndex < p.length ∧ yIndex < p.length) :
    ∃ drawn, downsamplePoints points maxPoints xIndex yIndex = some drawn ∧
      IsSample maxPoints.toNat (toPoint xIndex yIndex) points drawn ∧
      (points ≠ [] → ∃ p point, points.head? = some p ∧ drawn.head? = some point ∧
        toPoint xIndex yIndex p = some point) := by
  obtain ⟨drawn, hdrawn⟩ := downsample_isSome maxPoints hindex
  have hsample := isSample_of_downsample hdrawn
  exact ⟨drawn, hdrawn, hsample, hsample.first (by omega)⟩

/-- seven points drawn as five -/
theorem downsample_faithful_seven :
    ∃ drawn, downsamplePoints [[0, 5], [1, 6], [2, 7], [3, 8], [4, 9], [5, 10], [6, 11]] 5 0 1 = some drawn ∧
      IsSample 5 (toPoint 0 1) [[0, 5], [1, 6], [2, 7], [3, 8], [4, 9], [5, 10], [6, 11]] drawn ∧
      ([[0, 5], [1, 6], [2, 7], [3, 8], [4, 9], [5, 10], [6, 11]] ≠ [] →
        ∃ p point, [[0, 5], [1, 6], [2, 7], [3, 8], [4, 9], [5, 10], [6, 11]].head? = some p ∧
          drawn.head? = some point ∧ toPoint 0 1 p = some point) :=
  downsample_faithful (R := ℕ) (by decide) (by decide)

/-! ## Charts -/

variable [LinearOrder R]

/-- the point is in the visible range of the chosen axis -/
def inRange (minX maxX : R) (xIndex : ℕ) (p : List R) : Bool := p[xIndex]?.any fun x => minX ≤ x ∧ x ≤ maxX

theorem visiblePoints_eq (minX maxX : R) {xIndex : ℕ} {points : List (List R)}
    (hindex : ∀ p ∈ points, xIndex < p.length) :
    visiblePoints minX maxX xIndex points = some (points.filter (inRange minX maxX xIndex)) := by
  induction points with
  | nil => rfl
  | cons p points ih =>
    have hlt : xIndex < p.length := hindex p List.mem_cons_self
    have hp : p[xIndex]? = some p[xIndex] := List.getElem?_eq_getElem hlt
    have hrest := ih fun q hq => hindex q (List.mem_cons_of_mem p hq)
    have hin : inRange minX maxX xIndex p = decide (minX ≤ p[xIndex] ∧ p[xIndex] ≤ maxX) := by
      rw [inRange, hp, Option.any_some]
    simp only [visiblePoints, hp, hrest, List.filter_cons, hin, decide_eq_true_eq, Option.bind_eq_bind,
      Option.bind_some]
    rfl

/-- a graph is a chart of its visible points, or a message if it lacks one of the axes -/
def DrawnFrom (settings : ChartSettings) (minX maxX : R) (entry : String × SimulationResult R)
    (shown : Shown R) : Prop :=
  match indexOf entry.2.axes settings.selectedXAxis, indexOf entry.2.axes settings.selectedYAxis with
  | some xIndex, some yIndex => ∃ drawn, shown = .chart entry.1 drawn ∧
      IsSample settings.maxPointsPerChart.toNat (toPoint xIndex yIndex)
        (entry.2.points.filter (inRange minX maxX xIndex)) drawn
  | _, _ => shown = .message (axesNotFound settings entry.1)

theorem indexOf_lt {axes : List String} {axis : Option String} {i : ℕ} (h : indexOf axes axis = some i) :
    i < axes.length := by
  obtain ⟨a, -, h⟩ := Option.bind_eq_some_iff.1 h
  exact (List.idxOf?_eq_some_iff.1 h).1

theorem drawGraph_faithful (settings : ChartSettings) (minX maxX : R) (graphName : String) {graph : SimulationResult R}
    (hgraph : graph.Rectangular) :
    ∃ shown, drawGraph settings minX maxX graphName graph = some shown ∧
      DrawnFrom settings minX maxX (graphName, graph) shown := by
  unfold drawGraph DrawnFrom
  cases hx : indexOf graph.axes settings.selectedXAxis with
  | none => exact ⟨_, rfl, rfl⟩
  | some xIndex =>
    cases hy : indexOf graph.axes settings.selectedYAxis with
    | none => exact ⟨_, rfl, rfl⟩
    | some yIndex =>
      have hindex : ∀ p ∈ graph.points, xIndex < p.length ∧ yIndex < p.length := by
        intro p hp
        rw [hgraph p hp]
        exact ⟨indexOf_lt hx, indexOf_lt hy⟩
      have hvisible := visiblePoints_eq minX maxX fun p hp => (hindex p hp).1
      have hvisibleIndex : ∀ p ∈ graph.points.filter (inRange minX maxX xIndex),
          xIndex < p.length ∧ yIndex < p.length :=
        fun p hp => hindex p (List.mem_filter.1 hp).1
      obtain ⟨drawn, hdrawn⟩ := downsample_isSome settings.maxPointsPerChart hvisibleIndex
      refine ⟨.chart graphName drawn, ?_, drawn, rfl, isSample_of_downsample hdrawn⟩
      simp only [hvisible, Option.bind_eq_bind, Option.bind_some, hdrawn]
      rfl

/-- **Charts.** If every stored graph has a value for each of its axes, `DrawGraphs` goes through all graphs in their
order, and what it shows for each is a sample of its visible points, or a message. -/
theorem drawGraphs_faithful (settings : ChartSettings) (minX maxX : R) {storage : GraphStorage R}
    (hstorage : ∀ entry ∈ storage.graphs, entry.2.Rectangular) :
    ∃ shown, drawGraphs settings minX maxX storage = some shown ∧
      List.Forall₂ (DrawnFrom settings minX maxX) storage.graphs shown := by
  have hsome : ∀ entry ∈ storage.graphs, ∃ shown, drawGraph settings minX maxX entry.1 entry.2 = some shown :=
    fun entry hentry => (drawGraph_faithful settings minX maxX entry.1 (hstorage entry hentry)).imp fun _ h => h.1
  obtain ⟨shown, hshown⟩ := mapM_isSome hsome
  refine ⟨shown, hshown, ?_⟩
  have hall := (List.forall₂_and_left _ _).2 ⟨hstorage, forall₂_of_mapM hshown⟩
  refine hall.imp fun entry s h => ?_
  obtain ⟨s', hs', hfrom⟩ := drawGraph_faithful settings minX maxX entry.1 h.1
  cases hs'.symm.trans h.2
  exact hfrom

end OdeClientServer.Drawing
