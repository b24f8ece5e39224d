/-
The chart of the main window (`MainWindowViewModel.cs`): the axes that can be chosen, the limits of the two axes of the
chart, and the timer that redraws it.

A handler runs on the UI thread without interruption: a message box is answered before the next tick of the timer, and
`Chart.Update` of LiveCharts does not throw. A point without a value for an axis throws. Then a handler leaves what it
has done so far: an exception in a binding, in the timer or in the handler of a response is caught, and one in a command
ends the program. Limits and values are exact.

- `View.step`: the operations of the user and the ticks of the timer.
-/
import OdeClientServer.Client.Charts
import OdeClientServer.Core.Numerals

namespace OdeClientServer.Client

/-! ## Model -/

/-- `Constants.LOW_QUALITY` -/
def LOW_QUALITY : ℤ := 100

/-- `Constants.HIGH_QUALITY` -/
def HIGH_QUALITY : ℤ := 400

inductive Quality where
  | low
  | medium
  | high
deriving DecidableEq, Repr

def Quality.points : Quality → ℤ
  | .low => LOW_QUALITY
  | .medium => MEDIUM_QUALITY
  | .high => HIGH_QUALITY

/-- `MinValue` and `MaxValue` of an axis -/
structure Limits (R : Type) where
  min : R
  max : R
deriving DecidableEq, Repr

/-- the extremes of `UpdateScale` over the points so far -/
structure Extremes (R : Type) where
  xMin : R
  xMax : R
  yMin : R
  yMax : R

structure View (R : Type) where
  availableAxes : List String
  selectedXAxis : Option String
  selectedYAxis : Option String
  axisX : Limits R
  axisY : Limits R
  maxPointsPerChart : ℤ
  /-- `_lastMin` and `_lastMax`, none before the first drawing -/
  lastRange : Option (Limits R)
  drawAnyway : Bool
  /-- what has been shown since the chart was last cleared -/
  shown : List (Shown R)

/-- handlers of the UI thread -/
abbrev Handler (R : Type) := EStateM Exception (View R)

def outOfBounds : Exception := .library "Index was outside the bounds of the array."

/-- `string.IsNullOrEmpty` -/
def isNullOrEmpty (s : Option String) : Bool :=
  match s with
  | none => true
  | some s => s = ""

namespace View

section Model

variable {R : Type} [Field R] [LinearOrder R] (storage : GraphStorage R)

/-! ### The scale -/

/-- a point in the loop of `UpdateScale`; none is `hasData = false` -/
def extend (x y : R) : Option (Extremes R) → Extremes R
  | none => ⟨x, x, y, y⟩
  | some e => ⟨min e.xMin x, max e.xMax x, min e.yMin y, max e.yMax y⟩

/-- the points of a graph, none where an index is out of bounds -/
def scanPoints (xIndex yIndex : ℕ) : List (List R) → Option (Extremes R) → Option (Option (Extremes R))
  | [], e => some e
  | point :: points, e => do
    let x ← point[xIndex]?
    let y ← point[yIndex]?
    scanPoints xIndex yIndex points (some (extend x y e))

/-- the graphs; one without the selected axes is left out -/
def scanGraphs (xAxis yAxis : Option String) :
    List (String × SimulationResult R) → Option (Extremes R) → Option (Option (Extremes R))
  | [], e => some e
  | (_, graph) :: graphs, e =>
    match indexOf graph.axes xAxis, indexOf graph.axes yAxis with
    | some xIndex, some yIndex => do
      let e ← scanPoints xIndex yIndex graph.points e
      scanGraphs xAxis yAxis graphs e
    | _, _ => scanGraphs xAxis yAxis graphs e

/-- the limits with a padding of a tenth -/
def padded (globalMin globalMax : R) : Limits R :=
  let padding := (globalMax - globalMin) * 0.1
  ⟨globalMin - padding, globalMax + padding⟩

def updateScale : Handler R Unit := do
  let v ← get
  if isNullOrEmpty v.selectedXAxis ∨ isNullOrEmpty v.selectedYAxis then return
  match scanGraphs v.selectedXAxis v.selectedYAxis storage.graphs none with
  | none => throw outOfBounds
  | some none => return
  | some (some e) => set { v with axisX := padded e.xMin e.xMax, axisY := padded e.yMin e.yMax }

/-! ### The axes -/

def setSelectedXAxis (value : Option String) : Handler R Unit := do
  modify fun v => { v with selectedXAxis := value, drawAnyway := true }
  updateScale storage

def setSelectedYAxis (value : Option String) : Handler R Unit := do
  modify fun v => { v with selectedYAxis := value, drawAnyway := true }
  updateScale storage

/-- the axes of the stored graphs, each once -/
def allAxes : List String := (storage.graphs.flatMap fun entry => entry.2.axes).eraseDups

/-- `AvailableAxes.Contains`; null is in no list -/
def hasAxis (axes : List String) (axis : Option String) : Bool := axis.any axes.contains

/-- `LoadAxes`. New axes may clear the selection of the boxes, which is therefore set again. -/
def loadAxes : Handler R Unit := do
  let v ← get
  let axes := allAxes storage
  if v.availableAxes = axes then return
  let previousXAxis := v.selectedXAxis
  let previousYAxis := v.selectedYAxis
  set { v with availableAxes := axes }
  setSelectedXAxis storage (if hasAxis axes previousXAxis then previousXAxis else axes.head?)
  let v ← get
  setSelectedYAxis storage (if hasAxis axes previousYAxis then previousYAxis else axes[1]?.or v.selectedXAxis)

/-! ### The chart -/

/-- the range that is drawn: a tenth more than the limits, on both sides -/
def drawnRange (axis : Limits R) : Limits R :=
  let shift := |axis.max - axis.min| * 0.1
  ⟨axis.min - shift, axis.max + shift⟩

def settings (v : View R) : ChartSettings where
  selectedXAxis := v.selectedXAxis
  selectedYAxis := v.selectedYAxis
  maxPointsPerChart := v.maxPointsPerChart

/-- the loop of `DrawGraphs` -/
def drawEach (settings : ChartSettings) (range : Limits R) : List (String × SimulationResult R) → Handler R Unit
  | [] => pure ()
  | (graphName, graph) :: graphs => do
    match drawGraph settings range.min range.max graphName graph with
    | none => throw outOfBounds
    | some shown => modify fun v => { v with shown := v.shown ++ [shown] }
    drawEach settings range graphs

/-- `DrawGraphs`, which does nothing if the range is the last one and nothing asks for a drawing -/
def drawGraphs : Handler R Unit := do
  let v ← get
  let range := drawnRange v.axisX
  if v.lastRange = some range ∧ v.drawAnyway = false then return
  modify fun v => { v with drawAnyway := false, shown := [] }
  drawEach v.settings range storage.graphs
  modify fun v => { v with lastRange := some range }

def ZoomStep : R := 0.2

def adjustAxis (axis : Limits R) (factor : R) : Limits R :=
  let range := axis.max - axis.min
  let mid := (axis.max + axis.min) / 2
  ⟨mid - range * factor / 2, mid + range * factor / 2⟩

def zoom (v : View R) (factor : R) : View R :=
  { v with axisX := adjustAxis v.axisX factor, axisY := adjustAxis v.axisY factor }

/-! ### Operations -/

/-- the end of the handler of a response, after `AddGraph` -/
def showGraph : Handler R Unit := do
  loadAxes storage
  updateScale storage
  modify fun v => { v with drawAnyway := true }

/-- DeleteCharts, after the storage has been cleared -/
def clearCharts : Handler R Unit := do
  modify fun v => { v with shown := [], availableAxes := [] }
  setSelectedXAxis .empty none
  setSelectedYAxis .empty none

/-- what a handler leaves, and whether it threw -/
def outcome (handler : Handler R Unit) (v : View R) : View R × Bool :=
  match handler v with
  | .ok _ v => (v, false)
  | .error _ v => (v, true)

/-- the constructor, after `LoadAxes` has found no graph and `SetInitialZoom` -/
def init : View R := ⟨[], none, none, ⟨0, 10⟩, ⟨0, 10⟩, MEDIUM_QUALITY, none, true, []⟩

end Model

end View

inductive ViewOp (R : Type) where
  /-- an item of the box, by its position -/
  | selectXAxis (i : ℕ)
  | selectYAxis (i : ℕ)
  | moveX (limits : Limits R)
  | moveY (limits : Limits R)
  | zoomIn
  | zoomOut
  | resetZoom
  | setQuality (quality : Quality)
  | tick

/-- none where the program ends -/
def View.step {R : Type} [Field R] [LinearOrder R] (storage : GraphStorage R) (v : View R) : ViewOp R → Option (View R)
  | .selectXAxis i =>
    match v.availableAxes[i]? with
    | none => some v
    | some axis => some (outcome (setSelectedXAxis storage axis) v).1
  | .selectYAxis i =>
    match v.availableAxes[i]? with
    | none => some v
    | some axis => some (outcome (setSelectedYAxis storage axis) v).1
  | .moveX limits => some { v with axisX := limits }
  | .moveY limits => some { v with axisY := limits }
  | .zoomIn => some (v.zoom (1 - ZoomStep))
  | .zoomOut => some (v.zoom (1 + ZoomStep))
  | .resetZoom =>
    match updateScale storage v with
    | .ok _ v => some v
    | .error _ _ => none
  | .setQuality quality => some { v with maxPointsPerChart := quality.points, drawAnyway := true }
  | .tick => some (outcome (drawGraphs storage) v).1

end OdeClientServer.Client
