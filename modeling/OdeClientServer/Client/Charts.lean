/-
The charts of the main window (`DrawGraphs`, `DownsamplePoints`): of each stored graph the points in the visible range,
thinned out to the quality that the user has chosen.

An access outside a list throws, and is none here. The visible range comes from the axes of the chart and is given;
`View` has the axes, and the test that skips a redraw of the same range. The step between two drawn points is an exact
rational.
-/
import OdeClientServer.Client.GraphStorage

namespace OdeClientServer.Client

/-- `Constants.MEDIUM_QUALITY` -/
def MEDIUM_QUALITY : ℤ := 200

structure Point (R : Type) where
  x : R
  y : R
deriving DecidableEq, Repr

/-- what `DrawGraphs` reads of the view model -/
structure ChartSettings where
  xAxis : String := "y0"
  yAxis : String := "y1"
  /-- null until a graph has been stored, and after the charts have been deleted -/
  selectedXAxis : Option String := none
  selectedYAxis : Option String := none
  maxPointsPerChart : ℤ := MEDIUM_QUALITY
deriving Repr

/-- what is shown for a graph -/
inductive Shown (R : Type) where
  | chart (name : String) (points : List (Point R))
  | message (text : String)
deriving DecidableEq, Repr

section Model

variable {R : Type}

/-- `new Point(p[xIndex], p[yIndex])` -/
def toPoint (xIndex yIndex : ℕ) (p : List R) : Option (Point R) := do return ⟨← p[xIndex]?, ← p[yIndex]?⟩

def downsamplePoints (points : List (List R)) (maxPoints : ℤ) (xIndex yIndex : ℕ) : Option (List (Point R)) :=
  if points.length ≤ maxPoints then points.mapM (toPoint xIndex yIndex)
  else
    let step : ℚ := points.length / maxPoints
    (List.range maxPoints.toNat).mapM fun i : ℕ => do toPoint xIndex yIndex (← points[⌊i * step⌋₊]?)

variable [LinearOrder R]

/-- `Where(point => point[xIndex] >= minX && point[xIndex] <= maxX)` -/
def visiblePoints (minX maxX : R) (xIndex : ℕ) : List (List R) → Option (List (List R))
  | [] => some []
  | point :: points => do
    let x ← point[xIndex]?
    let visible ← visiblePoints minX maxX xIndex points
    return if minX ≤ x ∧ x ≤ maxX then point :: visible else visible

/-- `Axes.IndexOf`, none for -1 -/
def indexOf (axes : List String) (axis : Option String) : Option ℕ := axis.bind axes.idxOf?

/-- the message about a graph without the selected axes -/
def axesNotFound (settings : ChartSettings) (graphName : String) : String :=
  "Не найдены данные для осей X: " ++ settings.xAxis ++ " и Y: " ++ settings.yAxis ++ " в графике '" ++ graphName ++ "'"

/-- one round of the loop of `DrawGraphs` -/
def drawGraph (settings : ChartSettings) (minX maxX : R) (graphName : String) (graph : SimulationResult R) :
    Option (Shown R) :=
  match indexOf graph.axes settings.selectedXAxis, indexOf graph.axes settings.selectedYAxis with
  | some xIndex, some yIndex => do
    let visible ← visiblePoints minX maxX xIndex graph.points
    return .chart graphName (← downsamplePoints visible settings.maxPointsPerChart xIndex yIndex)
  | _, _ => some (.message (axesNotFound settings graphName))

def drawGraphs (settings : ChartSettings) (minX maxX : R) (storage : GraphStorage R) : Option (List (Shown R)) :=
  storage.graphs.mapM fun (graphName, graph) => drawGraph settings minX maxX graphName graph

end Model

end OdeClientServer.Client
