/-
What the client keeps of a response (`SimulationResult.cs`). The text is read by `JsonConvert.DeserializeObject`, which
is given; it answers none where it throws, and where it leaves a list null that the constructor then enumerates.
-/
import Mathlib.Data.List.Basic

namespace OdeClientServer.Client

structure RawPoint (R : Type) where
  t : R
  values : List R

structure RawResult (R : Type) where
  results : List (RawPoint R)

structure SimulationResult (R : Type) where
  axes : List String
  points : List (List R)
deriving DecidableEq, Repr

variable {R : Type}

/-- the axes are named after the values of the first row -/
def SimulationResult.ofRaw (raw : RawResult R) : SimulationResult R where
  axes := "t" :: match raw.results with
    | [] => []
    | first :: _ => (List.range first.values.length).map fun i => "y" ++ toString i
  points := raw.results.map fun r => r.t :: r.values

/-- every point has a value for each axis -/
def SimulationResult.Rectangular (graph : SimulationResult R) : Prop := ∀ p ∈ graph.points, p.length = graph.axes.length

/-- the constructor -/
def SimulationResult.construct (deserializeObject : String → Option (RawResult R)) (json : String) :
    Option (SimulationResult R) :=
  (deserializeObject json).map ofRaw

end OdeClientServer.Client
