/-
The call of a solver in the POST /solve handler (`Routers.cpp`): the method name selects the solver, and the rows that
its `Solve` records are streamed with status success when `Solve` returns.

The request is taken after its JSON values have been read. The step 0.001, the factor of the tolerance for DISPF and the
gamma 0 that DISPF is constructed with are the handler's own.
-/
import OdeClientServer.Solvers.EulerSolver
import OdeClientServer.Solvers.RK2Solver
import OdeClientServer.Solvers.RK23SSolver
import OdeClientServer.Solvers.STEKSSolver
import OdeClientServer.Solvers.DISPDSolver
import OdeClientServer.Solvers.DISPFSolver
import OdeClientServer.Solvers.DISPSSolver
import OdeClientServer.Solvers.TaskManager

namespace OdeClientServer.Routers

open Loop

/-- what the handler has read from the body of a request -/
structure SolveRequest (R : Type) where
  method : String
  odeFunction : Rhs R
  t0 : R
  tEnd : R
  tolerance : R
  y0 : Vec R
  I : ℤ
  J : ℤ
  K : ℤ
  flags : DISPSSolver.DispsEnabledFlags

section Model

variable {R : Type} [Field R] [LinearOrder R] [CMath R]

def initialStep : R := 0.001

/-- the factor of the tolerance for DISPF -/
def c : R := 10e-5

/-- the selected `Solve`, with at most n passes; `currentScheme` is what the DISPD constructor leaves uninitialised -/
def solve (req : SolveRequest R) (currentScheme : DISPDSolver.SchemeParams R) (fuel n : ℕ) :
    Pass Exn (List (R × Vec R)) :=
  if req.method = "ExplicitEuler" then
    (EulerSolver.solve req.odeFunction initialStep req.t0 req.y0 req.tEnd req.tolerance n).map RunState.storage
  else if req.method = "RungeKutta2" then
    (RK2Solver.solve req.odeFunction initialStep req.t0 req.y0 req.tEnd req.tolerance fuel n).map RunState.storage
  else if req.method = "RK23S" then
    (RK23SSolver.solve req.odeFunction initialStep req.t0 req.y0 req.tEnd req.tolerance n).map RunState.storage
  else if req.method = "STEKS" then
    (STEKSSolver.solve req.odeFunction initialStep req.t0 req.y0 req.tEnd req.tolerance n).map RunState.storage
  else if req.method = "DISPD" then
    (DISPDSolver.solve currentScheme req.odeFunction initialStep req.t0 req.y0 req.tEnd req.tolerance n).map
      RunState.storage
  else if req.method = "DISPF" then
    (DISPFSolver.solve (DISPFSolver.config 0 req.I req.J req.K) (DISPFSolver.construct req.I) req.odeFunction
      initialStep req.t0 req.y0 req.tEnd (req.tolerance * c) fuel n).map RunState.storage
  else if req.method = "DISPS" then
    match DISPSSolver.construct req.flags with
    | .error e => .raise e []
    | .ok variants =>
      (DISPSSolver.solve req.odeFunction variants initialStep 0 req.t0 req.y0 req.tEnd req.tolerance n).map
        DISPSSolver.State.results
  else .raise (.runtimeError ("Unknown method: " ++ req.method)) []

end Model

end OdeClientServer.Routers
