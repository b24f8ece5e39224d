import OdeClientServer.Core.Numerals
import OdeClientServer.Core.Loop
import OdeClientServer.Core.CMath
import OdeClientServer.Core.RungeKutta
import OdeClientServer.Core.OneStep
import OdeClientServer.Core.PolyBound
import OdeClientServer.Core.Text
import OdeClientServer.Core.Sampling
import OdeClientServer.Core.Lists
import OdeClientServer.Core.Growth
import OdeClientServer.Core.Rounding
import OdeClientServer.Core.Double
import OdeClientServer.Core.Magnitude
import OdeClientServer.Solvers.CommonFunctions
import OdeClientServer.Solvers.Solver
import OdeClientServer.Solvers.EulerSolver
import OdeClientServer.Solvers.RK2Solver
import OdeClientServer.Solvers.RK23SSolver
import OdeClientServer.Solvers.STEKSSolver
import OdeClientServer.Solvers.DISPDSolver
import OdeClientServer.Solvers.DISPFSolver
import OdeClientServer.Solvers.DISPSSolver
import OdeClientServer.Solvers.Tableaux
import OdeClientServer.Solvers.TaskManager
import OdeClientServer.Solvers.Doubles
import OdeClientServer.Server.ParseUtils
import OdeClientServer.Server.Json
import OdeClientServer.Server.JsonText
import OdeClientServer.Server.Streaming
import OdeClientServer.Server.Routers
import OdeClientServer.Server.Handler
import OdeClientServer.Client.SimulationResult
import OdeClientServer.Client.GraphStorage
import OdeClientServer.Client.MainWindowViewModel
import OdeClientServer.Client.Charts
import OdeClientServer.Client.Parameters
import OdeClientServer.Client.View
import OdeClientServer.Client.Window
import OdeClientServer.Client.TaskSolverService
import OdeClientServer.Results.Clock
import OdeClientServer.Results.FirstStage
import OdeClientServer.Results.Trajectory
import OdeClientServer.Results.Coverage
import OdeClientServer.Results.Order
import OdeClientServer.Results.Stability
import OdeClientServer.Results.Leftover
import OdeClientServer.Results.Rejection
import OdeClientServer.Results.Switching
import OdeClientServer.Results.StabilityControl
import OdeClientServer.Results.Conservation
import OdeClientServer.Results.Bounds
import OdeClientServer.Results.Repeatability
import OdeClientServer.Results.Retries
import OdeClientServer.Results.DoubleRetries
import OdeClientServer.Results.Spinning
import OdeClientServer.Results.Termination
import OdeClientServer.Results.Settling
import OdeClientServer.Results.Acceptance
import OdeClientServer.Results.Prediction
import OdeClientServer.Results.Damping
import OdeClientServer.Results.Streaming
import OdeClientServer.Results.Identity
import OdeClientServer.Results.Export
import OdeClientServer.Results.CsvRoundTrip
import OdeClientServer.Results.Drawing
import OdeClientServer.Results.BreakCount
import OdeClientServer.Results.Convergence
import OdeClientServer.Results.Answered
import OdeClientServer.Results.LinearGrowth
import OdeClientServer.Results.DispfGrowth
import OdeClientServer.Results.LinearRequests
import OdeClientServer.Results.Requests
import OdeClientServer.Results.Axes
import OdeClientServer.Results.Redraw
import OdeClientServer.Results.MainWindow
import OdeClientServer.Results.Timeline
import OdeClientServer.Results.EndToEnd
