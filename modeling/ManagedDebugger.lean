import ManagedDebugger.Expr.Json
import ManagedDebugger.Main
import ManagedDebugger.Proofs.Breakpoint.Completeness
import ManagedDebugger.Proofs.Breakpoint.Consistency
import ManagedDebugger.Proofs.Breakpoint.Replacement
import ManagedDebugger.Proofs.Eval.ConditionalOperators
import ManagedDebugger.Proofs.Eval.Discipline
import ManagedDebugger.Proofs.Eval.Indexing
import ManagedDebugger.Proofs.Eval.Local
import ManagedDebugger.Proofs.Eval.PassedArguments
import ManagedDebugger.Proofs.Eval.ShownIntegers
import ManagedDebugger.Proofs.Eval.StringTexts
import ManagedDebugger.Proofs.Expr.Checking
import ManagedDebugger.Proofs.Expr.OperatorChains
import ManagedDebugger.Proofs.Expr.RoundTrip
import ManagedDebugger.Proofs.Server.Answers
import ManagedDebugger.Proofs.Server.Sessions
import ManagedDebugger.Proofs.Session.ArrayPages
import ManagedDebugger.Proofs.Session.BreakpointHits
import ManagedDebugger.Proofs.Session.EvaluateNames
import ManagedDebugger.Proofs.Session.FailedRequests
import ManagedDebugger.Proofs.Session.HandleHistory
import ManagedDebugger.Proofs.Session.HeldAtCreation
import ManagedDebugger.Proofs.Session.Informing
import ManagedDebugger.Proofs.Session.KeptCurrent
import ManagedDebugger.Proofs.Session.MemberListing
import ManagedDebugger.Proofs.Session.ModuleRace
import ManagedDebugger.Proofs.Session.Resumption
import ManagedDebugger.Proofs.Session.Routing
import ManagedDebugger.Proofs.Session.Serving
import ManagedDebugger.Proofs.Session.StepAtStop
import ManagedDebugger.Proofs.Step.Continuation
import ManagedDebugger.Proofs.Step.Watched
import ManagedDebugger.Proofs.Symbol.Documents
import ManagedDebugger.Proofs.Value.IntegerOperators
import ManagedDebugger.Proofs.Wire.DeclaredCounts
import ManagedDebugger.Proofs.Wire.Framing
import ManagedDebugger.Proofs.Wire.Replies
import ManagedDebugger.Simulation.Agent
import ManagedDebugger.Simulation.Fixture
import ManagedDebugger.Simulation.Reaction
import ManagedDebugger.Simulation.Recipe
import ManagedDebugger.Wire.Connection
import ManagedDebugger.Wire.EventLoop
