import TaintReach.Disk
import TaintReach.Main
import TaintReach.Proofs.Html.Lines
import TaintReach.Proofs.LoopFree.Coverage
import TaintReach.Proofs.Report.Attribution
import TaintReach.Proofs.Report.RoundTrip
import TaintReach.Proofs.Report.Sources
import TaintReach.Proofs.Report.Table
import TaintReach.Proofs.Run.Independence
import TaintReach.Proofs.Run.Siblings
import TaintReach.Proofs.Run.StandardInput
import TaintReach.Proofs.Scope.Desk
import TaintReach.Proofs.Scope.Flow
import TaintReach.Proofs.Script.Declaring
import TaintReach.Proofs.Script.Literal.Truth
import TaintReach.Proofs.Script.TextOrder
import TaintReach.Proofs.Walk.Appending
import TaintReach.Proofs.Walk.Bookkeeping
import TaintReach.Proofs.Walk.Coalescing
import TaintReach.Proofs.Walk.DeadBranch
import TaintReach.Proofs.Walk.Folding
import TaintReach.Proofs.Walk.Renaming
import TaintReach.Proofs.Walk.Route
import TaintReach.Report.Table
import TaintReach.Scope.Indexed
