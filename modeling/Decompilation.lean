import Decompilation.Main
import Decompilation.Proofs.Service.Layout
import Decompilation.Proofs.Source.Division
import Decompilation.Proofs.Source.Chunk
import Decompilation.Proofs.Source.Rejoin
import Decompilation.Proofs.Runner.Output
import Decompilation.Proofs.Service.Spill
import Decompilation.Proofs.Service.Project
import Decompilation.Proofs.Service.Again
import Decompilation.Proofs.Source.Append
import Decompilation.Proofs.Service.Containment
import Decompilation.Proofs.Service.Frame
import Decompilation.Proofs.Source.Resplit
import Decompilation.Proofs.Project.Exact
import Decompilation.Proofs.Runner.Restart
import Decompilation.Proofs.Settings.Update
import Decompilation.Proofs.Runner.Probe
import Decompilation.Proofs.Runner.Outcome
import Decompilation.Proofs.Source.Nesting
import Decompilation.Proofs.Source.Directive
import Decompilation.Proofs.Project.Tree
import Decompilation.Proofs.Service.Selection
import Decompilation.Proofs.Runner.Failure
import Decompilation.Proofs.Source.Repeat
import Decompilation.Proofs.Service.SameFiles
import Decompilation.Proofs.Report.Listing
