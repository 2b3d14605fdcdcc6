import Rill.Command.Directory
import Rill.Main
import Rill.Proofs.Assembly.Preservation
import Rill.Proofs.Reduction.Layout
import Rill.Proofs.Reduction.Tiling
import Rill.Proofs.Reduction.Merging
import Rill.Proofs.Reduction.Items
import Rill.Proofs.Reduction.Sites
import Rill.Proofs.Reduction.Brackets
import Rill.Proofs.Reduction.Simulation
import Rill.Proofs.Reduction.Faithful
import Rill.Proofs.Reduction.Views
import Rill.Proofs.Reduction.Passes
import Rill.Proofs.Reduction.Grammar
import Rill.Proofs.Reduction.Matching
import Rill.Proofs.Build.Annotations
import Rill.Proofs.Likeness.Contexts
import Rill.Proofs.Likeness.Phrases
import Rill.Proofs.Build.Globals
import Rill.Proofs.Build.Stages
import Rill.Proofs.Likeness.Building
import Rill.Proofs.Likeness.Order
import Rill.Proofs.Token.Lexing
import Rill.Proofs.Straight.Programs
import Rill.Proofs.Straight.Running
import Rill.Proofs.Build.Lexical
import Rill.Proofs.Run.Results
import Rill.Proofs.Run.Rerun
import Rill.Proofs.Token.Partition
import Rill.Proofs.Token.Printing
import Rill.Proofs.Reduction.Spans
import Rill.Proofs.Build.Resolution
import Rill.Proofs.Assembly.CallTargets
import Rill.Proofs.Reduction.Shapes
import Rill.Proofs.Build.Signatures
import Rill.Proofs.Build.Assignments
import Rill.Proofs.Reduction.Literals
import Rill.Proofs.Build.Inventory
import Rill.Proofs.Run.Effects
import Rill.Proofs.Assembly.Blocks
import Rill.Proofs.Reduction.Locality
import Rill.Proofs.Reduction.Arrows
import Rill.Proofs.Assembly.EntryPoint
import Rill.Proofs.Text.Lines
import Rill.Proofs.Text.Positions
import Rill.Proofs.Diagnostic.Marks
import Rill.Proofs.Diagnostic.Location
import Rill.Proofs.Diagnostic.Overlaps
import Rill.Proofs.Command.Assembling
import Rill.Proofs.Diagnostic.Colors
import Rill.Proofs.Command.Interleaving
import Rill.Proofs.Build.Shadowing
import Rill.Proofs.Reduction.Calls
import Rill.Proofs.Reduction.Hoisting
import Rill.Proofs.Reduction.Depth
