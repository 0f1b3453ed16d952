import Angie.Lib.KeyedList
import Angie.Lib.TwoView
import Angie.Smg.Calls
import Angie.Lib.Trace
import Angie.Values.Branch
import Angie.Values.IsCmp
import Angie.Lib.Bits
import Angie.Lib.Exec
import Angie.Values.Relations
import Angie.Values.Store
import Angie.Smg.Invariant
import Angie.Smg.Contents
import Angie.Smg.Provenance
import Angie.Smg.Access
import Angie.Smg.Frame
import Angie.Smg.History
import Angie.Lib.Layout
import Angie.Smg.Placement
import Angie.Frontend.Instructions
import Angie.Frontend.Node
import Angie.Frontend.Parser
import Angie.Frontend.Blocks
import Angie.Frontend.Worklist
import Angie.Frontend.Functions
import Angie.Frontend.Faithful
import Angie.Interp.Operations
import Angie.Interp.Steps
import Angie.Lib.WellNested
import Angie.Interp.CallReturn
import Angie.Interp.Refusals
import Angie.Interp.Transfers
import Angie.Values.Complement
import Angie.Values.Expressions
import Angie.Smg.Integrity
import Angie.Values.Comparisons
import Angie.Interp.Exploration
import Angie.Smg.Functional
import Angie.Smg.Abstraction
import Angie.Smg.Abstracted
import Angie.Smg.Folding
import Angie.Values.Scans
import Angie.Values.Untyped
import Angie.Values.Inserted
import Angie.Values.Forgetting
import Angie.Values.Mirror
import Angie.Values.Returns
import Angie.Values.BinOp
import Angie.Values.Overflow
import Angie.Lib.BitLength
import Angie.Values.Multiplication
import Angie.Values.Division
import Angie.Interp.Integers
import Angie.Smg.Derivations
import Angie.Interp.Indexing
import Angie.Values.Family
import Angie.Smg.Candidates
import Angie.Smg.Freeing
import Angie.Lib.Traversal
import Angie.Smg.Crawler
import Angie.Frontend.Predecessors
import Angie.Smg.Clearing
import Angie.Lib.Triple
import Angie.Smg.Paths
import Angie.Interp.Reached
import Angie.Interp.Termination
import Angie.Frontend.Constants
import Angie.Frontend.Invariants
import Angie.Frontend.Gathered
import Angie.Semantics.Machine
import Angie.Semantics.Files
import Angie.Semantics.Source
import Angie.Semantics.Instructions
import Angie.Semantics.Translation
import Angie.Semantics.Reading
import Angie.Semantics.Memory
import Angie.Semantics.Values
import Angie.Semantics.Following
import Angie.Semantics.Operations
import Angie.Semantics.Nodes
import Angie.Semantics.Soundness
import Angie.Semantics.Start
import Angie.Semantics.Reports
import Angie.Semantics.Loops
