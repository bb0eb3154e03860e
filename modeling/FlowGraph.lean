import FlowGraph.Main
import FlowGraph.Archive.Shape
import FlowGraph.Tool.Directory
import FlowGraph.Proofs.Transcript
import FlowGraph.Proofs.Folding
import FlowGraph.Proofs.Widening
import FlowGraph.Proofs.RoundTrip
import FlowGraph.Proofs.Targeting
import FlowGraph.Proofs.Pruning
import FlowGraph.Proofs.Keeping
import FlowGraph.Proofs.Nesting
import FlowGraph.Proofs.Packing
import FlowGraph.Proofs.Properties
import FlowGraph.Proofs.Unpacking
import FlowGraph.Proofs.Decimals
import FlowGraph.Proofs.Digits
import FlowGraph.Proofs.Numerals
import FlowGraph.Proofs.Quoting
import FlowGraph.Proofs.Parsing
import FlowGraph.Proofs.Rereading
import FlowGraph.Proofs.Saving
import FlowGraph.Proofs.Quieting
import FlowGraph.Proofs.Running
import FlowGraph.Proofs.Transforming
import FlowGraph.Proofs.Pipeline
import FlowGraph.Proofs.Watching
import FlowGraph.Proofs.Assigning
import FlowGraph.Proofs.Converting
import FlowGraph.Proofs.Cycles
import FlowGraph.Proofs.Counting
import FlowGraph.Proofs.Mapping
import FlowGraph.Proofs.Canonical
import FlowGraph.Proofs.Collapsing
import FlowGraph.Proofs.Refolding
import FlowGraph.Proofs.Substituting
import FlowGraph.Proofs.Rekeying
import FlowGraph.Proofs.Repruning
import FlowGraph.Proofs.Optimising
import FlowGraph.Proofs.Shapes
import FlowGraph.Proofs.Resetting
import FlowGraph.Proofs.Locating
import FlowGraph.Proofs.Blaming
import FlowGraph.Proofs.Printing
import FlowGraph.Proofs.Retyping
import FlowGraph.Proofs.Overwriting
import FlowGraph.Proofs.Replacing
import FlowGraph.Proofs.Closure
import FlowGraph.Proofs.Sequences
import FlowGraph.Proofs.Merging
