import Strided.Proofs.Acceptance
import Strided.Proofs.Addresses
import Strided.Proofs.Alike
import Strided.Proofs.AxisFold
import Strided.Proofs.AxisOrder
import Strided.Proofs.AxisOutcomes
import Strided.Proofs.AxisScan
import Strided.Proofs.Blocks
import Strided.Proofs.BothEnds
import Strided.Proofs.Bounds
import Strided.Proofs.CommonShape
import Strided.Proofs.Composition
import Strided.Proofs.Contiguity
import Strided.Proofs.Corners
import Strided.Proofs.Counting
import Strided.Proofs.Distance
import Strided.Proofs.Division
import Strided.Proofs.Emptiness
import Strided.Proofs.EvenSteps
import Strided.Proofs.Extrema
import Strided.Proofs.Filled
import Strided.Proofs.Flattened
import Strided.Proofs.FoldAway
import Strided.Proofs.Full
import Strided.Proofs.InPlace
import Strided.Proofs.Index
import Strided.Proofs.IndexedWalk
import Strided.Proofs.LayoutIndependence
import Strided.Proofs.LeastTarget
import Strided.Proofs.Lifting
import Strided.Proofs.Mismatches
import Strided.Proofs.Nesting
import Strided.Proofs.Numbering
import Strided.Proofs.OfFn
import Strided.Proofs.Order
import Strided.Proofs.Ownership
import Strided.Proofs.PermutedCopy
import Strided.Proofs.Reachable
import Strided.Proofs.Refusals
import Strided.Proofs.Registrations
import Strided.Proofs.Reindexing
import Strided.Proofs.Reshaping
import Strided.Proofs.Restretching
import Strided.Proofs.Result
import Strided.Proofs.Resumed
import Strided.Proofs.RowMajor
import Strided.Proofs.SelfMap
import Strided.Proofs.Shifts
import Strided.Proofs.Slabs
import Strided.Proofs.Stacking
import Strided.Proofs.Stores
import Strided.Proofs.Transients
import Strided.Proofs.Translation
import Strided.Proofs.Transposed
import Strided.Proofs.Traversal
import Strided.Proofs.Unshared
import Strided.Proofs.Values
import Strided.Proofs.Visited
import Strided.Proofs.Walk
import Strided.Proofs.WellFormed
import Strided.Proofs.Word
import Strided.Proofs.Writes
import Strided.Session
