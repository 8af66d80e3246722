import Strided.Element
import Strided.Snapshot.Copy
import Strided.View

set_option autoImplicit false

/-!
Reductions and scans along one axis, by recursion on the axis. Along the only axis of a vector it is a fold. Along
the outermost of several axes the slabs are folded together element by element. Along any other axis the same is
done in every slab, one axis further out, and the results are stacked.
-/
namespace Strided.Snapshot

def foldStart {α : Type} [Element α] (h : Heap α) (identity : Option α) (f : α → α → Result α) (first : View) :
    Result (Block α) :=
  match identity with
  | some e => do
    let b ← Block.filled first.dims e
    let w ← (Snapshot.mk h first).walk
    b.assign (w.map (f e))
  | none => (Snapshot.mk h first).deepCopy

def foldPart {α : Type} [Element α] (h : Heap α) (f : α → α → Result α) (acc : Block α) (slab : View) :
    Result (Block α) := do
  let left ← acc.walk
  let right ← (Snapshot.mk h slab).walk
  let folded ← (Walk.zipWith f left right).collect
  acc.assign (Walk.ofList folded)

def foldSlabs {α : Type} [Element α] (h : Heap α) (operation : String) (identity : Option α)
    (f : α → α → Result α) : Nat → View → Result (Block α)
  | axis+1, v => do
    let parts ← (v.slabs.map fun slab => foldSlabs h operation identity f axis slab).toList
    Block.stackBlocks ((v.dims.drop 1).eraseIdx axis) parts
  | 0, v =>
    if v.rank = 1 then do
      let w ← (Snapshot.mk h v).walk
      let x ← w.reduce operation identity f
      .ok (Block.scalar x)
    else
      match v.slabs.steps with
      | .done =>
        match identity with
        | some e => Block.filled (v.dims.drop 1) e
        | none => refuse (.emptyReduction operation)
      | .fault cause => .error cause
      | .next first rest => do
        let start ← foldStart h identity f first
        (rest ()).foldl (foldPart h f) start

/-- Reduces along `axis`; the result has the other axes. -/
def foldAlong {α : Type} [Element α] (operation : String) (identity : Option α) (f : α → α → Result α)
    (s : Snapshot α) (axis : Nat) : Result (Block α) :=
  match s.dims[axis]? with
  | none => refuse (.invalidAxis axis s.rank)
  | some extent =>
    if identity.isNone && extent == 0 then refuse (.emptyReduction operation)
    else foldSlabs s.heap operation identity f axis s.view

def reduceAxis {α : Type} [Element α] (r : Reduction α) (s : Snapshot α) (axis : Nat) : Result (Block α) :=
  s.foldAlong r.name r.identity r.combine axis

def reduceAxisWith {α : Type} [Element α] (f : α → α → Result α) (s : Snapshot α) (axis : Nat) :
    Result (Block α) :=
  s.foldAlong "reduce" none f axis

def foldAxis {α : Type} [Element α] (init : α) (f : α → α → Result α) (s : Snapshot α) (axis : Nat) :
    Result (Block α) :=
  s.foldAlong "fold" (some init) f axis

/-- The bytes of a handle on an array, of which a scan keeps one for each slab. -/
def handleWidth : Nat := 152

def scanNext {α : Type} [Element α] (h : Heap α) (itemDims : Shape) (f : α → α → Result α)
    (parts : List (Block α)) (slab : View) : Result (Block α) :=
  match parts with
  | [] => (Snapshot.mk h slab).deepCopy
  | previous :: _ => do
    let left ← previous.walk
    let right ← (Snapshot.mk h slab).walk
    let data ← (Walk.zipWith f left right).collect
    Block.ofList itemDims data

def scanPart {α : Type} [Element α] (h : Heap α) (itemDims : Shape) (f : α → α → Result α)
    (parts : List (Block α)) (slab : View) : Result (List (Block α)) := do
  let next ← scanNext h itemDims f parts slab
  .ok (next :: parts)

def scanSlabs {α : Type} [Element α] (h : Heap α) (f : α → α → Result α) : Nat → View → Result (Block α)
  | axis+1, v => do
    let parts ← (v.slabs.map fun slab => scanSlabs h f axis slab).toList
    Block.stackBlocks (v.dims.drop 1) parts
  | 0, v =>
    if v.rank = 1 then do
      let w ← (Snapshot.mk h v).walk
      let data ← w.scan f
      .ok (Block.ofVector data)
    else do
      Capacity.reserve handleWidth ((v.dims[0]?).getD 0)
      let parts ← v.slabs.foldl (scanPart h (v.dims.drop 1) f) []
      Block.stackBlocks (v.dims.drop 1) parts.reverse

/-- The running folds along `axis`. The result has the extents of the array and starts with its first slab. -/
def scanAxis {α : Type} [Element α] (f : α → α → Result α) (s : Snapshot α) (axis : Nat) : Result (Block α) :=
  if axis < s.rank then scanSlabs s.heap f axis s.view else refuse (.invalidAxis axis s.rank)

def cumsumAxis {α : Type} [Element α] [Arithmetic α] (s : Snapshot α) (axis : Nat) : Result (Block α) :=
  s.scanAxis Arithmetic.add axis

def cumprodAxis {α : Type} [Element α] [Arithmetic α] (s : Snapshot α) (axis : Nat) : Result (Block α) :=
  s.scanAxis Arithmetic.mul axis

end Strided.Snapshot
