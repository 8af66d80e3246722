import Strided.Snapshot.AlongAxis
import Strided.View.Write

set_option autoImplicit false

/-!
Arrays made in the heap that their operands are in. A copy is computed first and then put into a new buffer. A reduction
or a scan along an axis has arrays of its own underway: the slabs are folded into one that is allocated before and
overwritten slab by slab, and what is made of each slab stays in a buffer of its own until all of it is stacked.
-/
namespace Strided

namespace Update

def look {α β : Type} (question : Heap α → Result β) : Update α β := fun h => (question h,h)

def place {α : Type} (b : Block α) : Update α View := fun h =>
  let (v,h) := h.place b
  (.ok v,h)

/-- An array that is computed from the heap as it is now and then put into a new buffer. -/
def make {α : Type} (block : Heap α → Result (Block α)) : Update α View := do
  let b ← look block
  place b

def foldl {α β γ : Type} (f : γ → β → Update α γ) : γ → Steps β → Update α γ
  | acc, .done => ofResult (.ok acc)
  | _, .fault cause => ofResult (.error cause)
  | acc, .next x rest => do
    let acc ← f acc x
    foldl f acc (rest ())

def each {α β γ : Type} (f : β → Update α γ) (s : Steps β) : Update α (List γ) := do
  let reversed ← foldl (fun ys x => do
    let y ← f x
    ofResult (.ok (y :: ys))) [] s
  ofResult (.ok reversed.reverse)

end Update

namespace View

variable {α : Type} [Element α]

def stackShaped (itemDims : Shape) (items : List View) : Update α View :=
  Update.make fun h => Snapshot.stackShaped h itemDims items

/-- The array that the slabs are folded into, with the first of them in it. -/
def foldStart (identity : Option α) (f : α → α → Result α) (first : View) : Update α View :=
  match identity with
  | some e => do
    let acc ← Update.make fun _ => Block.filled first.dims e
    let sources ← Update.ofResult (first.reads (f e))
    acc.assignEach sources
    Update.ofResult (.ok acc)
  | none => Update.make fun h => (Snapshot.mk h first).deepCopy

/-- Folds one more slab into the array, element by element. All is computed before the first cell is overwritten. -/
def foldPart (f : α → α → Result α) (acc slab : View) : Update α Unit := do
  let folded ← Update.look fun h => do
    let left ← (Snapshot.mk h acc).walk
    let right ← (Snapshot.mk h slab).walk
    (Walk.zipWith f left right).collect
  acc.assign folded

def foldSlabs (operation : String) (identity : Option α) (f : α → α → Result α) : Nat → View → Update α View
  | axis+1, v => do
    let parts ← Update.each (foldSlabs operation identity f axis) v.slabs.steps
    stackShaped ((v.dims.drop 1).eraseIdx axis) parts
  | 0, v =>
    if v.rank = 1 then Update.make fun h => do
      let w ← (Snapshot.mk h v).walk
      let x ← w.reduce operation identity f
      .ok (Block.scalar x)
    else
      match v.slabs.steps with
      | .done =>
        match identity with
        | some e => Update.make fun _ => Block.filled (v.dims.drop 1) e
        | none => Update.ofResult (refuse (.emptyReduction operation))
      | .fault cause => Update.ofResult (.error cause)
      | .next first rest => do
        let acc ← foldStart identity f first
        perform ((rest ()).map fun slab => .ok (foldPart f acc slab))
        Update.ofResult (.ok acc)

def foldAlong (operation : String) (identity : Option α) (f : α → α → Result α) (v : View) (axis : Nat) :
    Update α View :=
  match v.dims[axis]? with
  | none => Update.ofResult (refuse (.invalidAxis axis v.rank))
  | some extent =>
    if identity.isNone && extent == 0 then Update.ofResult (refuse (.emptyReduction operation))
    else foldSlabs operation identity f axis v

/-- The running fold that ends with a slab, made from the array of the one that ends with the slab before it. -/
def scanNext (itemDims : Shape) (f : α → α → Result α) (parts : List View) (slab : View) : Update α View :=
  match parts with
  | [] => Update.make fun h => (Snapshot.mk h slab).deepCopy
  | previous :: _ => Update.make fun h => do
    let left ← (Snapshot.mk h previous).walk
    let right ← (Snapshot.mk h slab).walk
    let data ← (Walk.zipWith f left right).collect
    Block.ofList itemDims data

def scanPart (itemDims : Shape) (f : α → α → Result α) (parts : List View) (slab : View) : Update α (List View) := do
  let next ← scanNext itemDims f parts slab
  Update.ofResult (.ok (next :: parts))

def scanSlabs (f : α → α → Result α) : Nat → View → Update α View
  | axis+1, v => do
    let parts ← Update.each (scanSlabs f axis) v.slabs.steps
    stackShaped (v.dims.drop 1) parts
  | 0, v =>
    if v.rank = 1 then Update.make fun h => do
      let w ← (Snapshot.mk h v).walk
      let data ← w.scan f
      .ok (Block.ofVector data)
    else do
      Update.ofResult (Capacity.reserve Snapshot.handleWidth ((v.dims[0]?).getD 0))
      let parts ← Update.foldl (scanPart (v.dims.drop 1) f) [] v.slabs.steps
      stackShaped (v.dims.drop 1) parts.reverse

def scanAxis (f : α → α → Result α) (v : View) (axis : Nat) : Update α View :=
  if axis < v.rank then scanSlabs f axis v else Update.ofResult (refuse (.invalidAxis axis v.rank))

end View

end Strided
