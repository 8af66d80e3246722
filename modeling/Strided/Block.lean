import Strided.Snapshot

set_option autoImplicit false

/-!
Fresh arrays: a row-major layout and its values in order, not yet in any buffer. Every operation that copies or
computes yields a block; putting the block on a heap gives it a buffer that no older view names.
-/
namespace Strided

structure Block (α : Type) where
  layout : Layout
  data : List α

namespace Block

def dims {α : Type} (b : Block α) : Shape := b.layout.dims

def ofList {α : Type} (dims : Shape) (data : List α) : Result (Block α) := do
  let layout ← Layout.rowMajor dims
  let size ← layout.size
  if size = data.length then .ok { layout, data } else refuse (.lengthMismatch size data.length)

def ofVector {α : Type} (data : List α) : Block α := { layout := ⟨[⟨data.length,1⟩]⟩, data }

def scalar {α : Type} (x : α) : Block α := { layout := ⟨[]⟩, data := [x] }

def filled {α : Type} [Element α] (dims : Shape) (x : α) : Result (Block α) := do
  let layout ← Layout.rowMajor dims
  let size ← layout.size
  Capacity.reserve (Element.width α) size
  .ok { layout, data := List.replicate size x }

/-- The element at each index is what `f` answers when it is asked for the index. It is asked for the indices in row-major
order, and it may do more than answer, such as keep count. -/
def ofFnM {m : Type → Type} {α : Type} [Monad m] [MonadLiftT (Except Fault) m] [Element α] (dims : Shape)
    (f : List Nat → m α) : m (Block α) := do
  let layout ← Layout.rowMajor dims
  let size ← layout.size
  Capacity.reserve (Element.width α) size
  let data ← (dims.visit size).mapM f
  return { layout, data }

def ofFn {α : Type} [Element α] (dims : Shape) (f : List Nat → Result α) : Result (Block α) := ofFnM dims f

/-- The walk over the values, once their number has been found countable. -/
def walk {α : Type} (b : Block α) : Result (Walk α) := do
  let _ ← b.layout.size
  .ok (Walk.ofList b.data)

/-- The block with the values of a walk, which must have as many steps as there are elements. -/
def assign {α : Type} (b : Block α) (w : Walk α) : Result (Block α) := do
  let size ← b.layout.size
  if size = w.length then do
    let data ← w.toList
    .ok { b with data }
  else refuse (.lengthMismatch size w.length)

/-- Joins items of one shape along a new outermost axis. Each item is known by its extents and its walk. -/
def stack {ι α : Type} [Element α] (dimsOf : ι → Shape) (walkOf : ι → Result (Walk α)) (itemDims : Shape)
    (items : List ι) : Result (Block α) :=
  match items.find? fun item => dimsOf item ≠ itemDims with
  | some bad => refuse (.shapeMismatch itemDims (dimsOf bad))
  | none => do
    let itemSize ← itemDims.size
    let total ← Address.mulCount items.length itemSize
    Capacity.reserve (Element.width α) total
    let rows ← items.mapM fun item => do
      let w ← walkOf item
      w.toList
    let layout ← Layout.rowMajor (items.length :: itemDims)
    .ok { layout, data := rows.flatten }

def stackBlocks {α : Type} [Element α] (itemDims : Shape) (items : List (Block α)) : Result (Block α) :=
  stack Block.dims Block.walk itemDims items

end Block

def Heap.place {α : Type} (h : Heap α) (b : Block α) : View × Heap α :=
  let (buffer,h) := h.alloc b.data
  ({ buffer, layout := b.layout, offset := 0 },h)

/-- The block read in a heap that holds nothing else. -/
def Block.snapshot {α : Type} (b : Block α) : Snapshot α :=
  let (view,heap) := Heap.empty.place b
  { heap, view }

end Strided
