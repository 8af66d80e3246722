import Strided.Block

set_option autoImplicit false

namespace Strided.Snapshot

def deepCopy {α : Type} [Element α] (s : Snapshot α) : Result (Block α) := do
  let data ← s.toList
  let layout ← Layout.rowMajor s.dims
  .ok { layout, data }

def flatten {α : Type} [Element α] (s : Snapshot α) : Result (Block α) := do
  let data ← s.toList
  .ok (Block.ofVector data)

/-- The array itself where it is contiguous, and otherwise a copy of it in a new buffer. -/
def asContiguous {α : Type} [Element α] (s : Snapshot α) : Result (View × Heap α) :=
  if s.view.isContiguous then .ok (s.view,s.heap)
  else do
    let b ← s.deepCopy
    .ok (s.heap.place b)

def stackShaped {α : Type} [Element α] (h : Heap α) (itemDims : Shape) (items : List View) : Result (Block α) :=
  Block.stack View.dims (fun v => (Snapshot.mk h v).walk) itemDims items

def stack {α : Type} [Element α] (h : Heap α) (items : List View) : Result (Block α) :=
  match items with
  | [] => refuse .emptyStack
  | first :: _ => stackShaped h first.dims items

/-- The place of the element of rank `r`: for each axis of the result, the coordinate along the axis of the source
it comes from, times the stride it gets. -/
def placeOf (r : Nat) : List (Axis × Int) → Nat → Result Nat
  | [], total => .ok total
  | (source,stride) :: axes, total => do
    let coordinate := r/Address.unsigned source.stride%source.extent
    let step ← Address.mulCount coordinate (Address.unsigned stride)
    let total ← Address.addCount total step
    placeOf r axes total

def scatter {α : Type} (axes : List (Axis × Int)) : Nat → List α → Array α → Result (Array α)
  | _, [], out => .ok out
  | r, x :: xs, out => do
    let place ← placeOf r axes 0
    if place < out.size then scatter axes (r+1) xs (out.setIfInBounds place x)
    else abort (.cellOutOfBounds out.size place)

/-- Axis `k` of the copy is axis `perm[k]`. The values are read once in row-major order, and the rank of each is
taken apart into coordinates by the row-major strides of the source. -/
def transposeAxes {α : Type} [Element α] (s : Snapshot α) (perm : List Nat) : Result (Block α) := do
  Permutation.validate perm s.rank
  let outDims := Permutation.arrange perm s.dims
  let data ← s.toList
  if data.isEmpty then Block.ofList outDims []
  else
    let sourceAxes ← Layout.rowMajorAxes s.dims
    let outStrides ← Layout.rowMajorStrides outDims
    let axes := (Permutation.arrange perm sourceAxes).zip outStrides
    let out ← scatter axes 0 data data.toArray
    Block.ofList outDims out.toList

def transpose {α : Type} [Element α] (s : Snapshot α) : Result (Block α) :=
  s.transposeAxes (List.range s.rank).reverse

end Strided.Snapshot
