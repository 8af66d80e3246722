import Strided.Layout
import Strided.Offsets

set_option autoImplicit false

namespace Strided

structure View where
  buffer : Nat
  layout : Layout
  offset : Nat
  deriving DecidableEq, Repr

namespace View

def dims (v : View) : Shape := v.layout.dims

def rank (v : View) : Nat := v.layout.rank

def size (v : View) : Result Nat := v.layout.size

def isContiguous (v : View) : Bool := v.layout.isContiguous

def offsets (v : View) : Result Offsets := Offsets.ofLayout v.layout v.offset

def cellAt (v : View) (distance : Int) : Result Nat := do
  let position ← Address.add (Address.signed v.offset) distance
  .ok (Address.unsigned position)

def cellOf (v : View) (index : List Nat) : Result Nat := do
  let distance ← v.layout.checkedOffsetOf index
  v.cellAt distance

def ofBuffer (buffer length : Nat) (dims : Shape) (strides : List Int) (offset : Nat) : Result View := do
  let layout ← Layout.ofStrides dims strides
  layout.checkBounds length offset
  .ok { buffer, layout, offset }

/-- The view at coordinate `i` of an axis that has one. -/
def slabAt (v : View) (axis i : Nat) : Result View := do
  let stride := ((v.layout.axes[axis]?).map Axis.stride).getD 0
  let distance ← Address.mul (Address.signed i) stride
  let offset ← v.cellAt distance
  .ok { v with layout := v.layout.dropAxis axis, offset }

def slabAlong (v : View) (axis i : Nat) : Result View := do
  let _ ← v.layout.withoutAxis axis
  let extent := (v.dims[axis]?).getD 0
  if extent ≤ i then refuse (.indexOutOfBounds (v.dims.origin.set axis i) v.dims)
  else v.slabAt axis i

def slab (v : View) (i : Nat) : Result View := v.slabAlong 0 i

def permuted (v : View) (perm : List Nat) : Result View := do
  let layout ← v.layout.permuted perm
  .ok { v with layout }

def broadcastTo (v : View) (target : Shape) : Result View := do
  let layout ← v.layout.broadcastTo target
  .ok { v with layout }

def reshape (v : View) (dims : Shape) : Result View := do
  let layout ← Layout.rowMajor dims
  let target ← layout.size
  let size ← v.size
  if target ≠ size then refuse (.shapeMismatch v.dims dims)
  else if v.isContiguous then .ok { v with layout }
  else refuse .notContiguous

end View

structure Slabs where
  source : View
  axis : Nat
  front : Nat
  back : Nat
  deriving DecidableEq, Repr

namespace Slabs

/-- All slabs along an axis, and none where the view has no such axis. -/
def ofAxis (v : View) (axis : Nat) : Slabs :=
  { source := v, axis, front := 0, back := (v.dims[axis]?).getD 0 }

def along (v : View) (axis : Nat) : Result Slabs :=
  if axis < v.rank then .ok (ofAxis v axis) else refuse (.invalidAxis axis v.rank)

def length (s : Slabs) : Nat := s.back-s.front

def next? (s : Slabs) : Result (Option (View × Slabs)) :=
  if s.front < s.back then do
    let slab ← s.source.slabAt s.axis s.front
    .ok (some (slab,{ s with front := s.front+1 }))
  else .ok none

def nextBack? (s : Slabs) : Result (Option (View × Slabs)) :=
  if s.front < s.back then do
    let slab ← s.source.slabAt s.axis (s.back-1)
    .ok (some (slab,{ s with back := s.back-1 }))
  else .ok none

def walk (s : Slabs) : Walk View := Walk.unfold next? s.length s

end Slabs

/-- The walk over the slabs along the outermost axis. A view without axes has none. -/
def View.slabs (v : View) : Walk View := (Slabs.ofAxis v 0).walk

end Strided
