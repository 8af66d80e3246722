import Strided.Layout
import Strided.Walk

set_option autoImplicit false

/-!
The walk over the cells of an array in row-major order. A contiguous array steps from cell to cell. Any other
keeps an index and moves like an odometer: the innermost axis steps by its stride, and an axis that reaches its
extent goes back to 0 and lets the next one step.
-/
namespace Strided

/-- A walk underway: the index and position of the next element and the number of elements still to come. A
contiguous walk leaves `index` at the origin and derives the index from the distance walked. -/
structure Offsets where
  axes : List Axis
  index : List Nat
  start : Int
  position : Int
  remaining : Nat
  contiguous : Bool
  deriving DecidableEq, Repr

namespace Offsets

def ofLayout (l : Layout) (offset : Nat) : Result Offsets := do
  let remaining ← l.size
  .ok {
    axes := l.axes
    index := l.dims.origin
    start := Address.signed offset
    position := Address.signed offset
    remaining
    contiguous := l.isContiguous }

/-- One step of the odometer: whether every axis wrapped, the new index and the new position. -/
def turn : List Axis → List Nat → Int → Result (Bool × List Nat × Int)
  | a :: axes, i :: index, position => do
    let (wrapped,rest,position) ← turn axes index position
    if wrapped then
      let stepped ← Address.add position a.stride
      if i+1 < a.extent then .ok (false,(i+1) :: rest,stepped)
      else
        let travel ← Address.mul a.stride (Address.signed a.extent)
        let rewound ← Address.sub stepped travel
        .ok (true,0 :: rest,rewound)
    else .ok (false,i :: rest,position)
  | _, _, position => .ok (true,[],position)

/-- The next cell and the walk after it. The move to the element after is made at once, so that it is this call
that aborts where the move does. -/
def next? (o : Offsets) : Result (Option (Nat × Offsets)) :=
  match o.remaining with
  | 0 => .ok none
  | remaining+1 => do
    let cell := Address.unsigned o.position
    if o.contiguous then
      let position ← Address.add o.position 1
      .ok (some (cell,{ o with position, remaining }))
    else if remaining = 0 then .ok (some (cell,{ o with remaining }))
    else
      let (_,index,position) ← turn o.axes o.index o.position
      .ok (some (cell,{ o with index, position, remaining }))

/-- The digits of `n` over the extents, innermost last, and what is left above them. An extent of 0 counts as 1. -/
def digits : Shape → Nat → List Nat × Nat
  | [], n => ([],n)
  | d :: s, n =>
    let (inner,above) := digits s n
    (above % max d 1 :: inner,above / max d 1)

def currentIndex (o : Offsets) : List Nat :=
  if o.contiguous then
    (digits (o.axes.map Axis.extent) (Address.unsigned (o.position-o.start))).1
  else o.index

def walk (o : Offsets) : Walk Nat := Walk.unfold next? o.remaining o

def toList (o : Offsets) : Result (List Nat) := o.walk.toList

def skip : Nat → Offsets → Result Offsets
  | 0, o => .ok o
  | n+1, o => do
    match ← o.next? with
    | none => .ok o
    | some (_,rest) => skip n rest

end Offsets

end Strided
