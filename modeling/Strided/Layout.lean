import Strided.Shape

set_option autoImplicit false

/-!
Layouts: an extent and a stride for each axis, outermost first. The element at an index lies at the sum of the
index times the strides, counted in cells from wherever the array starts. A row-major layout steps the innermost
axis by one cell; a view may step by any signed amount, 0 on an axis that was stretched.
-/
namespace Strided

structure Axis where
  extent : Nat
  stride : Int
  deriving DecidableEq, Repr

structure Layout where
  axes : List Axis
  deriving DecidableEq, Repr

namespace Layout

def dims (l : Layout) : Shape := l.axes.map Axis.extent

def strides (l : Layout) : List Int := l.axes.map Axis.stride

def rank (l : Layout) : Nat := l.axes.length

def size (l : Layout) : Result Nat := l.dims.size

def isEmpty (l : Layout) : Bool := l.axes.any (·.extent == 0)

/-- The axes of a row-major layout: the innermost stride is 1, and each stride outside another one is that one
times its extent. -/
def rowMajorAxes : Shape → Result (List Axis)
  | [] => .ok []
  | [d] => .ok [⟨d,1⟩]
  | d :: e :: s => do
    let inner ← rowMajorAxes (e :: s)
    match inner with
    | [] => .ok []
    | a :: _ =>
      let stride ← Address.mul a.stride (Address.signed a.extent)
      .ok (⟨d,stride⟩ :: inner)

def rowMajor (s : Shape) : Result Layout := do
  let axes ← rowMajorAxes s
  .ok ⟨axes⟩

def rowMajorStrides (s : Shape) : Result (List Int) := do
  let l ← rowMajor s
  .ok l.strides

def ofStrides (dims : Shape) (strides : List Int) : Result Layout :=
  if dims.length = strides.length then .ok ⟨List.zipWith Axis.mk dims strides⟩
  else refuse (.rankMismatch dims.length strides.length)

/-- Whether the axes, innermost first, step through consecutive cells from a stride of `expected` on. An axis of
extent 1 never moves, so its stride is not looked at. -/
def isConsecutive : Int → List Axis → Bool
  | _, [] => true
  | expected, a :: axes =>
    if a.extent ≤ 1 then isConsecutive expected axes
    else a.stride == expected &&
      isConsecutive (Address.saturatingMul expected (Address.signed a.extent)) axes

def isContiguous (l : Layout) : Bool := l.isEmpty || isConsecutive 1 l.axes.reverse

/-- The cells between the start and `index`, added up axis by axis onto `total`. Coordinates without an axis and
axes without a coordinate are passed over. -/
def offsetFrom : Int → List Nat → List Axis → Result Int
  | total, i :: index, a :: axes => do
    let step ← Address.mul (Address.signed i) a.stride
    let total ← Address.add total step
    offsetFrom total index axes
  | total, _, _ => .ok total

def offsetOf (l : Layout) (index : List Nat) : Result Int := offsetFrom 0 index l.axes

def checkedOffsetOf (l : Layout) (index : List Nat) : Result Int :=
  if index.length ≠ l.rank then refuse (.rankMismatch index.length l.rank)
  else if (index.zip l.dims).any fun (i,d) => d ≤ i then refuse (.indexOutOfBounds index l.dims)
  else l.offsetOf index

def permuted (l : Layout) (perm : List Nat) : Result Layout := do
  Permutation.validate perm l.rank
  .ok ⟨Permutation.arrange perm l.axes⟩

/-- The layout without `axis`, or the same layout where there is no such axis. -/
def dropAxis (l : Layout) (axis : Nat) : Layout := ⟨l.axes.eraseIdx axis⟩

def withoutAxis (l : Layout) (axis : Nat) : Result Layout :=
  if axis < l.rank then .ok (l.dropAxis axis) else refuse (.invalidAxis axis l.rank)

/-- Stretching with the innermost axis first: an axis keeps its stride where the extents agree, and an axis of
extent 1 and every new axis stand still. -/
def stretchReversed : List Axis → Shape → Option (List Axis)
  | [], target => some (target.map (⟨·,0⟩))
  | _ :: _, [] => none
  | a :: axes, d :: target => do
    let axis ← if a.extent = d then some a else if a.extent = 1 then some ⟨d,0⟩ else none
    let rest ← stretchReversed axes target
    some (axis :: rest)

def broadcastTo (l : Layout) (target : Shape) : Result Layout :=
  match stretchReversed l.axes.reverse target.reverse with
  | some axes => .ok ⟨axes.reverse⟩
  | none => refuse (.shapeMismatch l.dims target)

def text (l : Layout) : String :=
  "Layout \x7b dims: " ++ Text.bracketedNats l.dims ++ ", strides: " ++ Text.bracketedInts l.strides ++ " \x7d"

end Layout

end Strided

namespace Strided.Layout

structure Reach where
  low : Int
  high : Int
  deriving DecidableEq, Repr

/-- A sum that leaves the signed range is refused. -/
def checkedAdd (x y : Int) : Result Int :=
  if Address.IsSigned (x+y) then .ok (x+y) else refuse .offsetOverflow

def checkedMul (x y : Int) : Result Int :=
  if Address.IsSigned (x*y) then .ok (x*y) else refuse .offsetOverflow

def Reach.extend (r : Reach) (a : Axis) : Result Reach :=
  if a.extent ≤ 1 then .ok r
  else do
    let last ← Address.sub (Address.signed a.extent) 1
    let travel ← checkedMul a.stride last
    if 0 ≤ travel then
      let high ← checkedAdd r.high travel
      .ok { r with high }
    else
      let low ← checkedAdd r.low travel
      .ok { r with low }

/-- Accepts the layouts that, started at `offset`, stay within `length` cells. -/
def checkBounds (l : Layout) (length offset : Nat) : Result Unit :=
  if l.isEmpty then .ok ()
  else if Address.maxSigned < (offset : Int) then refuse .offsetOverflow
  else do
    let reach ← l.axes.foldlM Reach.extend ⟨offset,offset⟩
    if reach.low < 0 ∨ length ≤ Address.unsigned reach.high then refuse (.outOfBuffer length)
    else .ok ()

end Strided.Layout
