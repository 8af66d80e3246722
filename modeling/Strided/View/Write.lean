import Strided.Snapshot

set_option autoImplicit false

/-!
Writes through a view. Each checks its arguments before the first write; then it goes through the cells of the
destination in row-major order. Where source and destination share a buffer the values are computed first, so that
no write changes a value still to be read. The one exception is `mapInto` of a view onto itself, which reads and
writes element by element. Sources may be of another heap, whose buffers are never that of the destination.
-/
namespace Strided

namespace View

def sharesBuffer (v w : View) : Bool := v.buffer == w.buffer

/-- Does the work of every step in order, up to the first that faults. -/
def perform {α : Type} : Steps (Update α Unit) → Heap α → Except Fault Unit × Heap α
  | .done, h => (.ok (),h)
  | .fault cause, h => (.error cause,h)
  | .next work rest, h =>
    match work h with
    | (.ok (),h) => perform (rest ()) h
    | (.error cause,h) => (.error cause,h)

def eachCell {α β : Type} (v : View) (work : Nat → Update α β) : Result (Walk (Update α β)) := do
  let o ← v.offsets
  .ok (o.walk.map fun cell => .ok (work cell))

def reads {α β : Type} (v : View) (f : α → Result β) : Result (Walk (Update α β)) :=
  v.eachCell fun cell => do
    let x ← Update.read v.buffer cell
    Update.ofResult (f x)

def yields {α : Type} (w : Walk α) : Walk (Update α α) := w.map fun x => .ok (Update.ofResult (.ok x))

/-- Writes what each source yields to the cells of the view in order; there must be as many sources as elements. -/
def assignEach {α : Type} (v : View) (sources : Walk (Update α α)) : Update α Unit := do
  let size ← Update.ofResult v.size
  if sources.length ≠ size then Update.ofResult (refuse (.lengthMismatch size sources.length))
  else
    let o ← Update.ofResult v.offsets
    let writes := Walk.zipWith (fun cell source => .ok (source >>= Update.write v.buffer cell)) o.walk sources
    perform writes.steps

def assign {α : Type} (v : View) (xs : List α) : Update α Unit := v.assignEach (yields (Walk.ofList xs))

def fill {α : Type} (v : View) (x : α) : Update α Unit := do
  let writes ← Update.ofResult (v.eachCell fun cell => Update.write v.buffer cell x)
  perform writes.steps

def set {α : Type} (v : View) (index : List Nat) (x : α) : Update α Unit := do
  let cell ← Update.ofResult (v.cellOf index)
  Update.write v.buffer cell x

/-- The same for a caller who promises that the index lies inside the extents. -/
def setPromised {α : Type} (v : View) (index : List Nat) (x : α) : Update α Unit := fun h =>
  let (r,h) := v.set index x h
  (Result.promised r,h)

def sameShape (v w : View) : Result Unit :=
  if v.rank ≠ w.rank then refuse (.rankMismatch v.rank w.rank)
  else if v.dims ≠ w.dims then refuse (.shapeMismatch v.dims w.dims)
  else .ok ()

def now {α : Type} [Element α] (v : View) : Update α (List α) := fun h => ((Snapshot.mk h v).toList,h)

def copyRun {α : Type} (dest source : View) (n : Nat) : Update α Unit :=
  let moves := Walk.tabulate n fun i => .ok (do
    let cell ← Update.ofResult (Address.addCount dest.offset i)
    let origin ← Update.ofResult (Address.addCount source.offset i)
    let x ← Update.read source.buffer origin
    Update.write dest.buffer cell x)
  perform moves.steps

def copyInto {α : Type} [Element α] (dest source : View) : Update α Unit := do
  Update.ofResult (dest.sameShape source)
  if dest.sharesBuffer source then
    let xs ← source.now
    dest.assign xs
  else if dest.isContiguous && source.isContiguous then
    let size ← Update.ofResult dest.size
    dest.copyRun source size
  else
    let sources ← Update.ofResult (source.reads .ok)
    dest.assignEach sources

end View

/-- An array that a write takes values from: one of the heap that is written to, or one of another heap, whose cells
may be of another type. -/
inductive Operand (δ : Type) : Type → Type 1 where
  | here (v : View) : Operand δ δ
  | elsewhere {α : Type} (s : Snapshot α) : Operand δ α

namespace Operand

instance {δ : Type} : Coe View (Operand δ δ) := ⟨.here⟩

instance {δ α : Type} : Coe (Snapshot α) (Operand δ α) := ⟨.elsewhere⟩

def view {δ α : Type} : Operand δ α → View
  | .here v => v
  | .elsewhere s => s.view

/-- The operand while the heap that is written to is `h`. -/
def snapshot {δ α : Type} (h : Heap δ) : Operand δ α → Snapshot α
  | .here v => ⟨h,v⟩
  | .elsewhere s => s

def through {δ α : Type} (v : View) : Operand δ α → Operand δ α
  | .here _ => .here v
  | .elsewhere s => .elsewhere (s.through v)

/-- Whether the operand is in the buffer of `dest`. No buffer of another heap is. -/
def aliases {δ α : Type} (dest : View) : Operand δ α → Bool
  | .here v => dest.sharesBuffer v
  | .elsewhere _ => false

def reads {δ α β : Type} (f : α → Result β) : Operand δ α → Result (Walk (Update δ β))
  | .here v => v.reads f
  | .elsewhere s => do
    let w ← s.walk
    .ok (w.map fun x => .ok (Update.ofResult (f x)))

end Operand

namespace View

def mapInto {α δ : Type} [Element δ] (f : α → Result δ) (dest : View) (source : Operand δ α) : Update δ Unit := do
  Update.ofResult (dest.sameShape source.view)
  let sameView := dest.layout == source.view.layout && dest.offset == source.view.offset
  if source.aliases dest && !sameView then
    let xs ← fun h => (((source.snapshot h).walk.bind fun w => (w.map f).collect),h)
    dest.assign xs
  else
    let sources ← Update.ofResult (source.reads f)
    dest.assignEach sources

/-- Writes `f` of the elements of two arrays, stretched to the extents of `dest`, to the element of `dest` at the
same index. -/
def zipMapInto {α β δ : Type} [Element δ] (f : α → β → Result δ) (dest : View) (left : Operand δ α)
    (right : Operand δ β) : Update δ Unit := do
  let v ← Update.ofResult (left.view.broadcastTo dest.dims)
  let w ← Update.ofResult (right.view.broadcastTo dest.dims)
  if left.aliases dest || right.aliases dest then
    let xs ← fun h => ((do
      let x ← ((left.through v).snapshot h).walk
      let y ← ((right.through w).snapshot h).walk
      (Walk.zipWith f x y).collect : Result (List δ)),h)
    dest.assign xs
  else
    let lefts ← Update.ofResult ((left.through v).reads .ok)
    let rights ← Update.ofResult ((right.through w).reads .ok)
    dest.assignEach (Walk.zipWith (fun left right => .ok (do
      let x ← left
      let y ← right
      Update.ofResult (f x y))) lefts rights)

end View

end Strided
