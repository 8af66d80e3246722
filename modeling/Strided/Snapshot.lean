import Strided.Element
import Strided.View

set_option autoImplicit false

/-!
Buffers of cells and what is read of them. A buffer keeps its number and its length for ever; only its cells change.
Views name buffers by number, so a write through one view shows through every view of the same buffer. A view together
with the heap it is read in is the value of an array at one moment; what only reads is a function of it.
-/
namespace Strided

structure Heap (α : Type) where
  buffers : Array (Array α)

namespace Heap

def empty {α : Type} : Heap α := ⟨#[]⟩

def cells {α : Type} (h : Heap α) (buffer : Nat) : Array α := (h.buffers[buffer]?).getD #[]

def length {α : Type} (h : Heap α) (buffer : Nat) : Nat := (h.cells buffer).size

def read {α : Type} (h : Heap α) (buffer cell : Nat) : Result α :=
  match (h.cells buffer)[cell]? with
  | some x => .ok x
  | none => abort (.cellOutOfBounds (h.length buffer) cell)

/-- The heap with one cell overwritten. A cell outside the buffer changes nothing. -/
def put {α : Type} (h : Heap α) (buffer cell : Nat) (x : α) : Heap α :=
  ⟨h.buffers.modify buffer (·.setIfInBounds cell x)⟩

def alloc {α : Type} (h : Heap α) (cells : List α) : Nat × Heap α :=
  (h.buffers.size,⟨h.buffers.push cells.toArray⟩)

end Heap

/-- Work on a heap that may fault. What was written before a fault stays written. -/
abbrev Update (α β : Type) := ExceptT Fault (StateM (Heap α)) β

namespace Update

def ofResult {α β : Type} (r : Result β) : Update α β := fun h => (r,h)

def read {α : Type} (buffer cell : Nat) : Update α α := fun h => (h.read buffer cell,h)

def write {α : Type} (buffer cell : Nat) (x : α) : Update α Unit := fun h =>
  let length := h.length buffer
  if cell < length then (.ok (),h.put buffer cell x)
  else (abort (.cellOutOfBounds length cell),h)

end Update

structure Elements where
  buffer : Nat
  offsets : Offsets
  deriving DecidableEq, Repr

namespace Elements

def next? {α : Type} (e : Elements) (h : Heap α) : Result (Option (α × Elements)) := do
  match ← e.offsets.next? with
  | none => .ok none
  | some (cell,offsets) =>
    let x ← h.read e.buffer cell
    .ok (some (x,{ e with offsets }))

def length (e : Elements) : Nat := e.offsets.remaining

def walk {α : Type} (e : Elements) (h : Heap α) : Walk α := Walk.unfold (·.next? h) e.length e

def nextIndexed? {α : Type} (e : Elements) (h : Heap α) : Result (Option ((List Nat × α) × Elements)) := do
  let index := e.offsets.currentIndex
  match ← e.next? h with
  | none => .ok none
  | some (x,rest) => .ok (some ((index,x),rest))

def indexWidth : Nat := 64

def indexed {α : Type} [Element α] (e : Elements) (h : Heap α) : Result (List (List Nat × α)) :=
  let w : Walk (List Nat × α) := Walk.unfold (·.nextIndexed? h) e.length e
  w.collectWide (indexWidth+max 8 (Element.width α))

def skip {α : Type} (h : Heap α) : Nat → Elements → Result Elements
  | 0, e => .ok e
  | n+1, e => do
    match ← e.next? h with
    | none => .ok e
    | some (_,rest) => skip h n rest

end Elements

structure Snapshot (α : Type) where
  heap : Heap α
  view : View

namespace Snapshot

def dims {α : Type} (s : Snapshot α) : Shape := s.view.dims

def rank {α : Type} (s : Snapshot α) : Nat := s.view.rank

def through {α : Type} (s : Snapshot α) (v : View) : Snapshot α := { s with view := v }

def elements {α : Type} (s : Snapshot α) : Result Elements := do
  let offsets ← s.view.offsets
  .ok { buffer := s.view.buffer, offsets }

def walk {α : Type} (s : Snapshot α) : Result (Walk α) := do
  let e ← s.elements
  .ok (e.walk s.heap)

def toList {α : Type} [Element α] (s : Snapshot α) : Result (List α) := do
  let w ← s.walk
  w.collect

def get {α : Type} (s : Snapshot α) (index : List Nat) : Result α := do
  let cell ← s.view.cellOf index
  s.heap.read s.view.buffer cell

/-- The same for a caller who promises that the index lies inside the extents. -/
def getPromised {α : Type} (s : Snapshot α) (index : List Nat) : Result α := (s.get index).promised

def item {α : Type} (s : Snapshot α) : Result α := do
  let size ← s.view.size
  if size = 1 then s.heap.read s.view.buffer s.view.offset else refuse (.notAScalar size)

/-- Whether two arrays of one heap have the same extents and the same values in order. -/
def equal {α : Type} (same : α → α → Bool) (h : Heap α) (v w : View) : Result Bool :=
  if v.dims = w.dims then do
    let left ← (Snapshot.mk h v).walk
    let right ← (Snapshot.mk h w).walk
    Steps.agree same left.steps right.steps
  else .ok false

end Snapshot

end Strided
