import Strided.Session.Fresh
import Strided.View

set_option autoImplicit false

namespace Strided.Session

def listedWidth : Nat := 32

def elementEvents {α : Type} [Element α] (h : Heap α) : List Action → Elements → Attempt (List (Event α))
  | [], _ => .ok []
  | .next :: actions, e => do
    match ← e.next? h with
    | none => do
      let events ← elementEvents h actions e
      .ok (.element none :: events)
    | some (x,rest) => do
      let events ← elementEvents h actions rest
      .ok (.element (some x) :: events)
  | .length :: actions, e => do
    let events ← elementEvents h actions e
    .ok (.length e.length :: events)
  | .rest :: actions, e => do
    let xs ← (e.walk h).collectWide listedWidth
    let events ← elementEvents h actions e
    .ok (.elements xs :: events)
  | _ :: _, _ => .error .unsupported

/-- The answers of a walk over elements with their indices. What is left is listed and taken. -/
def indexedEvents {α : Type} [Element α] (h : Heap α) : List Action → Elements → Attempt (List (Event α))
  | [], _ => .ok []
  | .next :: actions, e => do
    match ← e.nextIndexed? h with
    | none => do
      let events ← indexedEvents h actions e
      .ok (.pair none :: events)
    | some (p,rest) => do
      let events ← indexedEvents h actions rest
      .ok (.pair (some p) :: events)
  | .length :: actions, e => do
    let events ← indexedEvents h actions e
    .ok (.length e.length :: events)
  | .rest :: actions, e => do
    let pairs ← e.indexed h
    let rest ← e.skip h e.length
    let events ← indexedEvents h actions rest
    .ok (.pairs pairs :: events)
  | _ :: _, _ => .error .unsupported

def cellEvents {α : Type} : List Action → Offsets → Attempt (List (Event α))
  | [], _ => .ok []
  | .next :: actions, o => do
    match ← o.next? with
    | none => do
      let events ← cellEvents actions o
      .ok (.cell none :: events)
    | some (cell,rest) => do
      let events ← cellEvents actions rest
      .ok (.cell (some cell) :: events)
  | .length :: actions, o => do
    let events ← cellEvents actions o
    .ok (.length o.remaining :: events)
  | .index :: actions, o => do
    let events ← cellEvents actions o
    .ok (.index o.currentIndex :: events)
  | .rest :: actions, o => do
    let cells ← o.walk.collectWide listedWidth
    let events ← cellEvents actions o
    .ok (.cells cells :: events)
  | _ :: _, _ => .error .unsupported

def slabEvents {α : Type} [Element α] (h : Heap α) : List Action → Slabs → Attempt (List (Event α))
  | [], _ => .ok []
  | .length :: actions, s => do
    let events ← slabEvents h actions s
    .ok (.length s.length :: events)
  | action :: actions, s => do
    let taken ← match action with
      | .next => liftM s.next?
      | .nextBack => liftM s.nextBack?
      | _ => .error .unsupported
    match taken with
    | none => do
      let events ← slabEvents h actions s
      .ok (.slab none :: events)
    | some (v,rest) => do
      let slab ← shown ⟨h,v⟩
      let events ← slabEvents h actions rest
      .ok (.slab (some slab) :: events)

def handleText (length handles : Nat) : String :=
  s!"SharedBuffer \x7b len: {length}, refs: {handles} \x7d"

def arrayText {α : Type} (v : View) (text : α → String) (xs : List α) : String :=
  "NdArray \x7b dims: " ++ Text.bracketedNats v.dims ++ ", strides: " ++ Text.bracketedInts v.layout.strides ++
    ", offset: " ++ toString v.offset ++ ", data: " ++ Text.bracketed (xs.map text) ++ " \x7d"

def Query.answer {α : Type} (as : Abilities α) (s : State α) (asked : Query α) : Attempt (Answer α) :=
  let _element := as.element
  match asked with
  | .contents a => do
    let a ← s.array a
    let a ← shown a
    .ok (.array a)
  | .info a => do
    let a ← s.array a
    let size ← a.view.size
    .ok (.info {
      dims := a.dims
      strides := a.view.layout.strides
      offset := a.view.offset
      rank := a.rank
      size
      isEmpty := a.view.layout.isEmpty
      contiguous := a.view.isContiguous
      handles := s.handles a.view.buffer
      bufferLength := a.heap.length a.view.buffer })
  | .bufferInfo a => do
    let buffer ← s.bufferNamed a
    .ok (.bufferInfo (s.cells.length buffer) (s.handles buffer) (s.cells.cells buffer).toList)
  | .bufferText a => do
    let buffer ← s.bufferNamed a
    .ok (.text (handleText (s.cells.length buffer) (s.handles buffer)))
  | .bufferCell a cell => do
    let buffer ← s.bufferNamed a
    let x ← s.cells.read buffer cell
    .ok (.value x)
  | .shares a b => do
    let a ← s.bufferNamed a
    let b ← s.bufferNamed b
    .ok (.flag (a == b))
  | .equal a b => do
    let a ← s.array a
    let b ← s.array b
    let same ← Snapshot.equal as.same s.cells a.view b.view
    .ok (.flag same)
  | .text a => do
    let text ← required as.text
    let a ← s.array a
    let xs ← a.toList
    .ok (.text (arrayText a.view text xs))
  | .element a index promised => do
    let a ← s.array a
    let x ← if promised then a.getPromised index else a.get index
    .ok (.value x)
  | .item a => do
    let a ← s.array a
    let x ← a.item
    .ok (.value x)
  | .values a => do
    let a ← s.array a
    let xs ← a.toList
    .ok (.values xs)
  | .elements a actions => do
    let a ← s.array a
    let e ← a.elements
    let events ← elementEvents s.cells actions e
    .ok (.events events)
  | .indexed a actions => do
    let a ← s.array a
    let e ← a.elements
    let events ← indexedEvents s.cells actions e
    .ok (.events events)
  | .indexedAfter a skipped => do
    let a ← s.array a
    let e ← a.elements
    let e ← e.skip s.cells skipped
    let pairs ← e.indexed s.cells
    .ok (.pairs pairs)
  | .offsets a actions => do
    let a ← s.array a
    let o ← a.view.offsets
    let events ← cellEvents actions o
    .ok (.events events)
  | .slabs a axis actions => do
    let a ← s.array a
    let slabs ← match axis with
      | none => .ok (Slabs.ofAxis a.view 0)
      | some axis => liftM (Slabs.along a.view axis)
    let events ← slabEvents s.cells actions slabs
    .ok (.events events)
  | .all a => do
    let a ← s.array a
    let b ← a.all (isTruthy as)
    .ok (.flag b)
  | .any a => do
    let a ← s.array a
    let b ← a.any (isTruthy as)
    .ok (.flag b)
  | .reduce f g a init => do
    let f ← unaryNamed as f
    let g ← binaryNamed as g
    let a ← s.array a
    let x ← a.reduce f g init
    .ok (.value x)
  | .reduceWith r a => do
    let r ← r.resolve as
    let a ← s.array a
    let x ← a.reduceWith r
    .ok (.value x)
  | .sum a => do
    let _arithmetic ← required as.arithmetic
    let a ← s.array a
    let x ← a.sum
    .ok (.value x)
  | .prod a => do
    let _arithmetic ← required as.arithmetic
    let a ← s.array a
    let x ← a.prod
    .ok (.value x)
  | .min a => do
    let _order ← required as.order
    let a ← s.array a
    let x ← a.min
    .ok (.value x)
  | .max a => do
    let _order ← required as.order
    let a ← s.array a
    let x ← a.max
    .ok (.value x)
  | .mean a => do
    let _floating ← required as.floating
    let a ← s.array a
    let x ← a.mean
    .ok (.value x)
  | .rangeLength start stop step => do
    let countable ← required as.countable
    let n ← countable.count start stop step
    .ok (.count n)
  | .upTo stop => do
    let b ← Range.upTo (Word.ofInt _ stop)
    let a ← shown b.snapshot
    .ok (.integers a)
  | .maskCount mask => do
    let mask ← s.mask mask
    let w ← mask.walk
    let n ← w.foldl (fun n b => .ok (if b then n+1 else n)) 0
    .ok (.count n)
  | .maskAll mask => do
    let mask ← s.mask mask
    let b ← mask.all id
    .ok (.flag b)
  | .maskAny mask => do
    let mask ← s.mask mask
    let b ← mask.any id
    .ok (.flag b)

end Strided.Session
