import Strided.ElementType
import Strided.Snapshot

set_option autoImplicit false

namespace Strided.Session

/-- Why a step has no answer of its own: it faulted, it names a register that does not hold what it needs, or the
elements cannot do what it asks. -/
inductive Obstacle where
  | fault (fault : Fault)
  | badRegister (name : String)
  | unsupported
  deriving DecidableEq, Repr

abbrev Attempt (α : Type) := Except Obstacle α

instance : MonadLift (Except Fault) (Except Obstacle) := ⟨fun r => r.mapError .fault⟩

/-- An array as it is shown; the values are left out where there are many. -/
structure Shown (α : Type) where
  dims : Shape
  strides : List Int
  offset : Nat
  contiguous : Bool
  data : Option (List α)

def shownLimit : Nat := 20000

/-- The values where they are shown. They are counted first. -/
def shownValues {α : Type} [Element α] (s : Snapshot α) : Result (Option (List α)) := do
  let size ← s.view.size
  if size ≤ shownLimit then do
    let xs ← s.toList
    .ok (some xs)
  else .ok none

def shown {α : Type} [Element α] (s : Snapshot α) : Result (Shown α) := do
  let data ← shownValues s
  .ok {
    dims := s.dims
    strides := s.view.layout.strides
    offset := s.view.offset
    contiguous := s.view.isContiguous
    data }

structure ViewInfo where
  dims : Shape
  strides : List Int
  offset : Nat
  rank : Nat
  size : Nat
  isEmpty : Bool
  contiguous : Bool
  handles : Nat
  bufferLength : Nat

inductive Event (α : Type) where
  | element (x : Option α)
  | pair (p : Option (List Nat × α))
  | cell (n : Option Nat)
  | slab (s : Option (Shown α))
  | length (n : Nat)
  | elements (xs : List α)
  | pairs (ps : List (List Nat × α))
  | cells (ns : List Nat)
  | index (i : List Nat)

inductive Answer (α : Type) where
  | array (s : Shown α)
  | mask (s : Shown Bool)
  | integers (s : Shown (Word ⟨true,.w64⟩))
  | buffer (length : Nat)
  | value (x : α)
  | values (xs : List α)
  | pairs (ps : List (List Nat × α))
  | count (n : Nat)
  | flag (b : Bool)
  | text (s : String)
  | info (i : ViewInfo)
  | bufferInfo (length handles : Nat) (cells : List α)
  | events (es : List (Event α))
  | obstacle (o : Obstacle)

inductive Contents (α : Type) where
  | elements (xs : Result (Option (List α)))
  | truths (xs : Result (Option (List Bool)))
  | cells (xs : List α)

end Strided.Session

namespace Strided.Session

inductive Register where
  | array (v : View)
  | mask (v : View)
  | buffer (b : Nat)
  deriving DecidableEq, Repr

structure State (α : Type) where
  cells : Heap α
  masks : Heap Bool
  registers : List (String × Register)

namespace State

def initial {α : Type} : State α := ⟨.empty,.empty,[]⟩

def lookup {α : Type} (s : State α) (name : String) : Option Register :=
  (s.registers.find? fun entry => entry.1 = name).map Prod.snd

def remove {α : Type} (s : State α) (name : String) : State α :=
  { s with registers := s.registers.filter fun entry => entry.1 ≠ name }

def bind {α : Type} (s : State α) (out : Option String) (r : Register) : State α :=
  match out with
  | none => s
  | some name => { s with registers := (s.remove name).registers++[(name,r)] }

def array {α : Type} (s : State α) (name : String) : Attempt (Snapshot α) :=
  match s.lookup name with
  | some (.array v) => .ok ⟨s.cells,v⟩
  | _ => .error (.badRegister name)

def mask {α : Type} (s : State α) (name : String) : Attempt (Snapshot Bool) :=
  match s.lookup name with
  | some (.mask v) => .ok ⟨s.masks,v⟩
  | _ => .error (.badRegister name)

def bufferNamed {α : Type} (s : State α) (name : String) : Attempt Nat :=
  match s.lookup name with
  | some (.array v) => .ok v.buffer
  | some (.buffer b) => .ok b
  | _ => .error (.badRegister name)

def handles {α : Type} (s : State α) (buffer : Nat) : Nat :=
  s.registers.countP fun entry =>
    match entry.2 with
    | .array v => v.buffer == buffer
    | .buffer b => b == buffer
    | .mask _ => false

def contents {α : Type} [Element α] (s : State α) : List (String × Contents α) :=
  s.registers.map fun (name,r) =>
    (name,match r with
      | .array v => .elements (shownValues ⟨s.cells,v⟩)
      | .mask v => .truths (shownValues ⟨s.masks,v⟩)
      | .buffer b => .cells (s.cells.cells b).toList)

end State

end Strided.Session
