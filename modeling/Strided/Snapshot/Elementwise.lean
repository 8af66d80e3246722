import Strided.Block
import Strided.Element
import Strided.Number.Floating

set_option autoImplicit false

namespace Strided.Snapshot

def map {α β : Type} [Element β] (f : α → Result β) (s : Snapshot α) : Result (Block β) := do
  let w ← s.walk
  let data ← (w.map f).collect
  Block.ofList s.dims data

def stretched {α : Type} (s : Snapshot α) (shape : Shape) : Result (Snapshot α) := do
  let v ← s.view.broadcastTo shape
  .ok (s.through v)

def zipMap2 {α β γ : Type} [Element γ] (f : α → β → Result γ) (s : Snapshot α) (t : Snapshot β) :
    Result (Block γ) := do
  let shape ← Shape.broadcast s.dims t.dims
  let s ← s.stretched shape
  let t ← t.stretched shape
  let v ← s.walk
  let w ← t.walk
  let data ← (Walk.zipWith f v w).collect
  Block.ofList shape data

def zipMap3 {α β γ δ : Type} [Element δ] (f : α → β → γ → Result δ) (s : Snapshot α) (t : Snapshot β)
    (u : Snapshot γ) : Result (Block δ) := do
  let shape ← Shape.broadcast s.dims t.dims
  let shape ← Shape.broadcast shape u.dims
  let s ← s.stretched shape
  let t ← t.stretched shape
  let u ← u.stretched shape
  let v ← s.walk
  let w ← t.walk
  let x ← u.walk
  let pairs := Walk.zipWith (fun a b => .ok (a,b)) v w
  let data ← (Walk.zipWith (fun p c => f p.1 p.2 c) pairs x).collect
  Block.ofList shape data

end Strided.Snapshot

namespace Strided.Snapshot

def reduce {α β : Type} (f : α → Result β) (g : β → β → Result β) (init : β) (s : Snapshot α) : Result β := do
  let w ← s.walk
  (w.map f).foldl g init

def reduceWith {α : Type} (r : Reduction α) (s : Snapshot α) : Result α := do
  let w ← s.walk
  w.reduce r.name r.identity r.combine

def sum {α : Type} [Arithmetic α] (s : Snapshot α) : Result α := do
  let w ← s.walk
  w.foldl Arithmetic.add Arithmetic.zero

def prod {α : Type} [Arithmetic α] (s : Snapshot α) : Result α := do
  let w ← s.walk
  w.foldl Arithmetic.mul Arithmetic.one

def min {α : Type} [Comparable α] (s : Snapshot α) : Result α := s.reduceWith Reduction.min

def max {α : Type} [Comparable α] (s : Snapshot α) : Result α := s.reduceWith Reduction.max

/-- Whether every value passes; the values after the first that fails are not read. -/
def all {α : Type} (p : α → Bool) (s : Snapshot α) : Result Bool := do
  let w ← s.walk
  w.steps.all p

def any {α : Type} (p : α → Bool) (s : Snapshot α) : Result Bool := do
  let allFail ← s.all fun x => !p x
  .ok !allFail

def cumsum {α : Type} [Element α] [Arithmetic α] (s : Snapshot α) : Result (Block α) := do
  let w ← s.walk
  w.room (Element.width α)
  let (sums,_) ← w.foldl (fun (sums,acc) x => do
    let acc ← Arithmetic.add acc x
    .ok (acc :: sums,acc)) (([] : List α),(Arithmetic.zero : α))
  .ok (Block.ofVector sums.reverse)

/-- The mean, which is not a number for an empty array. -/
def mean {α : Type} [Floating α] (s : Snapshot α) : Result α :=
  if s.view.layout.isEmpty then .ok Floating.nan
  else do
    let size ← s.view.size
    let total ← s.sum
    .ok (total/Floating.ofNat size)

end Strided.Snapshot
