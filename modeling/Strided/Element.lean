import Strided.Fault

set_option autoImplicit false

namespace Strided

/-- A type of cells: the value of a cell nobody wrote, and the bytes that one cell takes. Of cells this wide 2^50 still
fit into one list, also with an index of 64 bytes beside each. -/
class Element (α : Type) where
  blank : α
  width : Nat
  width_le : width ≤ 8127

namespace Capacity

def maxBytes : Nat := 0x7fffffffffffffff

/-- Room for `n` cells of `width` bytes from memory that does not run out. -/
def reserve (width n : Nat) : Result Unit :=
  if width*n ≤ maxBytes then .ok () else abort .capacityOverflow

structure Memory where
  grants : Nat → Bool

/-- Whether a list can have room for `n` cells of `width` bytes. For no bytes nobody is asked, and nobody is asked for
more than one list may have. -/
def Memory.reserves (memory : Memory) (width n : Nat) : Bool :=
  width*n == 0 || (width*n ≤ maxBytes && memory.grants (width*n))

end Capacity

class Arithmetic (α : Type) where
  zero : α
  one : α
  add : α → α → Result α
  sub : α → α → Result α
  mul : α → α → Result α
  div : α → α → Result α

/-- Equality and strict order as elements are compared; a value need not equal itself. -/
class Comparable (α : Type) where
  same : α → α → Bool
  less : α → α → Bool

structure Reduction (α : Type) where
  name : String
  identity : Option α
  combine : α → α → Result α

namespace Reduction

def sum {α : Type} [Arithmetic α] : Reduction α :=
  { name := "sum", identity := some Arithmetic.zero, combine := Arithmetic.add }

def prod {α : Type} [Arithmetic α] : Reduction α :=
  { name := "prod", identity := some Arithmetic.one, combine := Arithmetic.mul }

/-- The smaller value, the earlier one of equals, and a value that differs from itself before any other. -/
def lesser {α : Type} [Comparable α] (acc x : α) : α :=
  if Comparable.less x acc || !Comparable.same x x then x else acc

def greater {α : Type} [Comparable α] (acc x : α) : α :=
  if Comparable.less acc x || !Comparable.same x x then x else acc

def min {α : Type} [Comparable α] : Reduction α :=
  { name := "min", identity := none, combine := fun acc x => .ok (lesser acc x) }

def max {α : Type} [Comparable α] : Reduction α :=
  { name := "max", identity := none, combine := fun acc x => .ok (greater acc x) }

end Reduction

end Strided
