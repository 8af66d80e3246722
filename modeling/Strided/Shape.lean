import Strided.Address
import Strided.Fault

set_option autoImplicit false

/-!
Shapes: the extents of the axes, outermost first. The size of a shape is its product, taken from the outermost
axis inwards, so a product that leaves the address range aborts even where a later extent is 0. Two shapes
broadcast when, aligned at the innermost axis, each pair of extents agrees or holds a 1. A permutation of axes is written
as the list of the old axes in their new order.
-/
namespace Strided

abbrev Shape := List Nat

namespace Shape

def size (s : Shape) : Result Nat := s.foldlM Address.mulCount 1

def broadcastExtent (d e : Nat) : Option Nat :=
  if d = e ∨ e = 1 then some d else if d = 1 then some e else none

def broadcastReversed : Shape → Shape → Option Shape
  | [], t => some t
  | d :: s, [] => some (d :: s)
  | d :: s, e :: t => do
    let extent ← broadcastExtent d e
    let rest ← broadcastReversed s t
    some (extent :: rest)

/-- The shape that both shapes stretch to. -/
def broadcast (s t : Shape) : Result Shape :=
  match broadcastReversed s.reverse t.reverse with
  | some u => .ok u.reverse
  | none => refuse (.shapeMismatch s t)

/-- The index after `index` in row-major order, and whether every axis wrapped. -/
def advance : Shape → List Nat → Bool × List Nat
  | d :: s, i :: index =>
    match advance s index with
    | (false, rest) => (false, i :: rest)
    | (true, rest) => if i+1 < d then (false, (i+1) :: rest) else (true, 0 :: rest)
  | _, _ => (true, [])

def origin (s : Shape) : List Nat := s.map fun _ => 0

def visitOnto (s : Shape) : Nat → List Nat → List (List Nat) → List (List Nat)
  | 0, _, visited => visited.reverse
  | n+1, index, visited => visitOnto s n (s.advance index).2 (index :: visited)

def visit (s : Shape) (n : Nat) : List (List Nat) := visitOnto s n s.origin []

end Shape

end Strided

namespace Strided.Permutation

/-- Marks the axes that the entries name, each of which has to be below `rank` and unmarked. There is one mark for each
axis, and an entry is compared with the rank before its mark is looked up. -/
def markEntries (rank : Nat) : List Bool → List Nat → Result Unit
  | _, [] => .ok ()
  | marks, p :: ps =>
    if rank ≤ p then refuse (.invalidAxis p rank)
    else
      match marks[p]? with
      | none => abort (.cellOutOfBounds marks.length p)
      | some true => refuse (.duplicateAxis p)
      | some false => markEntries rank (marks.set p true) ps

def validate (perm : List Nat) (rank : Nat) : Result Unit :=
  if perm.length = rank then markEntries rank (List.replicate rank false) perm
  else refuse (.rankMismatch perm.length rank)

/-- The entries of `xs` in the order that `perm` names them. -/
def arrange {β : Type} (perm : List Nat) (xs : List β) : List β := perm.filterMap (xs[·]?)

end Strided.Permutation
