import Strided.Block
import Strided.Number.Floating
import Strided.Number.Word

set_option autoImplicit false

namespace Strided.Range

/-- `n+1` values, each the one before it plus `step`, behind the reversed `values`. -/
def accumulateOnto {α : Type} [Arithmetic α] (step : α) : Nat → α → List α → Result (List α)
  | 0, x, values => .ok (x :: values).reverse
  | n+1, x, values => do
    let next ← Arithmetic.add x step
    accumulateOnto step n next (x :: values)

def accumulate {α : Type} [Arithmetic α] (start step : α) : Nat → Result (List α)
  | 0 => .ok []
  | n+1 => accumulateOnto step n start []

class Countable (α : Type) where
  isZero : α → Bool
  /-- The number of values from `start` towards `stop`, without `stop`, in steps that are not 0. -/
  count : (start stop step : α) → Result Nat

/-- The integer count, refused where it exceeds an address. -/
def countInt (start stop step : Int) : Result Nat :=
  let span := stop-start
  if span = 0 ∨ decide (0 < span) ≠ decide (0 < step) then .ok 0
  else
    let n := (span.natAbs+step.natAbs-1)/step.natAbs
    if n ≤ Address.maxUnsigned then .ok n else refuse (.tooLarge Address.maxUnsigned)

instance {t : IntType} : Countable (Word t) where
  isZero x := x.toInt == 0
  count start stop step := countInt start.toInt stop.toInt step.toInt

instance (priority := low) {α : Type} [Floating α] : Countable α where
  isZero x := Floating.equal x Floating.zero
  count start stop step :=
    let ratio := Floating.ceil ((stop-start)/step)
    if Floating.isNaN ratio then refuse .nonFiniteRange
    else if Floating.lessEqual ratio Floating.zero then .ok 0
    else
      let n := (Floating.format α).truncate (Floating.toBits ratio)
      if Floating.isInfinite ratio || Address.maxUnsigned < n then refuse (.tooLarge Address.maxUnsigned)
      else .ok n

/-- The values from `start` towards `stop`, without `stop`, if memory has room for them. -/
def values {α : Type} [Element α] [Arithmetic α] [Countable α] (memory : Capacity.Memory) (start stop step : α) :
    Result (Block α) := do
  if Countable.isZero step then refuse .zeroStep
  else
    let n ← Countable.count start stop step
    if !memory.reserves (Element.width α) n then refuse (.tooLarge n)
    else
      let data ← accumulate start step n
      .ok (Block.ofVector data)

def consecutive (t : IntType) (first : Int) (n : Nat) : Result (List (Word t)) := do
  Capacity.reserve (Element.width (Word t)) n
  .ok ((List.range n).map fun k : Nat => Word.ofInt t (first+k))

/-- The integers from `first` up to `last`, with `last` where the interval is closed, or in reverse order. -/
def interval {t : IntType} (first last : Word t) (closed reversed : Bool) : Result (List (Word t)) := do
  let span := last.toInt-first.toInt+(if closed then 1 else 0)
  let data ← consecutive t first.toInt span.toNat
  .ok (if reversed then data.reverse else data)

def upTo (stop : Word ⟨true,.w64⟩) : Result (Block (Word ⟨true,.w64⟩)) := do
  let data ← interval (Word.ofInt _ 0) stop false false
  .ok (Block.ofVector data)

/-- `n` samples from `start` on. With the endpoint the last one is `stop`, up to what the additions lose; without
it the samples end one step before. -/
def linspace {α : Type} [Element α] [Floating α] (start stop : α) (n : Nat) (endpoint : Bool) :
    Result (Block α) := do
  if n = 0 then .ok (Block.ofVector [])
  else
    let divisions := if endpoint then n-1 else n
    let step := if divisions = 0 then Floating.zero else (stop-start)/Floating.ofNat divisions
    Capacity.reserve (Element.width α) n
    let data ← accumulate start step n
    .ok (Block.ofVector data)

def defaultSamples : Nat := 50

end Strided.Range

namespace Strided

def Nested (α : Type) : Nat → Type
  | 0 => α
  | n+1 => List (Nested α n)

namespace Nested

def leadingShape {α : Type} : (n : Nat) → Nested α n → Shape
  | 0, _ => []
  | n+1, xs =>
    List.length xs :: match (xs : List (Nested α n)) with
      | [] => List.replicate n 0
      | first :: _ => leadingShape n first

/-- Accepts sequences whose lists have the given lengths; `depth` is the level of the outermost list. -/
def checkShape {α : Type} : (n : Nat) → Nested α n → Shape → Nat → Result Unit
  | 0, _, _, _ => .ok ()
  | n+1, xs, dims, depth =>
    if dims.head? ≠ some (List.length xs) then refuse (.raggedSequence depth)
    else (xs : List (Nested α n)).forM fun x => checkShape n x dims.tail (depth+1)

def leaves {α : Type} : (n : Nat) → Nested α n → List α
  | 0, x => [x]
  | n+1, xs => (xs : List (Nested α n)).flatMap (leaves n)

def shape {α : Type} (n : Nat) (x : Nested α n) : Result Shape := do
  let dims := leadingShape n x
  checkShape n x dims 0
  .ok dims

def toBlock {α : Type} [Element α] (n : Nat) (x : Nested α n) : Result (Block α) := do
  let dims ← shape n x
  let size ← dims.size
  Capacity.reserve (Element.width α) size
  Block.ofList dims (leaves n x)

end Nested

end Strided
