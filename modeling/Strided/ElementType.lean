import Strided.Construct
import Strided.Element
import Strided.OpTable.Builtin

set_option autoImplicit false

namespace Strided

inductive ElementType where
  | int (t : IntType)
  | float32
  | float64
  | bool
  | complex32
  | complex64
  deriving DecidableEq, Repr

def ElementType.Carrier : ElementType → Type
  | .int t => Word t
  | .float32 => Float32
  | .float64 => Float
  | .bool => Bool
  | .complex32 => Complex Float32
  | .complex64 => Complex Float

structure Abilities (α : Type) where
  element : Element α
  memory : Capacity.Memory := ⟨fun _ => true⟩
  table : OpTable α
  same : α → α → Bool
  /-- The element for an integer, as far as the type can tell integers apart. -/
  ofInt : Int → α
  arithmetic : Option (Arithmetic α)
  order : Option (Comparable α)
  countable : Option (Range.Countable α)
  interval : Option (α → α → Bool → Bool → Result (List α))
  floating : Option (Floating α)
  text : Option (α → String)

namespace Abilities

def ofWord (t : IntType) : Abilities (Word t) where
  element := inferInstance
  table := Tables.word t
  same := Comparable.same
  ofInt := Word.ofInt t
  arithmetic := some inferInstance
  order := some inferInstance
  countable := some inferInstance
  interval := some Range.interval
  floating := none
  text := some fun x => toString x.toInt

def ofFloating (α : Type) [Element α] [Elementary α] : Abilities α where
  element := inferInstance
  table := Tables.floating α
  same := Floating.equal
  ofInt := Floating.ofInt
  arithmetic := some inferInstance
  order := some inferInstance
  countable := some inferInstance
  interval := none
  floating := some inferInstance
  text := none

def ofComplex (α : Type) [Elementary α] [Element (Complex α)] : Abilities (Complex α) where
  element := inferInstance
  table := Tables.complex α
  same := Complex.equal
  ofInt x := ⟨Floating.ofInt x,Floating.ofInt (-x)⟩
  arithmetic := some inferInstance
  order := none
  countable := none
  interval := none
  floating := none
  text := none

def ofBool : Abilities Bool where
  element := inferInstance
  table := Tables.bool
  same x y := x == y
  ofInt x := x%2 == 1
  arithmetic := none
  order := some inferInstance
  countable := none
  interval := none
  floating := none
  text := some fun x => if x then "true" else "false"

end Abilities

/-- Memory that grants what 47 bits can address. -/
def Capacity.Memory.ofProcess : Memory := ⟨fun bytes => bytes ≤ 0x800000000000⟩

def ElementType.base : (t : ElementType) → Abilities t.Carrier
  | .int t => Abilities.ofWord t
  | .float32 => Abilities.ofFloating Float32
  | .float64 => Abilities.ofFloating Float
  | .bool => Abilities.ofBool
  | .complex32 => Abilities.ofComplex Float32
  | .complex64 => Abilities.ofComplex Float

def ElementType.abilities (t : ElementType) : Abilities t.Carrier := { t.base with memory := .ofProcess }

end Strided
