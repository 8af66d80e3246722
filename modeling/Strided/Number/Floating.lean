import Strided.Element
import Strided.Number.Binary

set_option autoImplicit false

namespace Strided

class Floating (α : Type) extends Add α, Sub α, Mul α, Div α, Neg α where
  format : Binary.Format
  toBits : α → Nat
  ofBits : Nat → α
  /-- The nearest number to an integer below `2^64`. -/
  ofNat : Nat → α
  equal : α → α → Bool
  less : α → α → Bool
  lessEqual : α → α → Bool
  degreesPerRadian : α
  radiansPerDegree : α
  floor : α → α
  ceil : α → α
  sqrt : α → α

namespace Floating

variable {α : Type} [Floating α]

def zero : α := ofNat 0

def one : α := ofNat 1

def two : α := ofNat 2

def ofInt (x : Int) : α := if x < 0 then -ofNat x.natAbs else ofNat x.natAbs

def nan : α := ofBits (format α).nan

def infinity : α := ofBits (format α).infinity

def isNaN (x : α) : Bool := (format α).isNaN (toBits x)

def isInfinite (x : α) : Bool := (format α).isInfinite (toBits x)

def isFinite (x : α) : Bool := !(isNaN x || isInfinite x)

/-- Whether the sign bit is set, also on zeros and on what is not a number. -/
def isNegative (x : α) : Bool := (format α).isNegative (toBits x)

def abs (x : α) : α := ofBits ((format α).magnitude (toBits x))

def copySign (x sign : α) : α := ofBits ((format α).copySign (toBits x) (toBits sign))

/-- `x·2^k` by the exponent field alone. Exact where `x` and the result are normal. -/
def scale (x : α) (k : Int) : α := ofBits ((toBits x : Int)+k*(1 <<< (format α).fractionBits : Nat)).toNat

def twoPower (k : Int) : α := scale one k

def fmod (x y : α) : α := ofBits ((format α).remainder (toBits x) (toBits y))

def rint (x : α) : α := ofBits ((format α).roundEven (toBits x))

/-- The larger number; what is not a number yields to one that is. -/
def fmax (x y : α) : α := if isNaN x then y else if isNaN y then x else if less x y then y else x

def fmin (x y : α) : α := if isNaN x then y else if isNaN y then x else if less y x then y else x

/-- The larger number, and none where one of the two is none. -/
def maximum (x y : α) : α := if isNaN x || isNaN y then nan else fmax x y

def minimum (x y : α) : α := if isNaN x || isNaN y then nan else fmin x y

def floorDivide (x y : α) : α := floor (x/y)

def floorMod (x y : α) : α :=
  let r := fmod x y
  if !equal r zero && less r zero != less y zero then r+y else r

def degrees (x : α) : α := x*degreesPerRadian

def radians (x : α) : α := x*radiansPerDegree

instance (priority := low) : Arithmetic α where
  zero := zero
  one := one
  add x y := .ok (x+y)
  sub x y := .ok (x-y)
  mul x y := .ok (x*y)
  div x y := .ok (x/y)

instance (priority := low) : Comparable α where
  same := equal
  less := less

end Floating

instance : Element Float where
  blank := 0
  width := 8
  width_le := by decide

instance : Element Float32 where
  blank := 0
  width := 4
  width_le := by decide

instance : Floating Float where
  format := Binary.double
  toBits x := x.toBits.toNat
  ofBits b := Float.ofBits b.toUInt64
  ofNat n := n.toUInt64.toFloat
  equal x y := x == y
  less x y := decide (x < y)
  lessEqual x y := decide (x ≤ y)
  degreesPerRadian := Float.ofBits 4633260481411531256
  radiansPerDegree := Float.ofBits 4580687790476533049
  floor := Float.floor
  ceil := Float.ceil
  sqrt := Float.sqrt

instance : Floating Float32 where
  format := Binary.single
  toBits x := x.toBits.toNat
  ofBits b := Float32.ofBits b.toUInt32
  ofNat n := n.toUInt64.toFloat32
  equal x y := x == y
  less x y := decide (x < y)
  lessEqual x y := decide (x ≤ y)
  degreesPerRadian := Float32.ofBits 1113927393
  radiansPerDegree := Float32.ofBits 1016003125
  floor := Float32.floor
  ceil := Float32.ceil
  sqrt := Float32.sqrt

end Strided
