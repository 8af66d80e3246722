import Strided.Element

set_option autoImplicit false

/-!
Integers of a fixed width. A word is a bit pattern; its type says how many bits it has and whether the top one is a
sign. Arithmetic goes through the exact value: what fits the type is a result and anything else is an abort. The
wrapping operations work on the bits.
-/
namespace Strided

inductive Width where
  | w8
  | w16
  | w32
  | w64
  deriving DecidableEq, Repr

def Width.bits : Width → Nat
  | .w8 => 8
  | .w16 => 16
  | .w32 => 32
  | .w64 => 64

structure IntType where
  isSigned : Bool
  width : Width
  deriving DecidableEq, Repr

namespace IntType

def bits (t : IntType) : Nat := t.width.bits

def least (t : IntType) : Int := if t.isSigned then -(1 <<< (t.bits-1) : Nat) else 0

def greatest (t : IntType) : Int := if t.isSigned then (1 <<< (t.bits-1) : Nat)-1 else (1 <<< t.bits : Nat)-1

def Fits (t : IntType) (x : Int) : Prop := t.least ≤ x ∧ x ≤ t.greatest

instance (t : IntType) (x : Int) : Decidable (t.Fits x) := inferInstanceAs (Decidable (_ ∧ _))

end IntType

structure Word (t : IntType) where
  bits : BitVec t.bits
  deriving DecidableEq, Repr

namespace Word

/-- The value, in two's complement where the type is signed. -/
def toInt {t : IntType} (x : Word t) : Int := if t.isSigned then x.bits.toInt else x.bits.toNat

/-- The word whose value agrees with `x` modulo the number of words. -/
def ofInt (t : IntType) (x : Int) : Word t := ⟨BitVec.ofInt t.bits x⟩

def checked (t : IntType) (cause : Abort) (x : Int) : Result (Word t) :=
  if t.Fits x then .ok (ofInt t x) else abort cause

def add {t : IntType} (x y : Word t) : Result (Word t) := checked t .addOverflow (x.toInt+y.toInt)

def sub {t : IntType} (x y : Word t) : Result (Word t) := checked t .subtractOverflow (x.toInt-y.toInt)

def mul {t : IntType} (x y : Word t) : Result (Word t) := checked t .multiplyOverflow (x.toInt*y.toInt)

def div {t : IntType} (x y : Word t) : Result (Word t) :=
  if y.toInt = 0 then abort .divideByZero else checked t .divideOverflow (x.toInt.tdiv y.toInt)

def isNegative {t : IntType} (x : Word t) : Bool := x.toInt < 0

instance {t : IntType} : Arithmetic (Word t) where
  zero := ofInt t 0
  one := ofInt t 1
  add := add
  sub := sub
  mul := mul
  div := div

instance {t : IntType} : Comparable (Word t) where
  same x y := x.toInt == y.toInt
  less x y := x.toInt < y.toInt

instance {t : IntType} : Element (Word t) where
  blank := ofInt t 0
  width := t.bits/8
  width_le := by cases t with | mk s w => cases w <;> simp [IntType.bits,Width.bits]

/-- The remainder after `div`, and 0 where there is no quotient in the type. -/
def remainder {t : IntType} (x y : Word t) : Word t :=
  if t.Fits (x.toInt.tdiv y.toInt) then ofInt t (x.toInt.tmod y.toInt) else ofInt t 0

/-- The quotient as `div` gives it, and the least value where there is none in the type. -/
def quotient {t : IntType} (x y : Word t) : Word t :=
  if t.Fits (x.toInt.tdiv y.toInt) then ofInt t (x.toInt.tdiv y.toInt) else ofInt t t.least

/-- Whether a remainder lies on the other side of 0 than the divisor. -/
def crossesZero {t : IntType} (r y : Word t) : Bool :=
  r.toInt != 0 && r.isNegative != y.isNegative

/-- Division that rounds towards the lower integer; by 0 it gives 0. -/
def floorDivide {t : IntType} (x y : Word t) : Result (Word t) :=
  if y.toInt = 0 then .ok (ofInt t 0)
  else if crossesZero (remainder x y) y then (quotient x y).sub (ofInt t 1)
  else .ok (quotient x y)

def floorMod {t : IntType} (x y : Word t) : Result (Word t) :=
  if y.toInt = 0 then .ok (ofInt t 0)
  else if crossesZero (remainder x y) y then (remainder x y).add y
  else .ok (remainder x y)

def places? {t : IntType} (y : Word t) : Option Nat :=
  if 0 ≤ y.toInt ∧ y.toInt < t.bits then some y.toInt.toNat else none

def shiftLeft {t : IntType} (x y : Word t) : Word t :=
  match y.places? with
  | some n => ⟨x.bits <<< n⟩
  | none => ofInt t 0

/-- Vacated places take the sign. Any other number of places leaves nothing but the sign. -/
def shiftRight {t : IntType} (x y : Word t) : Word t :=
  match y.places? with
  | some n => if t.isSigned then ⟨x.bits.sshiftRight n⟩ else ⟨x.bits >>> n⟩
  | none => if x.isNegative then ofInt t (-1) else ofInt t 0

def wrappingAdd {t : IntType} (x y : Word t) : Word t := ⟨x.bits+y.bits⟩

def wrappingSub {t : IntType} (x y : Word t) : Word t := ⟨x.bits-y.bits⟩

def wrappingMul {t : IntType} (x y : Word t) : Word t := ⟨x.bits*y.bits⟩

def wrappingNeg {t : IntType} (x : Word t) : Word t := ⟨-x.bits⟩

/-- The distance from 0, which wraps for the least value of a signed type. -/
def wrappingAbs {t : IntType} (x : Word t) : Word t := if x.isNegative then x.wrappingNeg else x

def and {t : IntType} (x y : Word t) : Word t := ⟨x.bits &&& y.bits⟩

def or {t : IntType} (x y : Word t) : Word t := ⟨x.bits ||| y.bits⟩

def xor {t : IntType} (x y : Word t) : Word t := ⟨x.bits ^^^ y.bits⟩

def not {t : IntType} (x : Word t) : Word t := ⟨~~~x.bits⟩

end Word

end Strided
