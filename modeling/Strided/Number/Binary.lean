set_option autoImplicit false

/-!
Binary floating-point numbers as bit patterns: a sign, an exponent field and a fraction field. A finite pattern
stands for a significand times a power of two, which makes remainders and roundings to an integer exact. Where the
fraction and the exponent end is a parameter, so one definition serves every width.
-/
namespace Strided.Binary

structure Format where
  fractionBits : Nat
  exponentBits : Nat
  deriving DecidableEq, Repr

def double : Format := ⟨52,11⟩

def single : Format := ⟨23,8⟩

/-- The value `(-1)^negative · significand · 2^exponent`. -/
structure Finite where
  negative : Bool
  significand : Nat
  exponent : Int
  deriving DecidableEq, Repr

namespace Format

def bias (f : Format) : Nat := (1 <<< (f.exponentBits-1))-1

def specialField (f : Format) : Nat := (1 <<< f.exponentBits)-1

def signBit (f : Format) : Nat := 1 <<< (f.fractionBits+f.exponentBits)

def fraction (f : Format) (b : Nat) : Nat := b%(1 <<< f.fractionBits)

def field (f : Format) (b : Nat) : Nat := (b >>> f.fractionBits)%(1 <<< f.exponentBits)

def isNegative (f : Format) (b : Nat) : Bool := b/f.signBit%2 == 1

def isNaN (f : Format) (b : Nat) : Bool := f.field b == f.specialField && f.fraction b != 0

def isInfinite (f : Format) (b : Nat) : Bool := f.field b == f.specialField && f.fraction b == 0

def magnitude (f : Format) (b : Nat) : Nat := b%f.signBit

def copySign (f : Format) (b sign : Nat) : Nat :=
  f.magnitude b+(if f.isNegative sign then f.signBit else 0)

def infinity (f : Format) : Nat := f.specialField <<< f.fractionBits

def nan (f : Format) : Nat := (f.specialField <<< f.fractionBits)+(1 <<< (f.fractionBits-1))

/-- The exponent of the least bit of the smallest numbers. -/
def leastExponent (f : Format) : Int := 1-(f.bias : Int)-f.fractionBits

/-- What a pattern stands for, where it is neither infinite nor not a number. -/
def decode (f : Format) (b : Nat) : Finite :=
  let field := f.field b
  { negative := f.isNegative b
    significand := f.fraction b+(if field = 0 then 0 else 1 <<< f.fractionBits)
    exponent := (max field 1 : Nat)-(1 : Int)+f.leastExponent }

def encode (f : Format) (x : Finite) : Nat :=
  let sign := if x.negative then f.signBit else 0
  if x.significand = 0 then sign
  else
    let lead := x.significand.log2
    let top := x.exponent+lead-f.fractionBits-f.leastExponent
    if 0 ≤ top then
      let scaled :=
        if lead ≤ f.fractionBits then x.significand <<< (f.fractionBits-lead)
        else x.significand >>> (lead-f.fractionBits)
      sign+(top.toNat <<< f.fractionBits)+scaled
    else
      let shift := x.exponent-f.leastExponent
      sign+(if 0 ≤ shift then x.significand <<< shift.toNat else x.significand >>> (-shift).toNat)

/-- The remainder of the division whose quotient lost its fraction; it has the sign of the dividend. -/
def remainder (f : Format) (a b : Nat) : Nat :=
  if f.isNaN a || f.isNaN b || f.isInfinite a || f.magnitude b == 0 then f.nan
  else if f.isInfinite b then a
  else
    let x := f.decode a
    let y := f.decode b
    let exponent := min x.exponent y.exponent
    let dividend := x.significand <<< (x.exponent-exponent).toNat
    let divisor := y.significand <<< (y.exponent-exponent).toNat
    f.encode { negative := x.negative, significand := dividend%divisor, exponent }

def roundDiv (n d : Nat) : Nat :=
  let q := n/d
  let twice := 2*(n%d)
  if twice < d then q else if d < twice then q+1 else if q%2 = 0 then q else q+1

/-- The nearest integer, a half to the even one. The sign stays, also on 0. -/
def roundEven (f : Format) (b : Nat) : Nat :=
  if f.field b == f.specialField then b
  else
    let x := f.decode b
    if 0 ≤ x.exponent then b
    else
      f.encode { negative := x.negative, significand := roundDiv x.significand (1 <<< (-x.exponent).toNat), exponent := 0 }

def truncate (f : Format) (b : Nat) : Nat :=
  let x := f.decode b
  if 0 ≤ x.exponent then x.significand <<< x.exponent.toNat else x.significand >>> (-x.exponent).toNat

end Format

end Strided.Binary
