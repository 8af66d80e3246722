import Strided.Number.Exponential
import Strided.Number.Floating

set_option autoImplicit false

namespace Strided.Length

open Floating

/-- The length for coordinates whose squares are ordinary numbers, the longer one first. The root of the rounded sum
of squares is corrected by a step towards the exact sum. -/
def corrected (long short : Float) : Float :=
  let h := (long*long+short*short).sqrt
  let excess :=
    if h ≤ 2*short then
      let d := h-short
      long*(2*d-long)+(d-2*(long-short))*d
    else
      let d := h-long
      2*d*(long-2*short)+((4*d-short)*short+d*d)
  h-excess/(2*h)

/-- The length of a vector of finite coordinates without signs, the longer one first. A coordinate below the last bit
of the other one is only added; extreme coordinates are scaled by a power of two. -/
def ordered (long short : Float) : Float :=
  let lastBit : Float := twoPower (-54)
  let down : Float := twoPower (-600)
  let up : Float := twoPower 600
  if twoPower 511 < long then
    if short ≤ long*lastBit then long+short else corrected (long*down) (short*down)*up
  else if short < twoPower (-459) then
    if short/lastBit ≤ long then long+short else corrected (long*up) (short*up)*down
  else if short ≤ long*lastBit then long+short
  else corrected long short

def double (x y : Float) : Float :=
  if isInfinite x || isInfinite y then infinity
  else if isNaN x || isNaN y then nan
  else if x.abs < y.abs then ordered y.abs x.abs
  else ordered x.abs y.abs

/-- Squares of 32 bits are exact in 64, so one root and one rounding are left. -/
def single (x y : Float32) : Float32 :=
  if isInfinite x || isInfinite y then infinity
  else if isNaN x || isNaN y then nan
  else (x.toFloat*x.toFloat+y.toFloat*y.toFloat).sqrt.toFloat32

end Strided.Length

namespace Strided

class Elementary (α : Type) extends Floating α where
  /-- The natural logarithm of 2. -/
  logTwo : α
  exp : α → α
  expm1 : α → α
  log : α → α
  log1p : α → α
  log2 : α → α
  log10 : α → α
  sin : α → α
  cos : α → α
  tan : α → α
  arcsin : α → α
  arccos : α → α
  arctan : α → α
  sinh : α → α
  cosh : α → α
  tanh : α → α
  arcsinh : α → α
  arccosh : α → α
  power : α → α → α
  arctan2 : α → α → α
  hypot : α → α → α

namespace Elementary

open Floating

variable {α : Type} [Elementary α]

def logAddExp (x y : α) : α :=
  if equal x y then x+logTwo else fmax x y+log1p (exp (-abs (x-y)))

def logAddExp2 (x y : α) : α :=
  if equal x y then x+one else fmax x y+log1p (power two (-abs (x-y)))/logTwo

def arctanh (x : α) : α := one/two*log1p (two*x/(one-x))

end Elementary

instance : Elementary Float where
  logTwo := Float.ofBits 4604418534313441775
  exp := Float.exp
  expm1 := Exponential.expm1 Exponential.double
  log := Float.log
  log1p := Exponential.log1p Exponential.double
  log2 := Float.log2
  log10 := Float.log10
  sin := Float.sin
  cos := Float.cos
  tan := Float.tan
  arcsin := Float.asin
  arccos := Float.acos
  arctan := Float.atan
  sinh := Float.sinh
  cosh := Float.cosh
  tanh := Float.tanh
  arcsinh := Float.asinh
  arccosh := Float.acosh
  power := Float.pow
  arctan2 := Float.atan2
  hypot := Length.double

instance : Elementary Float32 where
  logTwo := Float32.ofBits 1060205080
  exp := Float32.exp
  expm1 := Exponential.expm1 Exponential.single
  log := Float32.log
  log1p := Exponential.log1p Exponential.single
  log2 := Float32.log2
  log10 := Float32.log10
  sin := Float32.sin
  cos := Float32.cos
  tan := Float32.tan
  arcsin := Float32.asin
  arccos := Float32.acos
  arctan := Float32.atan
  sinh := Float32.sinh
  cosh := Float32.cosh
  tanh := Float32.tanh
  arcsinh := Float32.asinh
  arccosh := Float32.acosh
  power := Float32.pow
  arctan2 := Float32.atan2
  hypot := Length.single

end Strided
