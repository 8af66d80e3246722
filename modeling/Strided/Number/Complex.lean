import Strided.Number.Elementary

set_option autoImplicit false

namespace Strided

structure Complex (α : Type) where
  re : α
  im : α
  deriving DecidableEq, Repr

namespace Complex

open Floating Elementary

variable {α : Type} [Elementary α]

def zero : Complex α := ⟨Floating.zero,Floating.zero⟩

def one : Complex α := ⟨Floating.one,Floating.zero⟩

def add (x y : Complex α) : Complex α := ⟨x.re+y.re,x.im+y.im⟩

def sub (x y : Complex α) : Complex α := ⟨x.re-y.re,x.im-y.im⟩

def mul (x y : Complex α) : Complex α := ⟨x.re*y.re-x.im*y.im,x.re*y.im+x.im*y.re⟩

def div (x y : Complex α) : Complex α :=
  let n := y.re*y.re+y.im*y.im
  ⟨(x.re*y.re+x.im*y.im)/n,(x.im*y.re-x.re*y.im)/n⟩

def neg (x : Complex α) : Complex α := ⟨-x.re,-x.im⟩

def conjugate (x : Complex α) : Complex α := ⟨x.re,-x.im⟩

def equal (x y : Complex α) : Bool := Floating.equal x.re y.re && Floating.equal x.im y.im

def length (x : Complex α) : α := hypot x.re x.im

def angle (x : Complex α) : α := arctan2 x.im x.re

def ofPolar (length angle : α) : Complex α := ⟨length*cos angle,length*sin angle⟩

/-- The exponential. An infinite real part has no angle to give: downwards it yields 0 whatever the imaginary part,
upwards it stays infinite where the imaginary part is 0 or has no angle either. -/
def exp (x : Complex α) : Complex α :=
  if isInfinite x.re && isNegative x.re && !isFinite x.im then zero
  else if isInfinite x.re && !isNegative x.re && (Floating.equal x.im Floating.zero || !isFinite x.im) then
    ⟨x.re,if isInfinite x.im then nan else x.im⟩
  else if isNaN x.re && Floating.equal x.im Floating.zero then x
  else ofPolar (Elementary.exp x.re) x.im

def log (x : Complex α) : Complex α := ⟨Elementary.log x.length,x.angle⟩

/-- The power through the logarithm; anything to the power 0 is 1. -/
def power (x y : Complex α) : Complex α :=
  if equal y zero then one else exp (mul y (log x))

/-- The square root in the right half plane, with the sign of the imaginary part. On the axes it is taken from one
coordinate alone. -/
def sqrt (x : Complex α) : Complex α :=
  if Floating.equal x.im Floating.zero then
    if isNegative x.re then
      let root := Floating.sqrt (-x.re)
      ⟨Floating.zero,if isNegative x.im then -root else root⟩
    else ⟨Floating.sqrt x.re,x.im⟩
  else if Floating.equal x.re Floating.zero then
    let half := Floating.sqrt (abs x.im/two)
    ⟨half,if isNegative x.im then -half else half⟩
  else ofPolar (Floating.sqrt x.length) (x.angle/two)

def sin (x : Complex α) : Complex α :=
  ⟨Elementary.sin x.re*cosh x.im,Elementary.cos x.re*sinh x.im⟩

def cos (x : Complex α) : Complex α :=
  ⟨Elementary.cos x.re*cosh x.im,-Elementary.sin x.re*sinh x.im⟩

instance : Arithmetic (Complex α) where
  zero := zero
  one := one
  add x y := .ok (add x y)
  sub x y := .ok (sub x y)
  mul x y := .ok (mul x y)
  div x y := .ok (div x y)

end Complex

instance : Element (Complex Float) where
  blank := ⟨0,0⟩
  width := 16
  width_le := by decide

instance : Element (Complex Float32) where
  blank := ⟨0,0⟩
  width := 8
  width_le := Element.width_le (α := Float)

instance : Element Bool where
  blank := false
  width := 1
  width_le := by decide

instance : Comparable Bool where
  same x y := x == y
  less x y := !x && y

end Strided
