import Strided.Number.Floating

set_option autoImplicit false

/-!
The exponential less 1 and the logarithm of a number plus 1, which keep their accuracy near 0. Both take out a power
of two, so that a short series serves what is left, and carry what the reduction rounded away as a second term.
Results are fixed to the last bit: the order of the operations is part of the definition.
-/
namespace Strided.Exponential

open Floating

variable {α : Type} [Floating α]

/-- What the two functions need to know of a width: bounds of their ranges, parts of log 2 and the two series. -/
structure Constants (α : Type) where
  /-- The logarithm of 2 without its last bits, so that its products with exponents are exact. -/
  logTwoHigh : α
  /-- What `logTwoHigh` leaves of the logarithm of 2. -/
  logTwoLow : α
  /-- The reciprocal of the logarithm of 2. -/
  perLogTwo : α
  /-- From here on an argument of the exponential is reduced: half of the logarithm of 2. -/
  halfLogTwo : α
  /-- Below this the exponent taken out is 1 or -1: three halves of the logarithm of 2. -/
  threeHalvesLogTwo : α
  /-- Beyond this the exponential overflows. -/
  greatest : α
  /-- From here downwards the exponential is lost beside 1. -/
  least : α
  /-- Arguments below `2^expTiny` are their own exponential less 1. -/
  expTiny : Int
  /-- From this exponent on 1 is added after the series, not before. -/
  expSplit : Int
  /-- The series of the exponential in half the square of its argument. -/
  expSeries : α → α
  /-- Below this a positive argument of the logarithm is not reduced: the root of 2 less 1. -/
  rootTwoLessOne : α
  /-- The same bound for negative arguments: 1 less the root of one half. -/
  oneLessRootHalf : α
  /-- The low bits of a fraction that are not looked at when its size is judged. -/
  grain : Nat
  /-- The fraction of the root of 2 without its grain. -/
  rootTwoFraction : Nat
  /-- The series of the logarithm in the square of `f/(2+f)`. -/
  logSeries : α → α

def horner (z : α) : List α → α
  | [] => zero
  | [c] => c
  | c :: cs => c+z*horner z cs

def half : α := one/two

/-- An argument of the exponential as `exponent·log 2+value+lost`. -/
structure Reduced (α : Type) where
  exponent : Int
  value : α
  /-- What rounding took from the value. -/
  lost : α

def truncate (x : α) : Int :=
  let n := (format α).truncate (toBits x)
  if isNegative x then -n else n

def reduce (t : Constants α) (x : α) : Reduced α :=
  if less (abs x) t.halfLogTwo then ⟨0,x,zero⟩
  else
    let exponent :=
      if less (abs x) t.threeHalvesLogTwo then if isNegative x then -1 else 1
      else truncate (t.perLogTwo*x+copySign half x)
    let high := x-ofInt exponent*t.logTwoHigh
    let low := ofInt exponent*t.logTwoLow
    let value := high-low
    ⟨exponent,value,high-value-low⟩

def expm1Finite (t : Constants α) (x : α) : α :=
  let ⟨k,r,lost⟩ := reduce t x
  let h := half*r
  let square := r*h
  let sum := t.expSeries square
  let d := ofNat 3-sum*h
  let e := square*((sum-d)/(ofNat 6-r*d))
  if k = 0 then r-(r*e-square)
  else
    let e := r*(e-lost)-lost-square
    if k = -1 then half*(r-e)-half
    else if k = 1 then
      if less r (-twoPower (-2)) then -two*(e-(r+half)) else one+two*(r-e)
    else if k ≤ -2 ∨ 56 < k then scale (one-(e-r)) k-one
    else if k < t.expSplit then scale (one-twoPower (-k)-(e-r)) k
    else scale (r-(e+twoPower (-k))+one) k

def expm1 (t : Constants α) (x : α) : α :=
  if isNaN x then x
  else if less t.greatest x then infinity
  else if lessEqual x t.least then -one
  else if less (abs x) (twoPower t.expTiny) then x
  else expm1Finite t x

/-- A number `1+x` as `2^exponent·(1+fraction)`. -/
structure Split (α : Type) where
  exponent : Int
  fraction : α
  /-- What rounding took from the sum, relative to it. -/
  lost : α
  /-- The fraction is so small that three terms of its series are enough. -/
  small : Bool

/-- The fraction is kept between the root of one half and the root of 2, less 1 each. -/
def split (t : Constants α) (x : α) : Split α :=
  if less x t.rootTwoLessOne && (less zero x || less (abs x) t.oneLessRootHalf) then ⟨0,x,zero,false⟩
  else
    let f := format α
    let large := lessEqual (twoPower 53) x
    let sum := if large then x else one+x
    let exponent := (f.field (toBits sum) : Int)-f.bias
    let lost :=
      if large then zero else if 0 < exponent then (one-(sum-x))/sum else (x-(sum-one))/sum
    let fraction := f.fraction (toBits sum)
    let normal := ofBits (toBits (one : α)+fraction)
    let judged := fraction >>> t.grain
    if judged < t.rootTwoFraction then ⟨exponent,normal-one,lost,judged == 0⟩
    else ⟨exponent+1,scale normal (-1)-one,lost,(1 <<< (f.fractionBits-t.grain))-judged < 4⟩

def log1pFinite (t : Constants α) (x : α) : α :=
  let ⟨exponent,f,lost,small⟩ := split t x
  let k := ofInt exponent
  let high := k*t.logTwoHigh
  let low := k*t.logTwoLow+lost
  let square := half*f*f
  if small then
    if equal f zero then if exponent = 0 then zero else high+low
    else
      let sum := square*(one-two/ofNat 3*f)
      if exponent = 0 then f-sum else high-(sum-low-f)
  else
    let s := f/(two+f)
    let sum := t.logSeries (s*s)
    if exponent = 0 then f-(square-s*(square+sum)) else high-(square-(s*(square+sum)+low)-f)

def log1p (t : Constants α) (x : α) : α :=
  if isNaN x then x
  else if less x (-one) then nan
  else if equal x (-one) then -infinity
  else if isInfinite x then x
  else if less (abs x) (twoPower (-54)) then x
  else if less (abs x) (twoPower (-29)) then x-x*x*half
  else log1pFinite t x

/-- The constants of 64 bits. The terms of the series are summed in pairs. -/
def double : Constants Float where
  logTwoHigh := Float.ofBits 0x3fe62e42fee00000
  logTwoLow := Float.ofBits 0x3dea39ef35793c76
  perLogTwo := Float.ofBits 0x3ff71547652b82fe
  halfLogTwo := Float.ofBits 0x3fd62e4300000000
  threeHalvesLogTwo := Float.ofBits 0x3ff0a2b200000000
  greatest := Float.ofBits 0x40862e42fefa39ef
  least := Float.ofBits 0xc043687a00000000
  expTiny := -54
  expSplit := 20
  expSeries z :=
    let z2 := z*z
    let z4 := z2*z2
    1+z*Float.ofBits 0xbfa11111111110f4
      +z2*(Float.ofBits 0x3f5a01a019fe5585+z*Float.ofBits 0xbf14ce199eaadbb7)
      +z4*(Float.ofBits 0x3ed0cfca86e65239+z*Float.ofBits 0xbe8afdb76e09c32d)
  rootTwoLessOne := Float.ofBits 0x3fda827a00000000
  oneLessRootHalf := Float.ofBits 0x3fd2bec400000000
  grain := 32
  rootTwoFraction := 0x6a09e
  logSeries z :=
    let z2 := z*z
    let z4 := z2*z2
    let z6 := z4*z2
    z*Float.ofBits 0x3fe5555555555593
      +z2*(Float.ofBits 0x3fd999999997fa04+z*Float.ofBits 0x3fd2492494229359)
      +z4*(Float.ofBits 0x3fcc71c51d8e78af+z*Float.ofBits 0x3fc7466496cb03de)
      +z6*(Float.ofBits 0x3fc39a09d078c69f+z*Float.ofBits 0x3fc2f112df3e5244)

def single : Constants Float32 where
  logTwoHigh := Float32.ofBits 0x3f317180
  logTwoLow := Float32.ofBits 0x3717f7d1
  perLogTwo := Float32.ofBits 0x3fb8aa3b
  halfLogTwo := Float32.ofBits 0x3eb17219
  threeHalvesLogTwo := Float32.ofBits 0x3f851592
  greatest := Float32.ofBits 0x42b17217
  least := Float32.ofBits 0xc195b844
  expTiny := -25
  expSplit := 23
  expSeries z := horner z ([1,Float32.ofBits 0xbd088889,Float32.ofBits 0x3ad00d01,Float32.ofBits 0xb8a670cd,
    Float32.ofBits 0x36867e54,Float32.ofBits 0xb457edbb])
  rootTwoLessOne := Float32.ofBits 0x3ed413d7
  oneLessRootHalf := Float32.ofBits 0x3e95f620
  grain := 0
  rootTwoFraction := 0x3504f7
  logSeries z := z*horner z ([Float32.ofBits 0x3f2aaaab,Float32.ofBits 0x3ecccccd,Float32.ofBits 0x3e924925,
    Float32.ofBits 0x3e638e29,Float32.ofBits 0x3e3a3325,Float32.ofBits 0x3e1cd04f,Float32.ofBits 0x3e178897])

end Strided.Exponential
