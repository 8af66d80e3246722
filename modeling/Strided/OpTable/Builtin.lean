import Strided.Number.Complex
import Strided.Number.Word
import Strided.OpTable

set_option autoImplicit false

namespace Strided.Tables

def comparisons {α : Type} (equal less lessEqual : α → α → Bool) : Dictionary (α → α → Bool) :=
  .ofList [
    ("equal",equal),
    ("not_equal",fun x y => !equal x y),
    ("less",less),
    ("less_equal",lessEqual),
    ("greater",fun x y => less y x),
    ("greater_equal",fun x y => lessEqual y x)]

def equalities {α : Type} (equal : α → α → Bool) : Dictionary (α → α → Bool) :=
  .ofList [("equal",equal),("not_equal",fun x y => !equal x y)]

def total {α : Type} (f : α → α) : α → Result α := fun x => .ok (f x)

def total₂ {α : Type} (f : α → α → α) : α → α → Result α := fun x y => .ok (f x y)

def word (t : IntType) : OpTable (Word t) where
  unary := .ofList [
    ("negative",total Word.wrappingNeg),
    ("absolute",total Word.wrappingAbs),
    ("bitwise_not",total Word.not),
    ("invert",total Word.not)]
  binary := .ofList [
    ("add",total₂ Word.wrappingAdd),
    ("subtract",total₂ Word.wrappingSub),
    ("multiply",total₂ Word.wrappingMul),
    ("floor_divide",Word.floorDivide),
    ("mod",Word.floorMod),
    ("maximum",total₂ fun x y => if x.toInt < y.toInt then y else x),
    ("minimum",total₂ fun x y => if y.toInt < x.toInt then y else x),
    ("bitwise_and",total₂ Word.and),
    ("bitwise_or",total₂ Word.or),
    ("bitwise_xor",total₂ Word.xor),
    ("left_shift",total₂ Word.shiftLeft),
    ("right_shift",total₂ Word.shiftRight)]
  compare := comparisons (fun x y => x.toInt == y.toInt) (fun x y => x.toInt < y.toInt) (fun x y => x.toInt ≤ y.toInt)

def floating (α : Type) [Elementary α] : OpTable α where
  unary := .ofList [
    ("absolute",total Floating.abs),
    ("fabs",total Floating.abs),
    ("negative",total fun x => -x),
    ("sin",total Elementary.sin),
    ("cos",total Elementary.cos),
    ("tan",total Elementary.tan),
    ("arcsin",total Elementary.arcsin),
    ("arccos",total Elementary.arccos),
    ("arctan",total Elementary.arctan),
    ("sinh",total Elementary.sinh),
    ("cosh",total Elementary.cosh),
    ("tanh",total Elementary.tanh),
    ("arcsinh",total Elementary.arcsinh),
    ("arccosh",total Elementary.arccosh),
    ("arctanh",total Elementary.arctanh),
    ("exp",total Elementary.exp),
    ("expm1",total Elementary.expm1),
    ("log",total Elementary.log),
    ("log2",total Elementary.log2),
    ("log10",total Elementary.log10),
    ("log1p",total Elementary.log1p),
    ("sqrt",total Floating.sqrt),
    ("floor",total Floating.floor),
    ("ceil",total Floating.ceil),
    ("rint",total Floating.rint),
    ("degrees",total Floating.degrees),
    ("rad2deg",total Floating.degrees),
    ("radians",total Floating.radians),
    ("deg2rad",total Floating.radians)]
  binary := .ofList [
    ("add",total₂ fun x y => x+y),
    ("subtract",total₂ fun x y => x-y),
    ("multiply",total₂ fun x y => x*y),
    ("divide",total₂ fun x y => x/y),
    ("floor_divide",total₂ Floating.floorDivide),
    ("power",total₂ Elementary.power),
    ("maximum",total₂ Floating.maximum),
    ("minimum",total₂ Floating.minimum),
    ("fmax",total₂ Floating.fmax),
    ("fmin",total₂ Floating.fmin),
    ("fmod",total₂ Floating.fmod),
    ("mod",total₂ Floating.floorMod),
    ("hypot",total₂ Elementary.hypot),
    ("arctan2",total₂ Elementary.arctan2),
    ("copysign",total₂ Floating.copySign),
    ("logaddexp",total₂ Elementary.logAddExp),
    ("logaddexp2",total₂ Elementary.logAddExp2)]
  compare := comparisons Floating.equal Floating.less Floating.lessEqual

def complex (α : Type) [Elementary α] : OpTable (Complex α) where
  unary := .ofList [
    ("negative",total Complex.neg),
    ("conjugate",total Complex.conjugate),
    ("exp",total Complex.exp),
    ("log",total Complex.log),
    ("sqrt",total Complex.sqrt),
    ("sin",total Complex.sin),
    ("cos",total Complex.cos)]
  binary := .ofList [
    ("add",total₂ Complex.add),
    ("subtract",total₂ Complex.sub),
    ("multiply",total₂ Complex.mul),
    ("divide",total₂ Complex.div),
    ("power",total₂ Complex.power)]
  compare := equalities Complex.equal

def bool : OpTable Bool where
  unary := .ofList [("logical_not",total not),("invert",total not)]
  binary := .ofList [
    ("logical_and",total₂ and),
    ("logical_or",total₂ or),
    ("logical_xor",total₂ xor),
    ("bitwise_and",total₂ and),
    ("bitwise_or",total₂ or),
    ("bitwise_xor",total₂ xor)]
  compare := equalities (· == ·)

end Strided.Tables
