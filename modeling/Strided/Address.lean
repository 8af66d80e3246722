import Strided.Fault

set_option autoImplicit false

/-!
Address arithmetic on 64-bit words. Extents, counts and offsets are unsigned words held as `Nat`; strides and
positions are signed words held as `Int`. A sum or product that leaves its range aborts. Reading a word the other
way keeps its bits.
-/
namespace Strided.Address

def modulus : Nat := 0x10000000000000000

def maxUnsigned : Nat := 0xffffffffffffffff

def minSigned : Int := -0x8000000000000000

def maxSigned : Int := 0x7fffffffffffffff

/-- The signed word with the bits of the unsigned word `n`. -/
def signed (n : Nat) : Int := (n : Int).bmod modulus

def unsigned (x : Int) : Nat := (x % modulus).toNat

def IsSigned (x : Int) : Prop := minSigned ≤ x ∧ x ≤ maxSigned

instance (x : Int) : Decidable (IsSigned x) := inferInstanceAs (Decidable (_ ∧ _))

def add (x y : Int) : Result Int :=
  if IsSigned (x+y) then .ok (x+y) else abort .addOverflow

def sub (x y : Int) : Result Int :=
  if IsSigned (x-y) then .ok (x-y) else abort .subtractOverflow

def mul (x y : Int) : Result Int :=
  if IsSigned (x*y) then .ok (x*y) else abort .multiplyOverflow

/-- The product, or the end of the signed range that it passes. -/
def saturatingMul (x y : Int) : Int := max minSigned (min maxSigned (x*y))

def addCount (m n : Nat) : Result Nat :=
  if m+n ≤ maxUnsigned then .ok (m+n) else abort .addOverflow

def mulCount (m n : Nat) : Result Nat :=
  if m*n ≤ maxUnsigned then .ok (m*n) else abort .multiplyOverflow

theorem signed_of_le {n : Nat} (h : (n : Int) ≤ maxSigned) : signed n = n := by
  simp only [signed,modulus,maxSigned,Int.bmod_def] at *
  omega

theorem unsigned_of_nonneg {x : Int} (h0 : 0 ≤ x) (h : x ≤ maxSigned) : (unsigned x : Int) = x := by
  simp only [unsigned,modulus,maxSigned] at *
  omega

theorem add_eq_ok {x y : Int} (h : IsSigned (x+y)) : add x y = .ok (x+y) := if_pos h

theorem sub_eq_ok {x y : Int} (h : IsSigned (x-y)) : sub x y = .ok (x-y) := if_pos h

theorem mul_eq_ok {x y : Int} (h : IsSigned (x*y)) : mul x y = .ok (x*y) := if_pos h

end Strided.Address
