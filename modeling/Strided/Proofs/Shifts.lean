import Mathlib.Data.Rat.Floor
import Strided.Proofs.Registrations
import Strided.Proofs.Word

set_option autoImplicit false

namespace Strided

theorem ediv_two_pow_of_fits {x : Int} {n : Nat} (hl : -2^n ≤ x) (hg : x < 2^n) : x/2^n = if x < 0 then -1 else 0 := by
  split
  · have hunique : x/2^n = -1 ∧ x%2^n = x+2^n := (Int.ediv_emod_unique (by positivity)).2 ⟨by omega,by omega,by omega⟩
    exact hunique.1
  · exact Int.ediv_eq_zero_of_lt (by omega) hg

namespace Word

variable {t : IntType} {x y : Word t} {n : Nat}

theorem bounded (x : Word t) : -2^t.bits ≤ x.toInt ∧ x.toInt < 2^t.bits := by
  have hbounds : -2^t.bits ≤ t.least ∧ t.greatest < 2^t.bits := by
    cases t with
    | mk isSigned width => cases isSigned <;> cases width <;> decide
  exact ⟨hbounds.1.trans x.fits_toInt.1,x.fits_toInt.2.trans_lt hbounds.2⟩

theorem places?_eq (h : y.toInt = n) : y.places? = if n < t.bits then some n else none := by
  simp [places?,h]

theorem shiftLeft_bits (x : Word t) (n : Nat) : (⟨x.bits <<< n⟩ : Word t) = ofInt t (x.toInt*2^n) := by
  have hx : BitVec.ofInt t.bits x.toInt = x.bits := congrArg Word.bits x.ofInt_toInt
  have hpow : BitVec.ofInt t.bits (2^n) = BitVec.twoPow t.bits n := by
    have hcast : (2^n : Int) = (2^n : Nat) := by push_cast; rfl
    rw [hcast,BitVec.ofInt_natCast]
    exact BitVec.eq_of_toNat_eq (by rw [BitVec.toNat_ofNat,BitVec.toNat_twoPow])
  rw [ofInt,BitVec.ofInt_mul,hx,hpow,BitVec.shiftLeft_eq_mul_twoPow]

theorem shiftLeft_eq (x : Word t) (h : y.toInt = n) : x.shiftLeft y = ofInt t (x.toInt*2^n) := by
  rw [← shiftLeft_bits]
  by_cases hn : n < t.bits
  · simp only [shiftLeft,places?_eq h,if_pos hn]
  · simp only [shiftLeft,places?_eq h,if_neg hn,BitVec.shiftLeft_eq_zero (Nat.le_of_not_lt hn)]
    rfl

theorem toInt_shiftRight_bits (x : Word t) (n : Nat) :
    (if t.isSigned then ⟨x.bits.sshiftRight n⟩ else ⟨x.bits >>> n⟩ : Word t).toInt = x.toInt/2^n := by
  simp only [toInt]
  split
  · rw [BitVec.toInt_sshiftRight,Int.shiftRight_eq_div_pow]
    norm_cast
  · rw [BitVec.toNat_ushiftRight,Nat.shiftRight_eq_div_pow]
    norm_cast

theorem toInt_signFill (x : Word t) :
    (if x.isNegative then ofInt t (-1) else ofInt t 0).toInt = if x.toInt < 0 then -1 else 0 := by
  simp only [isNegative,decide_eq_true_eq]
  split
  · rename_i hneg
    have hx := x.fits_toInt
    rcases t.least_cases with h0 | ⟨h0,hg⟩
    · exact absurd hx.1 (by omega)
    · exact toInt_ofInt ⟨by omega,by omega⟩
  · exact toInt_zero

theorem toInt_shiftRight (x : Word t) (h : y.toInt = n) : (x.shiftRight y).toInt = x.toInt/2^n := by
  by_cases hn : n < t.bits
  · simp only [shiftRight,places?_eq h,if_pos hn,toInt_shiftRight_bits]
  · obtain ⟨hl,hg⟩ := x.bounded
    have hpow : (2 : Int)^t.bits ≤ 2^n := pow_le_pow_right₀ (by decide) (Nat.le_of_not_lt hn)
    rw [ediv_two_pow_of_fits (by omega) (by omega)]
    simp only [shiftRight,places?_eq h,if_neg hn,toInt_signFill]

theorem places?_of_neg (h : y.toInt < 0) : y.places? = none := if_neg fun hy => absurd hy.1 (Int.not_le.2 h)

theorem exists_places {z sum : Word t} (hy : 0 ≤ y.toInt) (hz : 0 ≤ z.toInt) (hsum : sum.toInt = y.toInt+z.toInt) :
    ∃ m n : Nat, y.toInt = m ∧ z.toInt = n ∧ sum.toInt = (m+n : Nat) := by
  obtain ⟨m,hm⟩ := Int.eq_ofNat_of_zero_le hy
  obtain ⟨n,hn⟩ := Int.eq_ofNat_of_zero_le hz
  exact ⟨m,n,hm,hn,by omega⟩

theorem ext_toInt (h : x.toInt = y.toInt) : x = y := by
  rw [← ofInt_toInt x,h,ofInt_toInt]

end Word

structure ArithmeticShifts {t : IntType} (left right : Word t → Word t → Word t) : Prop where
  left_multiplies : ∀ (x y : Word t) (n : Nat), y.toInt = n → left x y = .ofInt t (x.toInt*2^n)
  right_divides : ∀ (x y : Word t) (n : Nat), y.toInt = n → (right x y).toInt = ⌊(x.toInt : ℚ)/2^n⌋
  left_of_neg : ∀ x y : Word t, y.toInt < 0 → (left x y).toInt = 0
  right_of_neg : ∀ x y : Word t, y.toInt < 0 → (right x y).toInt = if x.toInt < 0 then -1 else 0
  left_left : ∀ x y z sum : Word t, 0 ≤ y.toInt → 0 ≤ z.toInt → sum.toInt = y.toInt+z.toInt →
    left (left x y) z = left x sum
  right_right : ∀ x y z sum : Word t, 0 ≤ y.toInt → 0 ≤ z.toInt → sum.toInt = y.toInt+z.toInt →
    right (right x y) z = right x sum

theorem Word.arithmeticShifts (t : IntType) : ArithmeticShifts (t := t) shiftLeft shiftRight := by
  constructor
  case left_multiplies => exact fun x y n h => shiftLeft_eq x h
  case right_divides =>
    intro x y n h
    rw [toInt_shiftRight x h]
    exact_mod_cast (Rat.floor_intCast_div_natCast x.toInt (2^n)).symm
  case left_of_neg =>
    intro x y h
    simp only [shiftLeft,places?_of_neg h,toInt_zero]
  case right_of_neg =>
    intro x y h
    simp only [shiftRight,places?_of_neg h,toInt_signFill]
  case left_left =>
    intro x y z sum hy hz hsum
    obtain ⟨m,n,hm,hn,hmn⟩ := exists_places hy hz hsum
    have hmul : ∀ a b : Int, ofInt t ((ofInt t a).toInt*b) = ofInt t (a*b) := fun a b => by
      rw [← wrappingMul_ofInt,ofInt_toInt,wrappingMul_ofInt]
    rw [shiftLeft_eq _ hn,shiftLeft_eq _ hm,shiftLeft_eq _ hmn,hmul,Int.mul_assoc,pow_add]
  case right_right =>
    intro x y z sum hy hz hsum
    obtain ⟨m,n,hm,hn,hmn⟩ := exists_places hy hz hsum
    apply ext_toInt
    rw [toInt_shiftRight _ hn,toInt_shiftRight _ hm,toInt_shiftRight _ hmn,pow_add,Int.ediv_ediv_of_nonneg (by positivity)]

/-- The shifts of the table never fault. They are arithmetic shifts for every number of places, past the width too. -/
theorem Tables.word_shifts (t : IntType) : ∃ left right : Word t → Word t → Word t,
    (word t).binary.get? "left_shift" = some (total₂ left) ∧ (word t).binary.get? "right_shift" = some (total₂ right) ∧
      ArithmeticShifts left right := by
  refine ⟨Word.shiftLeft,Word.shiftRight,?_,?_,Word.arithmeticShifts t⟩
  · rw [word,Dictionary.get?_ofList]
    rfl
  · rw [word,Dictionary.get?_ofList]
    rfl

end Strided
