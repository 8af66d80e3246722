import Strided.Number.Word
import Strided.Proofs.Result

set_option autoImplicit false

namespace Strided

theorem IntType.least_cases (t : IntType) : t.least = 0 ∨ t.least < 0 ∧ t.greatest = -t.least-1 := by
  cases t with
  | mk isSigned width => cases isSigned <;> cases width <;> decide

namespace Word

variable {t : IntType}

theorem bits_pos (t : IntType) : 0 < t.bits := by
  have hw : 0 < t.width.bits := by cases t.width <;> decide
  exact hw

theorem width_pos (t : IntType) : 0 < Element.width (Word t) := by
  have hw : 0 < t.width.bits/8 := by cases t.width <;> decide
  exact hw

theorem ofInt_toInt (x : Word t) : ofInt t x.toInt = x := by
  cases x with
  | mk bits =>
    simp only [ofInt,toInt]
    split
    · rw [BitVec.ofInt_toInt]
    · rw [BitVec.ofInt_natCast,BitVec.ofNat_toNat,BitVec.setWidth_eq]

theorem fits_toInt (x : Word t) : t.Fits x.toInt := by
  simp only [IntType.Fits,IntType.least,IntType.greatest,toInt,Nat.one_shiftLeft,Int.natCast_pow,Int.cast_ofNat_Int]
  split
  · have h1 := BitVec.le_toInt x.bits
    have h2 := BitVec.toInt_lt (x := x.bits)
    omega
  · have h := Int.ofNat_lt.2 x.bits.isLt
    rw [Int.natCast_pow,Int.cast_ofNat_Int] at h
    omega

theorem toInt_ofInt {x : Int} (h : t.Fits x) : (ofInt t x).toInt = x := by
  obtain ⟨hl,hg⟩ := h
  simp only [IntType.least,IntType.greatest,Nat.one_shiftLeft,Int.natCast_pow,Int.cast_ofNat_Int] at hl hg
  simp only [ofInt,toInt]
  split
  · rename_i hs
    rw [if_pos hs] at hl hg
    exact BitVec.toInt_ofInt_eq_self (bits_pos t) hl (by omega)
  · rename_i hs
    rw [if_neg hs] at hl hg
    rw [BitVec.toNat_ofInt,Int.natCast_pow,Int.cast_ofNat_Int,Int.emod_eq_of_lt hl (by omega),Int.toNat_of_nonneg hl]

theorem fits_between {x y : Word t} {z : Int} (hx : x.toInt ≤ z) (hy : z ≤ y.toInt) : t.Fits z :=
  ⟨Int.le_trans x.fits_toInt.1 hx,Int.le_trans hy y.fits_toInt.2⟩

theorem add_of_fits {x y : Word t} (h : t.Fits (x.toInt+y.toInt)) : add x y = .ok (ofInt t (x.toInt+y.toInt)) := if_pos h

theorem toInt_zero : (ofInt t 0).toInt = 0 := by
  simp only [ofInt,toInt]
  split <;> simp

theorem zero_add (x : Word t) : add (ofInt t 0) x = .ok x := by
  rw [add,toInt_zero,Int.zero_add,checked,if_pos x.fits_toInt,ofInt_toInt]

theorem wrappingMul_ofInt (a b : Int) : (ofInt t a).wrappingMul (ofInt t b) = ofInt t (a*b) := by
  rw [wrappingMul,ofInt,ofInt,ofInt,← BitVec.ofInt_mul]

theorem wrappingAdd_ofInt (a b : Int) : (ofInt t a).wrappingAdd (ofInt t b) = ofInt t (a+b) := by
  rw [wrappingAdd,ofInt,ofInt,ofInt,← BitVec.ofInt_add]

theorem add_eq_error {x y : Word t} {cause : Fault} (h : add x y = .error cause) : cause = .abort .addOverflow := by
  unfold add checked at h
  split at h
  · simp at h
  · simpa [abort,eq_comm] using h

theorem foldlM_add_eq_error {xs : List (Word t)} {x : Word t} {cause : Fault} (h : xs.foldlM add x = .error cause) :
    cause = .abort .addOverflow := by
  induction xs generalizing x with
  | nil => simp at h
  | cons y xs ih =>
    rw [List.foldlM_cons] at h
    rcases bind_eq_error.1 h with h | ⟨z,-,h⟩
    · exact add_eq_error h
    · exact ih h

end Word

end Strided
