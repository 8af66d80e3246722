import Mathlib.Data.Rat.Floor
import Strided.Proofs.Registrations
import Strided.Proofs.Word

set_option autoImplicit false

/-!
Division of integers towards the lower integer. The table's operations start from the quotient without its fraction
and take one step down where the remainder lies on the wrong side of 0. The only quotient that no word has is that
of the least value by -1, which wraps to the least value again.
-/
namespace Strided

/-- The remainders by `b` in a division towards the lower integer: on its side of 0, and nearer to it. -/
def IsRemainder (r b : Int) : Prop := 0 ≤ r ∧ r < b ∨ b < r ∧ r ≤ 0

namespace IsRemainder

variable {a b q r : Int}

theorem ne_zero (hr : IsRemainder r b) : b ≠ 0 := by
  unfold IsRemainder at hr
  omega

theorem natAbs_lt (hr : IsRemainder r b) : r.natAbs < b.natAbs := by
  unfold IsRemainder at hr
  omega

theorem sign_eq (hr : IsRemainder r b) (h0 : r ≠ 0) : r.sign = b.sign := by
  rcases hr with ⟨h,hb⟩ | ⟨hb,h⟩
  · rw [Int.sign_eq_one_of_pos (by omega),Int.sign_eq_one_of_pos (by omega)]
  · rw [Int.sign_eq_neg_one_of_neg (by omega),Int.sign_eq_neg_one_of_neg (by omega)]

theorem floor_eq (hr : IsRemainder r b) (h : b*q+r = a) : ⌊(a : ℚ)/b⌋ = q := by
  subst h
  have hb : (b : ℚ) ≠ 0 := Int.cast_ne_zero.2 hr.ne_zero
  rw [Int.cast_add,Int.cast_mul,add_div,mul_div_cancel_left₀ _ hb,Int.floor_intCast_add,add_eq_left,Int.floor_eq_zero_iff]
  rcases hr with ⟨h0,hlt⟩ | ⟨hlt,h0⟩
  · have hpos : (0 : ℚ) < b := Int.cast_pos.2 (by omega)
    exact ⟨div_nonneg (Int.cast_nonneg h0) hpos.le,(div_lt_one hpos).2 (Int.cast_lt.2 hlt)⟩
  · have hneg : (b : ℚ) < 0 := Int.cast_lt_zero.2 (by omega)
    exact ⟨div_nonneg_of_nonpos (Int.cast_nonpos.2 h0) hneg.le,(div_lt_one_of_neg hneg).2 (Int.cast_lt.2 hlt)⟩

theorem natAbs_le_of_pos (h : b*q+r = a) (h0 : 0 ≤ r) (hlt : r < b) : q.natAbs ≤ a.natAbs := by
  rcases lt_or_ge q 0 with hq | hq
  · have hm : b*(q+1) ≤ 1*(q+1) := Int.mul_le_mul_of_nonpos_right (by omega) (by omega)
    rw [Int.mul_add] at hm
    omega
  · have hm : 1*q ≤ b*q := Int.mul_le_mul_of_nonneg_right (by omega) hq
    omega

theorem natAbs_quotient_le (hr : IsRemainder r b) (h : b*q+r = a) : q.natAbs ≤ a.natAbs := by
  rcases hr with ⟨h0,hlt⟩ | ⟨hlt,h0⟩
  · exact natAbs_le_of_pos h h0 hlt
  · have hneg : -b*q+-r = -a := by rw [← h,Int.neg_mul,Int.neg_add]
    simpa using natAbs_le_of_pos hneg (by omega) (by omega)

end IsRemainder

/-- What is no farther from 0 than a value fits too, but for a sign that the type lacks and the opposite of the
least value. -/
theorem IntType.Fits.of_natAbs_le {t : IntType} {x z : Int} (hx : t.Fits x) (h : z.natAbs ≤ x.natAbs)
    (hl : z < 0 → t.least < 0) (hg : z = -t.least → z ≤ 0) : t.Fits z := by
  obtain ⟨h1,h2⟩ := hx
  constructor <;> rcases t.least_cases with h0 | ⟨h0,hn⟩ <;> omega

namespace Word

variable {t : IntType} {x y : Word t}

theorem fits_one (t : IntType) : t.Fits 1 := by
  cases t with
  | mk isSigned width => cases isSigned <;> cases width <;> decide

theorem ofInt_neg_least (t : IntType) : ofInt t (-t.least) = ofInt t t.least := by
  cases t with
  | mk isSigned width => cases isSigned <;> cases width <;> rfl

theorem fits_between_zero (x : Word t) {z : Int} (h : 0 ≤ z ∧ z ≤ x.toInt ∨ x.toInt ≤ z ∧ z ≤ 0) : t.Fits z := by
  have hz := toInt_zero (t := t)
  rcases h with ⟨h0,hle⟩ | ⟨hle,h0⟩
  · exact fits_between (hz.trans_le h0) hle
  · exact fits_between hle (h0.trans_eq hz.symm)

theorem fits_remainder {r : Int} (hr : IsRemainder r y.toInt) : t.Fits r :=
  y.fits_between_zero (hr.imp (fun h => ⟨h.1,h.2.le⟩) fun h => ⟨h.1.le,h.2⟩)

theorem tmod_between (x y : Word t) : 0 ≤ x.toInt.tmod y.toInt ∧ x.toInt.tmod y.toInt ≤ x.toInt ∨
    x.toInt ≤ x.toInt.tmod y.toInt ∧ x.toInt.tmod y.toInt ≤ 0 := by
  have hle : (x.toInt.tmod y.toInt).natAbs ≤ x.toInt.natAbs := by
    rw [Int.natAbs_tmod]
    exact Nat.mod_le _ _
  rcases Int.le_total 0 x.toInt with hx | hx
  · have h0 := Int.tmod_nonneg y.toInt hx
    omega
  · have h0 := Int.tmod_nonneg y.toInt (Int.neg_nonneg_of_nonpos hx)
    rw [Int.neg_tmod] at h0
    omega

theorem fits_tmod (x y : Word t) : t.Fits (x.toInt.tmod y.toInt) := x.fits_between_zero (x.tmod_between y)

theorem fits_tdiv (h : ¬(x.toInt = t.least ∧ y.toInt = -1)) : t.Fits (x.toInt.tdiv y.toInt) := by
  have hx := x.fits_toInt
  have hy := y.fits_toInt
  have hle := Int.natAbs_tdiv_le_natAbs x.toInt y.toInt
  apply hx.of_natAbs_le hle
  · intro hneg
    by_contra hl
    exact absurd (Int.tdiv_nonneg (a := x.toInt) (b := y.toInt) (by have := hx.1; omega) (by have := hy.1; omega)) (by omega)
  · intro hq
    by_contra hpos
    rcases t.least_cases with h0 | ⟨h0,hn⟩
    · omega
    · have hleast : x.toInt = t.least := by
        have h1 := hx.1
        have h2 := hx.2
        omega
      -- The quotient is as far from 0 as the dividend, so the divisor is a unit.
      have hunit : y.toInt.natAbs = 1 := by
        have hself : x.toInt.natAbs/y.toInt.natAbs = x.toInt.natAbs :=
          (Int.natAbs_tdiv x.toInt y.toInt).symm.trans (by omega)
        rcases Nat.div_eq_self.1 hself with h1 | h1
        · omega
        · exact h1
      rcases Int.natAbs_eq_iff.1 hunit with h1 | h1
      · rw [h1,Int.natCast_one,Int.tdiv_one] at hq
        omega
      · exact h ⟨hleast,h1⟩

theorem of_not_fits (h : ¬t.Fits (x.toInt.tdiv y.toInt)) : x.toInt = t.least ∧ y.toInt = -1 :=
  not_imp_comm.1 fits_tdiv h

theorem toInt_remainder (x y : Word t) : (remainder x y).toInt = x.toInt.tmod y.toInt := by
  rw [remainder]
  split
  · exact toInt_ofInt (fits_tmod x y)
  · rename_i h
    rw [toInt_zero,(of_not_fits h).2,Int.tmod_neg,Int.tmod_one]

/-- Where there is no quotient in the type, what is given instead is the quotient reduced into the type. -/
theorem quotient_eq (x y : Word t) : quotient x y = ofInt t (x.toInt.tdiv y.toInt) := by
  rw [quotient]
  split
  · rfl
  · rename_i h
    rw [(of_not_fits h).1,(of_not_fits h).2,Int.tdiv_neg,Int.tdiv_one,ofInt_neg_least]

theorem crossesZero_remainder : crossesZero (remainder x y) y = true ↔
    x.toInt.tmod y.toInt ≠ 0 ∧ ¬(x.toInt.tmod y.toInt < 0 ↔ y.toInt < 0) := by
  simp [crossesZero,isNegative,toInt_remainder]

theorem natAbs_tmod_lt (h : y.toInt ≠ 0) : (x.toInt.tmod y.toInt).natAbs < y.toInt.natAbs := by
  rw [Int.natAbs_tmod]
  exact Nat.mod_lt _ (Int.natAbs_pos.2 h)

theorem exists_division (x : Word t) (h : y.toInt ≠ 0) :
    ∃ q r : Int, y.toInt*q+r = x.toInt ∧ IsRemainder r y.toInt ∧ (¬(x.toInt = t.least ∧ y.toInt = -1) → t.Fits q) ∧
      floorDivide x y = .ok (ofInt t q) ∧ floorMod x y = .ok (ofInt t r) := by
  have hsplit := Int.mul_tdiv_add_tmod x.toInt y.toInt
  have hlt := natAbs_tmod_lt (x := x) h
  rw [floorDivide,floorMod,if_neg h,if_neg h]
  by_cases hc : crossesZero (remainder x y) y
  · rw [if_pos hc,if_pos hc]
    obtain ⟨h0,hs⟩ := crossesZero_remainder.1 hc
    -- One step down moves the remainder to the side of the divisor.
    have hdown : y.toInt*(x.toInt.tdiv y.toInt-1)+(x.toInt.tmod y.toInt+y.toInt) = x.toInt := by
      rw [Int.mul_sub,Int.mul_one]
      omega
    have hr : IsRemainder (x.toInt.tmod y.toInt+y.toInt) y.toInt := by
      unfold IsRemainder
      omega
    have hq : t.Fits (x.toInt.tdiv y.toInt) := by
      apply fits_tdiv
      rintro ⟨-,hy⟩
      rw [hy,Int.tmod_neg,Int.tmod_one] at h0
      exact h0 rfl
    have hq1 : t.Fits (x.toInt.tdiv y.toInt-1) := by
      have hf := fits_tmod x y
      apply x.fits_toInt.of_natAbs_le (hr.natAbs_quotient_le hdown)
      · intro _
        by_contra hl
        exact hs ⟨fun hneg => absurd hf.1 (by omega),fun hneg => absurd y.fits_toInt.1 (by omega)⟩
      · have hg := hq.2
        rcases t.least_cases with hl | ⟨-,hl⟩ <;> omega
    refine ⟨_,_,hdown,hr,fun _ => hq1,?_,?_⟩
    · rw [quotient_eq,sub,toInt_ofInt hq,toInt_ofInt (fits_one t),checked,if_pos hq1]
    · rw [add,toInt_remainder,checked,if_pos (fits_remainder hr)]
  · rw [if_neg hc,if_neg hc]
    have hr : IsRemainder (x.toInt.tmod y.toInt) y.toInt := by
      rw [crossesZero_remainder] at hc
      unfold IsRemainder
      omega
    refine ⟨_,_,hsplit,hr,fits_tdiv,?_,?_⟩
    · rw [quotient_eq]
    · rw [← toInt_remainder,ofInt_toInt]

end Word

structure FloorDivision {t : IntType} (x y q r : Word t) : Prop where
  remainder_eq : r.toInt = x.toInt-y.toInt*⌊(x.toInt : ℚ)/y.toInt⌋
  remainder_sign : r.toInt = 0 ∨ r.toInt.sign = y.toInt.sign
  remainder_lt : r.toInt.natAbs < y.toInt.natAbs
  quotient_eq : q = .ofInt t ⌊(x.toInt : ℚ)/y.toInt⌋
  quotient_wraps : q.toInt ≠ ⌊(x.toInt : ℚ)/y.toInt⌋ ↔ x.toInt = t.least ∧ y.toInt = -1
  recombined : (y.wrappingMul q).wrappingAdd r = x

namespace FloorDivision

variable {t : IntType} {x y : Word t}

theorem of_division {q r : Int} (h : y.toInt*q+r = x.toInt) (hr : IsRemainder r y.toInt)
    (hq : ¬(x.toInt = t.least ∧ y.toInt = -1) → t.Fits q) : FloorDivision x y (.ofInt t q) (.ofInt t r) := by
  have hfloor := hr.floor_eq h
  have hrem := Word.toInt_ofInt (Word.fits_remainder hr)
  constructor
  case remainder_eq => rw [hrem,hfloor]; omega
  case remainder_sign => rw [hrem]; exact or_iff_not_imp_left.2 hr.sign_eq
  case remainder_lt => rw [hrem]; exact hr.natAbs_lt
  case quotient_eq => rw [hfloor]
  case quotient_wraps =>
    rw [hfloor]
    refine ⟨fun hne => by_contra fun hno => hne (Word.toInt_ofInt (hq hno)),fun ⟨hx,hy⟩ heq => ?_⟩
    -- No word has the opposite of the least value of a type with -1.
    have hfits := heq ▸ (Word.ofInt t q).fits_toInt
    have hone := hy ▸ y.fits_toInt
    rw [hx,hy] at h
    rw [hy] at hr
    unfold IsRemainder at hr
    have hg := hfits.2
    have hl := hone.1
    rcases t.least_cases with h0 | ⟨-,h0⟩ <;> omega
  case recombined =>
    rw [← Word.ofInt_toInt y,Word.wrappingMul_ofInt,Word.wrappingAdd_ofInt,h,Word.ofInt_toInt]

end FloorDivision

namespace Tables

/-- Neither operation of the table faults. By 0 both give 0, by any other divisor the division towards the lower
integer. -/
theorem word_floor_division (t : IntType) : ∃ divide modulo,
    (word t).binary.get? "floor_divide" = some divide ∧ (word t).binary.get? "mod" = some modulo ∧
      ∀ x y : Word t, ∃ q r, divide x y = .ok q ∧ modulo x y = .ok r ∧
        (y.toInt = 0 → q.toInt = 0 ∧ r.toInt = 0) ∧ (y.toInt ≠ 0 → FloorDivision x y q r) := by
  refine ⟨Word.floorDivide,Word.floorMod,?_,?_,fun x y => ?_⟩
  · rw [word,Dictionary.get?_ofList]
    rfl
  · rw [word,Dictionary.get?_ofList]
    rfl
  · by_cases hy : y.toInt = 0
    · exact ⟨_,_,if_pos hy,if_pos hy,fun _ => ⟨Word.toInt_zero,Word.toInt_zero⟩,fun h => absurd hy h⟩
    · obtain ⟨q,r,h,hr,hq,hd,hm⟩ := Word.exists_division x hy
      exact ⟨_,_,hd,hm,fun h => absurd h hy,fun _ => .of_division h hr hq⟩

end Tables

end Strided
