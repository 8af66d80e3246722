import Mathlib.Data.Rat.Floor
import Strided.Proofs.Placed
import Strided.Proofs.Word

set_option autoImplicit false

namespace Strided

namespace IntType

theorem natAbs_sub_le {t : IntType} {x y : Int} (hx : t.Fits x) (hy : t.Fits y) : (x-y).natAbs ≤ Address.maxUnsigned := by
  have ht : t.greatest-t.least ≤ Address.maxUnsigned := by
    cases t with
    | mk isSigned width => cases isSigned <;> cases width <;> decide
  have h1 := hx.1
  have h2 := hx.2
  have h3 := hy.1
  have h4 := hy.2
  omega

end IntType

namespace Capacity

theorem Memory.le_maxBytes_of_reserves {memory : Memory} {width n : Nat} (h : memory.reserves width n = true) :
    width*n ≤ maxBytes := by
  unfold reserves at h
  rcases Bool.or_eq_true_iff.1 h with h | h
  · rw [beq_iff_eq.1 h]
    exact Nat.zero_le _
  · exact of_decide_eq_true (Bool.and_eq_true_iff.1 h).1

end Capacity

theorem Block.toList_ofVector {α : Type} [Element α] {xs : List α} (hw : 0 < Element.width α)
    (hr : Element.width α*xs.length ≤ Capacity.maxBytes) : (Block.ofVector xs).snapshot.toList = .ok xs := by
  have hn : (xs.length : Int) ≤ Address.maxSigned := by
    have hle := Nat.le_trans (Nat.le_mul_of_pos_left xs.length hw) hr
    simp only [Capacity.maxBytes,Address.maxSigned] at hle ⊢
    omega
  have hmax : xs.length ≤ Address.maxUnsigned := by
    simp only [Address.maxSigned,Address.maxUnsigned] at hn ⊢
    omega
  have hs : Shape.size [xs.length] = .ok (Shape.volume [xs.length]) := Shape.size_eq_ok_of_take fun k => by
    cases k with
    | zero => exact (by decide : 1 ≤ Address.maxUnsigned)
    | succ k => simpa [Shape.volume] using hmax
  rw [Shape.volume,Shape.volume,Nat.mul_one] at hs
  exact (Block.filled_ofVector xs).toList_snapshot hs hn hr

namespace Range

/-- Going in steps of the given sign, `x` comes before the stop. -/
def Before (step stop x : Int) : Prop := if 0 < step then x < stop else stop < x

theorem lt_ceil_iff {start stop step : Int} (h : step ≠ 0) (k : Nat) :
    (k : Int) < ⌈((stop-start : Int) : ℚ)/step⌉ ↔ Before step stop (start+k*step) := by
  rw [Int.lt_ceil,Before]
  rcases lt_or_gt_of_ne h with hneg | hpos
  · rw [if_neg (by omega),lt_div_iff_of_neg (Int.cast_lt_zero.2 hneg),← Int.cast_mul,Int.cast_lt]
    omega
  · rw [if_pos hpos,lt_div_iff₀ (Int.cast_pos.2 hpos),← Int.cast_mul,Int.cast_lt]
    omega

theorem lt_div_up_iff {a b k : Nat} (hb : 0 < b) : k < (a+b-1)/b ↔ k*b < a := by
  rw [Nat.lt_iff_add_one_le,Nat.le_div_iff_mul_le hb,Nat.succ_mul]
  omega

theorem not_before {start stop step : Int} (h : stop-start = 0 ∨ decide (0 < stop-start) ≠ decide (0 < step)) (k : Nat) :
    ¬ Before step stop (start+k*step) := by
  simp only [ne_eq,decide_eq_decide] at h
  rw [Before]
  split
  · have hk : 0 ≤ (k : Int)*step := Int.mul_nonneg (Int.natCast_nonneg k) (by omega)
    omega
  · have hk : (k : Int)*step ≤ 0 := Int.mul_nonpos_of_nonneg_of_nonpos (Int.natCast_nonneg k) (by omega)
    omega

theorem before_iff {start stop step : Int} (h : step ≠ 0)
    (hd : ¬ (stop-start = 0 ∨ decide (0 < stop-start) ≠ decide (0 < step))) (k : Nat) :
    Before step stop (start+k*step) ↔ k*step.natAbs < (stop-start).natAbs := by
  simp only [ne_eq,decide_eq_decide] at hd
  rw [Before]
  rcases Int.natAbs_eq step with hs | hs
  · have hk : (k : Int)*step = ((k*step.natAbs : Nat) : Int) := by rw [Int.natCast_mul,← hs]
    rw [if_pos (by omega),hk]
    omega
  · have hk : (k : Int)*step = -((k*step.natAbs : Nat) : Int) := by rw [Int.natCast_mul,← Int.mul_neg,← hs]
    rw [if_neg (by omega),hk]
    omega

theorem countInt_spec {start stop step : Int} (h : step ≠ 0) (hspan : (stop-start).natAbs ≤ Address.maxUnsigned) :
    ∃ n : Nat, countInt start stop step = .ok n ∧ ∀ k : Nat, k < n ↔ Before step stop (start+k*step) := by
  by_cases hd : stop-start = 0 ∨ decide (0 < stop-start) ≠ decide (0 < step)
  · exact ⟨0,if_pos hd,fun k => ⟨nofun,fun hb => absurd hb (not_before hd k)⟩⟩
  have hb : 0 < step.natAbs := Int.natAbs_pos.2 h
  have hle : ((stop-start).natAbs+step.natAbs-1)/step.natAbs ≤ (stop-start).natAbs := by
    by_contra hlt
    have hm := (lt_div_up_iff hb).1 (Nat.lt_of_not_le hlt)
    exact absurd (Nat.le_mul_of_pos_right (stop-start).natAbs hb) (Nat.not_le_of_lt hm)
  refine ⟨_,(if_neg hd).trans (if_pos (Nat.le_trans hle hspan)),fun k => ?_⟩
  rw [lt_div_up_iff hb,before_iff h hd]

variable {t : IntType}

theorem fits_of_before {start stop step : Word t} {k : Nat}
    (hk : Before step.toInt stop.toInt (start.toInt+k*step.toInt)) : t.Fits (start.toInt+k*step.toInt) := by
  rw [Before] at hk
  split at hk
  · have hm : 0 ≤ (k : Int)*step.toInt := Int.mul_nonneg (Int.natCast_nonneg k) (by omega)
    exact Word.fits_between (x := start) (y := stop) (by omega) (by omega)
  · have hm : (k : Int)*step.toInt ≤ 0 := Int.mul_nonpos_of_nonneg_of_nonpos (Int.natCast_nonneg k) (by omega)
    exact Word.fits_between (x := stop) (y := start) (by omega) (by omega)

theorem accumulateOnto_eq {step x : Word t} {n : Nat} (values : List (Word t))
    (h : ∀ k : Nat, k ≤ n → t.Fits (x.toInt+k*step.toInt)) :
    accumulateOnto step n x values =
      .ok (values.reverse++(List.range (n+1)).map fun k : Nat => Word.ofInt t (x.toInt+k*step.toInt)) := by
  induction n generalizing x values with
  | zero => simp [accumulateOnto,Word.ofInt_toInt]
  | succ n ih =>
    have hnext : t.Fits (x.toInt+step.toInt) := by simpa using h 1 (by omega)
    have hrest (k : Nat) : (Word.ofInt t (x.toInt+step.toInt)).toInt+k*step.toInt = x.toInt+(k+1 : Nat)*step.toInt := by
      rw [Word.toInt_ofInt hnext,Int.natCast_succ,Int.add_mul,Int.one_mul]
      omega
    have hadd : Arithmetic.add x step = .ok (Word.ofInt t (x.toInt+step.toInt)) := Word.add_of_fits hnext
    have hr := ih (x :: values) fun k hk => by
      rw [hrest]
      exact h (k+1) (by omega)
    rw [accumulateOnto,hadd,ok_bind,hr,List.range_succ_eq_map (n := n+1),List.map_cons,List.map_map]
    simp only [hrest,Function.comp_def,List.reverse_cons,List.append_assoc,List.singleton_append,Nat.succ_eq_add_one]
    simp [Word.ofInt_toInt]

theorem accumulate_eq {start step : Word t} {n : Nat} (h : ∀ k : Nat, k < n → t.Fits (start.toInt+k*step.toInt)) :
    accumulate start step n =
      .ok ((List.range n).map fun k : Nat => Word.ofInt t (start.toInt+k*step.toInt)) := by
  cases n with
  | zero => rfl
  | succ n => exact accumulateOnto_eq [] fun k hk => h k (by omega)

/-- For every integer type, all bounds and all steps but 0, the count is the exact quotient rounded up, and no count is
too large for an address. Where so many values cannot be reserved the range is refused for that alone. Where they can
be, its values are the exact ones in order, none of them lost to an overflow, and they are all that come before the
stop. -/
theorem values_exact (memory : Capacity.Memory) (start stop step : Word t) (h : step.toInt ≠ 0) :
    ∃ n : Nat, (n : Int) = max 0 ⌈((stop.toInt-start.toInt : Int) : ℚ)/step.toInt⌉ ∧
      Countable.count start stop step = .ok n ∧
      (memory.reserves (Element.width (Word t)) n = false → values memory start stop step = refuse (.tooLarge n)) ∧
      (memory.reserves (Element.width (Word t)) n = true →
        ∃ xs, values memory start stop step = .ok (Block.ofVector xs) ∧ (Block.ofVector xs).snapshot.toList = .ok xs ∧
          xs.map Word.toInt = (List.range n).map fun k : Nat => start.toInt+k*step.toInt) ∧
      ∀ k : Nat, k < n ↔
        if 0 < step.toInt then start.toInt+k*step.toInt < stop.toInt else stop.toInt < start.toInt+k*step.toInt := by
  obtain ⟨n,hn,hbefore⟩ := countInt_spec h (IntType.natAbs_sub_le stop.fits_toInt start.fits_toInt)
  have hcount : Countable.count start stop step = .ok n := hn
  have hzero : ¬ Countable.isZero step = true := by simpa [Countable.isZero] using h
  have hfits (k : Nat) (hk : k < n) : t.Fits (start.toInt+k*step.toInt) := fits_of_before ((hbefore k).1 hk)
  refine ⟨n,?_,hcount,fun hlarge => ?_,fun hroom => ?_,hbefore⟩
  -- The count and the quotient rounded up have the same numbers below them.
  · have hlt (k : Nat) := (hbefore k).trans (lt_ceil_iff h k).symm
    have h1 := hlt n
    have h2 := hlt (n-1)
    omega
  · rw [values,if_neg hzero,hcount,ok_bind,hlarge]
    rfl
  · have hbytes := Capacity.Memory.le_maxBytes_of_reserves hroom
    have hle := Nat.le_trans (Nat.le_mul_of_pos_left n (Word.width_pos t)) hbytes
    refine ⟨(List.range n).map fun k : Nat => Word.ofInt t (start.toInt+k*step.toInt),?_,?_,?_⟩
    · rw [values,if_neg hzero,hcount,ok_bind,hroom,accumulate_eq hfits]
      rfl
    · refine Block.toList_ofVector (Word.width_pos t) ?_
      rwa [List.length_map,List.length_range]
    · rw [List.map_map]
      exact List.map_congr_left fun k hk => Word.toInt_ofInt (hfits k (List.mem_range.1 hk))

/-- From the greatest signed byte down in the longest steps there are: the span is wider than the type, and the third
value would be outside it. Memory grants two bytes and no more. -/
theorem bytes_values_exact :
    let byte := Word.ofInt ⟨true,.w8⟩
    let memory : Capacity.Memory := ⟨fun bytes => bytes ≤ 2⟩
    (byte (-128)).toInt ≠ 0 ∧ memory.reserves (Element.width (Word ⟨true,.w8⟩)) 2 = true ∧
      Countable.count (byte 127) (byte (-128)) (byte (-128)) = .ok 2 ∧
      ∃ xs, values memory (byte 127) (byte (-128)) (byte (-128)) = .ok (Block.ofVector xs) ∧
        (Block.ofVector xs).snapshot.toList = .ok xs ∧ xs.map Word.toInt = [127,-1] := by
  intro byte memory
  have hstep : (byte (-128)).toInt ≠ 0 := by decide
  obtain ⟨n,-,hn,-,hvalues,-⟩ := values_exact memory (byte 127) (byte (-128)) (byte (-128)) hstep
  have hcount : Countable.count (byte 127) (byte (-128)) (byte (-128)) = .ok 2 := by decide +kernel
  obtain rfl := Except.ok.inj (hn.symm.trans hcount)
  obtain ⟨xs,hxs,hlist,hmap⟩ := hvalues (by decide)
  exact ⟨hstep,by decide,hcount,xs,hxs,hlist,hmap⟩

end Range

end Strided
