import Mathlib.Data.List.TakeWhile
import Mathlib.Tactic.SplitIfs
import Strided.Proofs.RowMajor

set_option autoImplicit false

/-!
What becomes of every shape when it is measured. The size is a product of extents from the outermost axis inwards, and
the row-major strides are one from the innermost axis outwards, of extents read as signed words; each is computed if
none of its partial products leaves its range, and aborts otherwise. An extent 0 ends neither product early where it
comes too late.
-/
namespace Strided

namespace Shape

theorem le_span_of_mem {s : Shape} {d : Nat} (h : d ∈ s) : d ≤ s.span := by
  obtain ⟨axis,h⟩ := List.mem_iff_getElem?.1 h
  exact extent_le_span_of_getElem? h

/-- No product of outer extents leaves the range of a count. -/
def Countable (s : Shape) : Prop := ∀ k, volume (s.take k) ≤ Address.maxUnsigned

instance (s : Shape) : Decidable s.Countable :=
  decidable_of_iff (∀ k < s.length+1, volume (s.take k) ≤ Address.maxUnsigned) (by
    refine ⟨fun h k => ?_,fun h k _ => h k⟩
    by_cases hk : k < s.length
    · exact h k (by omega)
    · have hs := h s.length (by omega)
      rwa [List.take_of_length_le (by omega)] at hs ⊢)

theorem forall_volume_take_cons {bound n d : Nat} {s : Shape} :
    (∀ k, n*volume ((d :: s).take k) ≤ bound) ↔ n ≤ bound ∧ ∀ k, n*d*volume (s.take k) ≤ bound := by
  refine ⟨fun h => ⟨by simpa [volume] using h 0,fun k => by simpa [volume,Nat.mul_assoc] using h (k+1)⟩,?_⟩
  rintro ⟨hn,h⟩ (_ | k)
  · simpa [volume] using hn
  · simpa [volume,Nat.mul_assoc] using h k

theorem foldlM_mulCount_eq_abort {s : Shape} {n : Nat} (hn : n ≤ Address.maxUnsigned)
    (h : ¬ ∀ k, n*volume (s.take k) ≤ Address.maxUnsigned) :
    s.foldlM Address.mulCount n = abort .multiplyOverflow := by
  induction s generalizing n with
  | nil => exact absurd (fun k => by simpa [volume] using hn) h
  | cons d s ih =>
    rw [List.foldlM_cons,Address.mulCount]
    by_cases hd : n*d ≤ Address.maxUnsigned
    · rw [if_pos hd,ok_bind]
      exact ih hd fun hs => h (forall_volume_take_cons.2 ⟨hn,hs⟩)
    · rw [if_neg hd]
      rfl

theorem size_eq (s : Shape) : s.size = if s.Countable then .ok s.volume else abort .multiplyOverflow := by
  by_cases h : s.Countable
  · rw [if_pos h,size_eq_ok_of_take h]
  · rw [if_neg h]
    exact foldlM_mulCount_eq_abort (by decide) (by simpa only [Nat.one_mul,Countable] using h)

theorem countable_of_span_le {s : Shape} (h : s.span ≤ Address.maxUnsigned) : s.Countable := fun k =>
  Nat.le_trans (volume_le_span _) (Nat.le_trans (span_take_le s k) h)

theorem volume_takeWhile_pos (s : Shape) : 0 < volume (s.takeWhile (· ≠ 0)) := by
  refine Nat.pos_of_ne_zero fun hv => ?_
  have h0 := List.mem_takeWhile_imp ((volume_eq_zero_iff _).1 hv)
  simp at h0

/-- The first extent 0 ends the products that are other than 0, the last of which is the largest. -/
theorem forall_volume_take_iff {bound n : Nat} {s : Shape} (h0 : 0 ∈ s) :
    (∀ k, n*volume (s.take k) ≤ bound) ↔ n*volume (s.takeWhile (· ≠ 0)) ≤ bound := by
  induction s generalizing n with
  | nil => simp at h0
  | cons d s ih =>
    rw [forall_volume_take_cons]
    by_cases hd : d = 0
    · simp [hd,volume]
    · have hs : 0 ∈ s := (List.mem_cons.1 h0).resolve_left (Ne.symm hd)
      have hp := Nat.mul_pos (Nat.pos_of_ne_zero hd) (volume_takeWhile_pos s)
      have hle := Nat.le_mul_of_pos_right n hp
      rw [ih hs,List.takeWhile_cons_of_pos (by simpa using hd),volume,Nat.mul_assoc]
      exact ⟨And.right,fun h => ⟨Nat.le_trans hle h,h⟩⟩

theorem countable_iff_of_zero_mem {s : Shape} (h0 : 0 ∈ s) :
    s.Countable ↔ volume (s.takeWhile (· ≠ 0)) ≤ Address.maxUnsigned := by
  have hs := @forall_volume_take_iff Address.maxUnsigned 1 s h0
  simp only [Nat.one_mul] at hs
  exact hs

end Shape

namespace Layout

def signedVolume : Shape → Int
  | [] => 1
  | d :: s => signedVolume s*Address.signed d

def steppedAxes : Shape → List Axis
  | [] => []
  | d :: s => ⟨d,signedVolume s⟩ :: steppedAxes s

theorem map_extent_steppedAxes (s : Shape) : (steppedAxes s).map Axis.extent = s := by
  induction s with
  | nil => rfl
  | cons d s ih => simp [steppedAxes,ih]

theorem signedVolume_eq_volume {s : Shape} (h : ∀ d ∈ s, (d : Int) ≤ Address.maxSigned) :
    signedVolume s = s.volume := by
  induction s with
  | nil => rfl
  | cons d s ih =>
    rw [signedVolume,ih fun e he => h e (by simp [he]),Address.signed_of_le (h d (by simp)),Shape.volume,
      Int.natCast_mul,Int.mul_comm]

end Layout

namespace Shape

/-- No stride, which is a product of inner extents read as signed words, leaves the signed range. -/
def Strideable (s : Shape) : Prop := ∀ k, Address.IsSigned (Layout.signedVolume (s.drop (k+1)))

theorem strideable_nil : Strideable [] := fun k => by
  rw [List.drop_nil]
  decide

theorem strideable_cons {d : Nat} {s : Shape} :
    Strideable (d :: s) ↔ Address.IsSigned (Layout.signedVolume s) ∧ s.Strideable := by
  refine ⟨fun h => ⟨h 0,fun k => h (k+1)⟩,?_⟩
  rintro ⟨hs,h⟩ (_ | k)
  · exact hs
  · exact h k

instance decidableStrideable : (s : Shape) → Decidable s.Strideable
  | [] => isTrue strideable_nil
  | _ :: s =>
    have := decidableStrideable s
    decidable_of_iff _ strideable_cons.symm

def InRange (s : Shape) : Prop := s.Strideable ∧ s.Countable

instance (s : Shape) : Decidable s.InRange := inferInstanceAs (Decidable (_ ∧ _))

theorem isSigned_signedVolume {s : Shape} (h : (s.span : Int) ≤ Address.maxSigned) :
    Address.IsSigned (Layout.signedVolume s) := by
  rw [Layout.signedVolume_eq_volume fun d hd => by have := le_span_of_mem hd; omega]
  exact Address.isSigned_natCast (Int.le_trans (Int.ofNat_le.2 s.volume_le_span) h)

theorem inRange_of_span_le {s : Shape} (h : (s.span : Int) ≤ Address.maxSigned) : s.InRange := by
  refine ⟨fun k => isSigned_signedVolume (Int.le_trans (Int.ofNat_le.2 (span_drop_le s (k+1))) h),?_⟩
  refine countable_of_span_le ?_
  simp only [Address.maxSigned,Address.maxUnsigned] at h ⊢
  omega

theorem inRange_of_volume_pos {s : Shape} (hp : 0 < s.volume) (hv : (s.volume : Int) ≤ Address.maxSigned) : s.InRange := by
  have h0 : 0 ∉ s := fun h0 => Nat.ne_of_gt hp ((volume_eq_zero_iff s).2 h0)
  rw [volume_eq_span h0] at hv
  exact inRange_of_span_le hv

end Shape

namespace Layout

theorem rowMajorAxes_eq (s : Shape) :
    rowMajorAxes s = if s.Strideable then .ok (steppedAxes s) else abort .multiplyOverflow := by
  induction s with
  | nil => exact (if_pos Shape.strideable_nil).symm
  | cons d s ih =>
    cases s with
    | nil => exact (if_pos (Shape.strideable_cons.2 ⟨by decide,Shape.strideable_nil⟩)).symm
    | cons e s =>
      rw [rowMajorAxes,ih]
      by_cases hs : Shape.Strideable (e :: s)
      · have hd : Shape.Strideable (d :: e :: s) ↔ Address.IsSigned (signedVolume s*Address.signed e) :=
          Shape.strideable_cons.trans (and_iff_left hs)
        rw [if_pos hs,ok_bind]
        simp only [hd,steppedAxes,Address.mul]
        split_ifs <;> rfl
      · rw [if_neg hs,if_neg fun h => hs (Shape.strideable_cons.1 h).2]
        rfl

theorem rowMajor_bind_size {β : Type} (s : Shape) (f : Layout → Nat → Result β) :
    (rowMajor s >>= fun l => l.size >>= f l) =
      if s.InRange then f ⟨steppedAxes s⟩ s.volume else abort .multiplyOverflow := by
  have hd : Layout.dims ⟨steppedAxes s⟩ = s := map_extent_steppedAxes s
  rw [rowMajor,rowMajorAxes_eq]
  by_cases hs : s.Strideable
  · by_cases hc : s.Countable
    · rw [if_pos hs,if_pos ⟨hs,hc⟩,ok_bind,ok_bind,size,hd,Shape.size_eq,if_pos hc,ok_bind]
    · rw [if_pos hs,if_neg fun h => hc h.2,ok_bind,ok_bind,size,hd,Shape.size_eq,if_neg hc]
      rfl
  · rw [if_neg hs,if_neg fun h => hs h.1]
    rfl

end Layout

end Strided
