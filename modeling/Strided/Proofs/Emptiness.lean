import Mathlib.Data.List.Perm.Basic
import Strided.Proofs.Mismatches
import Strided.Proofs.PermutedCopy

set_option autoImplicit false

/-!
Arrays without elements under every order of their axes. An extent 0 behind large ones comes too late for the product
that is the size, and in front of them too late for the products that are the strides. So whether such an array has a
size and whether it is copied depends on the order of its axes. For every order there is a size if the product of the
other extents can be counted; and there is a copy if it moreover fits a signed word, or is one of the extents itself and
all others are 0 or 1.
-/
namespace Strided

namespace Permutation

variable {β : Type}

theorem exists_arrange {xs ys : List β} (h : xs.Perm ys) :
    ∃ perm, perm.Perm (List.range xs.length) ∧ arrange perm xs = ys := by
  have hx : List.Forall₂ (fun x p => xs[p]? = some x) xs (List.range xs.length) :=
    List.forall₂_iff_get.2 ⟨by simp,fun i hi _ => by simp⟩
  obtain ⟨perm,hy,hp⟩ := List.perm_comp_forall₂ h.symm hx
  refine ⟨perm,hp,?_⟩
  clear hx hp h
  induction hy with
  | nil => rfl
  | cons hp _ ih => rw [arrange_cons hp,ih]

theorem arrange_perm_of_range {perm : List Nat} {xs : List β} (h : perm.Perm (List.range xs.length)) :
    (arrange perm xs).Perm xs :=
  arrange_perm (validate_eq_ok_iff.2 h) rfl

theorem forall_arrange_iff {P : List β → Prop} {xs : List β} :
    (∀ perm : List Nat, perm.Perm (List.range xs.length) → P (arrange perm xs)) ↔ ∀ ys, xs.Perm ys → P ys := by
  refine ⟨fun h ys hy => ?_,fun h perm hp => h _ (arrange_perm_of_range hp).symm⟩
  obtain ⟨perm,hp,rfl⟩ := exists_arrange hy
  exact h perm hp

end Permutation

theorem Address.isSigned_signed (n : Nat) : IsSigned (signed n) := by
  simp only [IsSigned,minSigned,maxSigned,signed,modulus,Int.bmod_def]
  omega

namespace Shape

theorem dvd_volume_of_mem {s : Shape} {d : Nat} (h : d ∈ s) : d ∣ s.volume := by
  induction s with
  | nil => simp at h
  | cons e s ih =>
    rcases List.mem_cons.1 h with rfl | h
    · exact Nat.dvd_mul_right _ _
    · exact Nat.dvd_mul_left_of_dvd (ih h) e

theorem volume_filter_ne_zero (s : Shape) : volume (s.filter (· ≠ 0)) = s.span := by
  induction s with
  | nil => rfl
  | cons d s ih =>
    by_cases hd : d = 0
    · simpa [hd,span] using ih
    · rw [List.filter_cons_of_pos (by simpa using hd),volume,ih,span,Nat.max_eq_left (by omega)]

theorem countable_perm_iff {s : Shape} : (∀ t : Shape, s.Perm t → t.Countable) ↔ s.span ≤ Address.maxUnsigned := by
  refine ⟨fun h => ?_,fun h t ht => countable_of_span_le (by rwa [← span_perm ht])⟩
  have hc := h _ (List.filter_append_perm (· ≠ 0) s).symm (s.filter (· ≠ 0)).length
  rwa [List.take_left,volume_filter_ne_zero] at hc

/-- Where the product of the extents other than 0 is one of the extents, all others are 0 or 1. -/
theorem span_cons_mem {d : Nat} {s : Shape} (h : span (d :: s) ∈ d :: s) : span s = 1 ∨ d ≤ 1 ∧ span s ∈ s := by
  have hp := span_pos s
  rw [span] at h
  rcases List.mem_cons.1 h with h | h
  · have hd : 0 < max d 1*span s := Nat.mul_pos (by omega) hp
    rw [h] at hd
    rw [Nat.max_eq_left hd] at h
    exact Or.inl (Nat.eq_of_mul_eq_mul_left hd (by rw [h,Nat.mul_one]))
  · have hle := le_span_of_mem h
    have h1 : max d 1 ≤ 1 := Nat.le_of_mul_le_mul_right (by omega) hp
    rw [show max d 1 = 1 by omega,Nat.one_mul] at h
    exact Or.inr ⟨by omega,h⟩

theorem strideable_of_span {s : Shape} (h : (s.span : Int) ≤ Address.maxSigned ∨ s.span ∈ s) :
    s.Strideable ∧ Address.IsSigned (Layout.signedVolume s) := by
  induction s with
  | nil => exact ⟨strideable_nil,by decide⟩
  | cons d s ih =>
    rcases h with h | h
    · exact ⟨(inRange_of_span_le h).1,isSigned_signedVolume h⟩
    rw [Layout.signedVolume]
    rcases span_cons_mem h with h1 | ⟨hd,h1⟩
    · have hs : (span s : Int) ≤ Address.maxSigned := by rw [h1]; decide
      refine ⟨strideable_cons.2 ⟨isSigned_signedVolume hs,(ih (Or.inl hs)).1⟩,?_⟩
      rw [Layout.signedVolume_eq_volume fun e he => by have := le_span_of_mem he; omega]
      obtain hv | hv : volume s = 0 ∨ volume s = 1 := by have := volume_le_span s; omega
      · rw [hv,Int.natCast_zero,Int.zero_mul]
        decide
      · rw [hv,Int.natCast_one,Int.one_mul]
        exact Address.isSigned_signed d
    · obtain ⟨hst,hsv⟩ := ih (Or.inr h1)
      refine ⟨strideable_cons.2 ⟨hsv,hst⟩,?_⟩
      rw [Address.signed_of_le (by simp only [Address.maxSigned]; omega)]
      obtain rfl | rfl : d = 0 ∨ d = 1 := by omega
      · rw [Int.natCast_zero,Int.mul_zero]
        decide
      · rwa [Int.natCast_one,Int.mul_one]

/-- With an extent 0 outermost every other extent is in some stride. -/
theorem span_of_strideable {s : Shape} (h0 : 0 ∈ s) (hu : s.span ≤ Address.maxUnsigned)
    (h : ∀ t : Shape, s.Perm t → t.Strideable) : (s.span : Int) ≤ Address.maxSigned ∨ s.span ∈ s := by
  have hz : 0 ∈ s.filter fun d => !decide (d ≠ 0) := by simpa using h0
  obtain ⟨z,zs,hzs⟩ := List.exists_cons_of_ne_nil (List.ne_nil_of_mem hz)
  have hst := h _ (List.perm_append_comm.trans (List.filter_append_perm (· ≠ 0) s)).symm zs.length
  rw [hzs,List.cons_append,List.drop_succ_cons,List.drop_left] at hst
  by_cases hm : s.span ∈ s
  · exact Or.inr hm
  · refine Or.inl ?_
    -- An extent beyond the signed words would be more than half of the product.
    have hle : ∀ d ∈ s.filter (· ≠ 0), (d : Int) ≤ Address.maxSigned := fun d hd => by
      obtain ⟨q,hq⟩ := dvd_volume_of_mem hd
      rw [volume_filter_ne_zero] at hq
      have hq1 : q ≠ 1 := fun h1 => hm (by rw [hq,h1,Nat.mul_one]; exact List.mem_of_mem_filter hd)
      have hq0 : q ≠ 0 := fun h0 => by
        have := s.span_pos
        simp [hq,h0] at this
      have h2 : d*2 ≤ d*q := Nat.mul_le_mul_left d (by omega)
      simp only [Address.maxSigned,Address.maxUnsigned] at hu ⊢
      omega
    rw [Layout.signedVolume_eq_volume hle,volume_filter_ne_zero] at hst
    exact hst.2

theorem inRange_perm_iff {s : Shape} (h0 : 0 ∈ s) :
    (∀ t : Shape, s.Perm t → t.InRange) ↔
      s.span ≤ Address.maxUnsigned ∧ ((s.span : Int) ≤ Address.maxSigned ∨ s.span ∈ s) := by
  refine ⟨fun h => ?_,fun ⟨hu,hs⟩ t ht => ⟨(strideable_of_span ?_).1,countable_perm_iff.2 hu t ht⟩⟩
  · have hu := countable_perm_iff.1 fun t ht => (h t ht).2
    exact ⟨hu,span_of_strideable h0 hu fun t ht => (h t ht).1⟩
  · rwa [← span_perm ht,← ht.mem_iff]

theorem size_of_zero_mem {s : Shape} (h0 : 0 ∈ s) : s.size = if s.Countable then .ok 0 else abort .multiplyOverflow := by
  rw [size_eq,(volume_eq_zero_iff s).2 h0]

theorem size_eq_zero_iff {s : Shape} (h0 : 0 ∈ s) : s.size = .ok 0 ↔ s.Countable := by
  rw [size_of_zero_mem h0]
  by_cases hc : s.Countable
  · simp [hc]
  · simp [hc,abort]

end Shape

namespace Layout

theorem forall_permuted_size_iff {l : Layout} (h0 : 0 ∈ l.dims) :
    (∀ perm : List Nat, perm.Perm (List.range l.rank) → ∃ m, l.permuted perm = .ok m ∧
      m.dims = Permutation.arrange perm l.dims ∧ m.size = .ok 0) ↔ l.dims.span ≤ Address.maxUnsigned := by
  have hl : l.dims.length = l.rank := by simp [dims,rank]
  rw [← Shape.countable_perm_iff,← Permutation.forall_arrange_iff,hl]
  refine forall_congr' fun perm => forall_congr' fun hp => ?_
  have hd : dims ⟨Permutation.arrange perm l.axes⟩ = Permutation.arrange perm l.dims := Permutation.map_arrange _ _
  have hm : 0 ∈ Permutation.arrange perm l.dims := (Permutation.arrange_perm_of_range (by rwa [hl])).mem_iff.2 h0
  rw [permuted_eq_ok (Permutation.validate_eq_ok_iff.2 hp),← Shape.size_eq_zero_iff hm]
  constructor
  · rintro ⟨m,hm,hd,hz⟩
    rwa [← hd]
  · exact fun hz => ⟨_,rfl,hd,by rwa [size,hd]⟩

end Layout

namespace Snapshot

variable {α : Type} [Element α] {s : Snapshot α}

theorem toList_of_zero_mem (h0 : 0 ∈ s.dims) :
    s.toList = if s.dims.Countable then .ok [] else abort .multiplyOverflow := by
  have hsize : s.view.size = if s.dims.Countable then .ok 0 else abort .multiplyOverflow := Shape.size_of_zero_mem h0
  by_cases hc : s.dims.Countable
  · rw [if_pos hc] at hsize ⊢
    have hv : s.dims.volume = 0 := (Shape.volume_eq_zero_iff _).2 h0
    have hvalues : s.values = [] := List.eq_nil_of_length_eq_zero (by rw [length_values,hv])
    obtain ⟨e,he,hl,ha⟩ := elements_answers (View.drains_of_size_eq_zero hsize) fun index hi =>
      (Shape.not_contains_of_mem h0 index hi).elim
    rw [toList_eq_of_volume (by omega) (walk_eq he hl ha),hvalues]
  · rw [if_neg hc] at hsize ⊢
    rw [toList,walk,elements,View.offsets,Offsets.ofLayout,← View.size,hsize]
    rfl

theorem transposeAxes_of_zero_mem (h0 : 0 ∈ s.dims) {perm : List Nat} (hp : perm.Perm (List.range s.rank)) :
    s.transposeAxes perm =
      if s.dims.Countable ∧ Shape.InRange (Permutation.arrange perm s.dims) then
        .ok { layout := ⟨Layout.steppedAxes (Permutation.arrange perm s.dims)⟩, data := [] }
      else abort .multiplyOverflow := by
  have hl : s.dims.length = s.rank := s.view.length_dims
  have hm : 0 ∈ Permutation.arrange perm s.dims := (Permutation.arrange_perm_of_range (by rwa [hl])).mem_iff.2 h0
  have hv : Shape.volume (Permutation.arrange perm s.dims) = 0 := (Shape.volume_eq_zero_iff _).2 hm
  rw [transposeAxes,Permutation.validate_eq_ok_iff.2 hp,ok_bind,toList_of_zero_mem h0]
  by_cases hc : s.dims.Countable
  · simp only [hc,↓reduceIte,ok_bind,List.isEmpty_nil,Block.ofList_eq_ite,hv,List.length_nil,true_and]
  · simp only [hc,↓reduceIte,false_and]
    rfl

theorem exists_transposeAxes_iff (h0 : 0 ∈ s.dims) {perm : List Nat} (hp : perm.Perm (List.range s.rank)) :
    (∃ b, s.transposeAxes perm = .ok b ∧ b.dims = Permutation.arrange perm s.dims ∧ b.data = []) ↔
      s.dims.Countable ∧ Shape.InRange (Permutation.arrange perm s.dims) := by
  rw [transposeAxes_of_zero_mem h0 hp]
  refine ⟨fun ⟨b,hb,_⟩ => ?_,fun hr => ⟨_,if_pos hr,Layout.map_extent_steppedAxes _,rfl⟩⟩
  by_contra hr
  rw [if_neg hr] at hb
  cases hb

theorem forall_transposeAxes_iff (h0 : 0 ∈ s.dims) :
    (∀ perm : List Nat, perm.Perm (List.range s.rank) →
      ∃ b, s.transposeAxes perm = .ok b ∧ b.dims = Permutation.arrange perm s.dims ∧ b.data = []) ↔
      s.dims.span ≤ Address.maxUnsigned ∧ ((s.dims.span : Int) ≤ Address.maxSigned ∨ s.dims.span ∈ s.dims) := by
  have hl : s.dims.length = s.rank := s.view.length_dims
  rw [← Shape.inRange_perm_iff h0,← Permutation.forall_arrange_iff,hl]
  constructor
  · exact fun h perm hp => ((exists_transposeAxes_iff h0 hp).1 (h perm hp)).2
  · intro h perm hp
    -- The order that changes nothing is one of the orders.
    have hid := h _ (List.Perm.refl (List.range s.rank))
    rw [← hl,Permutation.arrange_range] at hid
    exact (exists_transposeAxes_iff h0 hp).2 ⟨hid.2,h perm hp⟩

end Snapshot

namespace Layout

/-- A layout with an extent 0 is empty; it has the size 0 if the product of the extents before the first one can be
counted, and otherwise asking for it aborts. For all orders of the axes the size is 0 exactly if the product of all
extents other than 0 can be counted. An array with that layout is copied with its axes in another order if its size and
both the size and the strides of the copy are in range, and otherwise the copying aborts. For all orders it is copied
exactly if the product can be counted and fits a signed word or is one of the extents. -/
theorem emptiness {α : Type} [Element α] {l : Layout} (h0 : 0 ∈ l.dims) :
    l.isEmpty = true ∧
    (Shape.volume (l.dims.takeWhile (· ≠ 0)) ≤ Address.maxUnsigned → l.size = .ok 0) ∧
    (Address.maxUnsigned < Shape.volume (l.dims.takeWhile (· ≠ 0)) → l.size = abort .multiplyOverflow) ∧
    ((∀ perm : List Nat, perm.Perm (List.range l.rank) → ∃ m, l.permuted perm = .ok m ∧
        m.dims = Permutation.arrange perm l.dims ∧ m.size = .ok 0) ↔ l.dims.span ≤ Address.maxUnsigned) ∧
    ∀ s : Snapshot α, s.view.layout = l →
      (∀ perm : List Nat, perm.Perm (List.range l.rank) →
        (l.dims.Countable ∧ Shape.InRange (Permutation.arrange perm l.dims) →
          ∃ b, s.transposeAxes perm = .ok b ∧ b.dims = Permutation.arrange perm l.dims ∧ b.data = []) ∧
        (¬ (l.dims.Countable ∧ Shape.InRange (Permutation.arrange perm l.dims)) →
          s.transposeAxes perm = abort .multiplyOverflow)) ∧
      ((∀ perm : List Nat, perm.Perm (List.range l.rank) →
          ∃ b, s.transposeAxes perm = .ok b ∧ b.dims = Permutation.arrange perm l.dims ∧ b.data = []) ↔
        l.dims.span ≤ Address.maxUnsigned ∧
          ((l.dims.span : Int) ≤ Address.maxSigned ∨ l.dims.span ∈ l.dims)) := by
  refine ⟨(isEmpty_iff l).2 h0,fun h => ?_,fun h => ?_,forall_permuted_size_iff h0,?_⟩
  · exact (Shape.size_eq_zero_iff h0).2 ((Shape.countable_iff_of_zero_mem h0).2 h)
  · have hc : ¬ l.dims.Countable := fun hc => Nat.not_le_of_lt h ((Shape.countable_iff_of_zero_mem h0).1 hc)
    rw [size,Shape.size_of_zero_mem h0,if_neg hc]
  · rintro s rfl
    refine ⟨fun perm hp => ⟨(Snapshot.exists_transposeAxes_iff h0 hp).2,fun hr => ?_⟩,
      Snapshot.forall_transposeAxes_iff h0⟩
    rw [Snapshot.transposeAxes_of_zero_mem h0 hp]
    exact if_neg hr

def hollow : Layout := ⟨[⟨2,0⟩,⟨0,3⟩,⟨3,1⟩]⟩

theorem hollow_emptiness :
    let s : Snapshot Bool := Snapshot.mk Heap.empty { buffer := 0, layout := hollow, offset := 0 }
    0 ∈ hollow.dims ∧ hollow.size = .ok 0 ∧
    (∃ m, hollow.permuted [1,2,0] = .ok m ∧ m.dims = [0,3,2] ∧ m.size = .ok 0) ∧
    ∃ b, s.transposeAxes [1,2,0] = .ok b ∧ b.dims = [0,3,2] := by
  intro s
  have h0 : 0 ∈ hollow.dims := by decide
  obtain ⟨-,hsize,-,horders,hcopies⟩ := @emptiness Bool _ _ h0
  obtain ⟨m,hm,hd,hz⟩ := horders.2 (by decide) [1,2,0] (by decide)
  obtain ⟨b,hb,hbd,-⟩ := (hcopies s rfl).2.2 ⟨by decide,Or.inl (by decide)⟩ [1,2,0] (by decide)
  exact ⟨h0,hsize (by decide),⟨m,hm,hd,hz⟩,b,hb,hbd⟩

theorem late_zero_aborts :
    let l : Layout := ⟨[⟨0,0⟩,⟨2^40,0⟩,⟨2^40,1⟩]⟩
    let m : Layout := ⟨[⟨2^40,0⟩,⟨2^40,1⟩,⟨0,0⟩]⟩
    let s : Snapshot Bool := Snapshot.mk Heap.empty { buffer := 0, layout := l, offset := 0 }
    0 ∈ l.dims ∧ l.size = .ok 0 ∧ l.permuted [1,2,0] = .ok m ∧ m.isEmpty = true ∧ m.size = abort .multiplyOverflow ∧
    s.toList = .ok [] ∧ s.transposeAxes [1,2,0] = abort .multiplyOverflow := by
  intro l m s
  have h0 : 0 ∈ s.dims := by decide
  refine ⟨h0,by decide,by decide,by decide,by decide,?_,?_⟩
  · rw [Snapshot.toList_of_zero_mem h0,if_pos (by decide)]
  · rw [Snapshot.transposeAxes_of_zero_mem h0 (by decide)]
    exact if_neg (by decide)

end Layout

end Strided
