import Strided.Proofs.RowMajor
import Strided.View

set_option autoImplicit false

/-!
The views that nothing goes wrong with. A well-formed view has every one of its elements in its buffer and is far
from the ends of the address range. Its slabs need not be well-formed where it is empty, since they may start
anywhere; what they all keep is called sound, and it is all that traversals need. To reach a single element it is
enough that the elements are near: an axis of extent 1 may then have any stride.
-/
namespace Strided

namespace Shape

theorem Contains.any_eq_false {s : Shape} {index : List Nat} (h : s.Contains index) :
    ((index.zip s).any fun (i,d) => decide (d ≤ i)) = false := by
  induction s generalizing index with
  | nil => cases index <;> rfl
  | cons d s ih =>
    cases index with
    | nil => rfl
    | cons i index =>
      have hi : ¬ d ≤ i := by have := h.1; omega
      simpa [hi] using ih h.2

theorem any_eq_true_of_not_contains {s : Shape} {index : List Nat} (hl : index.length = s.length)
    (h : ¬ Contains s index) : ((index.zip s).any fun (i,d) => decide (d ≤ i)) = true := by
  induction s generalizing index with
  | nil => cases index <;> simp_all [Contains]
  | cons d s ih =>
    cases index with
    | nil => simp at hl
    | cons i index =>
      by_cases hi : d ≤ i
      · simp [hi]
      · have hrest : ¬ Contains s index := fun hc => h ⟨by omega,hc⟩
        simpa [hi] using ih (by simpa using hl) hrest

end Shape

namespace Layout

/-- The sum of all strides times their extents, by size; an extent 0 counts as 1. -/
def travel : List Axis → Nat
  | [] => 0
  | a :: axes => a.stride.natAbs*max a.extent 1+travel axes

theorem swing_le_travel (axes : List Axis) : swing axes ≤ travel axes := by
  induction axes with
  | nil => simp [swing,travel]
  | cons a axes ih => exact Nat.add_le_add (Nat.mul_le_mul_left _ (by omega)) ih

theorem step_le_travel {axes : List Axis} {a : Axis} (h : a ∈ axes) :
    a.stride.natAbs*max a.extent 1 ≤ travel axes := by
  induction axes with
  | nil => simp at h
  | cons b axes ih =>
    rcases List.mem_cons.1 h with rfl | h
    · exact Nat.le_add_right _ _
    · exact Nat.le_trans (ih h) (Nat.le_add_left _ _)

theorem checkedOffsetOf_of_contains {l : Layout} {index : List Nat} (h : l.dims.Contains index) :
    l.checkedOffsetOf index = l.offsetOf index := by
  have hl : index.length = l.rank := by simpa [dims,rank] using h.length_eq
  have hz : ¬ (((index.zip l.dims).any fun (i,d) => decide (d ≤ i)) = true) := Bool.eq_false_iff.1 h.any_eq_false
  rw [checkedOffsetOf,if_neg (by simpa using hl),if_neg hz]

theorem isEmpty_iff (l : Layout) : l.isEmpty = true ↔ 0 ∈ l.dims := by
  simp [isEmpty,dims]

theorem isContiguous_packed {s : Shape} (hs : (s.span : Int) ≤ Address.maxSigned) : (packed s).isContiguous = true := by
  by_cases h0 : 0 ∈ s
  · rw [isContiguous,(isEmpty_iff _).2 (by rwa [dims_packed]),Bool.true_or]
  · rw [isContiguous,Bool.or_eq_true]
    refine Or.inr ?_
    show isConsecutive 1 (packedAxes s).reverse = true
    induction s with
    | nil => rfl
    | cons d s ih =>
      simp only [List.mem_cons,not_or] at h0
      have hspan := Shape.span_tail_le_maxSigned hs
      have hvol := Shape.volume_le_span s
      have hd : (packedAxes s).map Axis.extent = s := map_extent_packedAxes s
      refine (isConsecutive_reverse_cons (by rw [hd]; exact h0.2) (by rw [hd]; omega)).2 ⟨ih hspan h0.2,fun _ => ?_⟩
      rw [hd]

end Layout

namespace View

@[simp] theorem length_dims (v : View) : v.dims.length = v.rank := by simp [dims,Layout.dims,rank,Layout.rank]

theorem rank_eq {v : View} {s : Shape} (hd : v.dims = s) : v.rank = s.length := by rw [← length_dims,hd]

/-- The cell of an index, as an exact integer. -/
def address (v : View) (index : List Nat) : Int := v.offset+v.layout.distance index

/-- Every index inside the extents has its cell in a buffer of `length` cells. Where some extent is 0 there is no
such index. -/
def Inside (v : View) (length : Nat) : Prop :=
  ∀ index, v.dims.Contains index → 0 ≤ v.address index ∧ v.address index < length

instance (v : View) (length : Nat) : Decidable (v.Inside length) :=
  decidable_of_iff (∀ index ∈ v.dims.indices, 0 ≤ v.address index ∧ v.address index < length)
    ⟨fun h index hi => h index (Shape.mem_indices.2 hi),fun h index hi => h index (Shape.mem_indices.1 hi)⟩

/-- A view whose numbers are all far below the limits of an address and whose elements lie in its buffer. -/
structure WellFormed (v : View) (length : Nat) : Prop where
  offset_le : v.offset ≤ 2^50
  span_le : v.dims.span ≤ 2^50
  travel_le : Layout.travel v.layout.axes ≤ 2^50
  inside : v.Inside length

instance (v : View) (length : Nat) : Decidable (v.WellFormed length) :=
  decidable_of_iff
    (v.offset ≤ 2^50 ∧ v.dims.span ≤ 2^50 ∧ Layout.travel v.layout.axes ≤ 2^50 ∧ v.Inside length)
    ⟨fun ⟨h,h',h'',hi⟩ => ⟨h,h',h'',hi⟩,fun ⟨h,h',h'',hi⟩ => ⟨h,h',h'',hi⟩⟩

def start (v : View) : Int := Address.signed v.offset

/-- No sum on the way to an index leaves the signed range, and every index has its cell in a buffer of `length`
cells. -/
structure Near (v : View) (length : Nat) : Prop where
  span_le : v.dims.span ≤ 2^50
  swing_le : v.start.natAbs+Layout.swing v.layout.axes ≤ 2^51
  inside : ∀ index, v.dims.Contains index →
    0 ≤ v.start+v.layout.distance index ∧ v.start+v.layout.distance index < length

/-- Nor does any sum of a traversal, which may step past the last index of an axis. -/
structure Sound (v : View) (length : Nat) : Prop extends Near v length where
  step_le : ∀ a ∈ v.layout.axes, a.stride.natAbs*max a.extent 1 ≤ 2^51

def cell (v : View) (index : List Nat) : Nat := (v.start+v.layout.distance index).toNat

variable {v : View} {length : Nat}

theorem WellFormed.start_eq (h : v.WellFormed length) : v.start = v.offset := by
  have := h.offset_le
  exact Address.signed_of_le_two_pow (by omega)

theorem WellFormed.sound (h : v.WellFormed length) : v.Sound length where
  span_le := h.span_le
  swing_le := by
    have h1 := h.offset_le
    have h2 := h.travel_le
    have h3 := Layout.swing_le_travel v.layout.axes
    rw [h.start_eq]
    omega
  step_le a ha := by
    have h1 := h.travel_le
    have h2 := Layout.step_le_travel ha
    omega
  inside := by
    rw [h.start_eq]
    exact h.inside

theorem WellFormed.cell_eq (h : v.WellFormed length) {index : List Nat} (hi : v.dims.Contains index) :
    (v.cell index : Int) = v.address index := by
  have hn := (h.inside index hi).1
  rw [cell,h.start_eq]
  exact Int.toNat_of_nonneg hn

theorem Near.cell_lt (h : v.Near length) {index : List Nat} (hi : v.dims.Contains index) :
    v.cell index < length := by
  obtain ⟨h0,hl⟩ := h.inside index hi
  rw [cell]
  omega

theorem Near.cells_lt (h : v.Near length) : ∀ index ∈ v.dims.indices, v.cell index < length := fun _ hi =>
  h.cell_lt (Shape.mem_indices.1 hi)

theorem Near.extent_le (h : v.Near length) : ∀ a ∈ v.layout.axes, a.extent ≤ 2^50 := by
  intro a ha
  obtain ⟨k,hk⟩ := List.mem_iff_getElem?.1 ha
  have hd : v.dims[k]? = some a.extent := by simp [dims,Layout.dims,hk]
  exact Nat.le_trans (Shape.extent_le_span_of_getElem? hd) h.span_le

theorem Near.natAbs_le (h : v.Near length) {index : List Nat} (hi : v.dims.Contains index) :
    (v.start+v.layout.distance index).natAbs ≤ 2^51 := by
  have h1 := Layout.natAbs_distanceAlong_le hi
  have h2 := h.swing_le
  rw [Layout.distance]
  omega

theorem Near.unsigned_eq (h : v.Near length) {index : List Nat} (hi : v.dims.Contains index) :
    Address.unsigned (v.start+v.layout.distance index) = v.cell index := by
  have h0 := (h.inside index hi).1
  have h1 := h.natAbs_le hi
  have hu := Address.unsigned_of_nonneg h0 (by simp only [Address.maxSigned]; omega)
  rw [cell]
  omega

theorem Near.size_eq (h : v.Near length) : v.size = .ok v.dims.volume :=
  Shape.size_eq_ok (Nat.le_trans h.span_le (by decide))

theorem Near.cellOf_eq (h : v.Near length) {index : List Nat} (hi : v.dims.Contains index) :
    v.cellOf index = .ok (v.cell index) := by
  have hs := h.swing_le
  have ho : v.layout.offsetOf index = .ok (v.layout.distance index) := by
    rw [Layout.offsetOf,Layout.offsetFrom_eq_ok hi h.extent_le (by simp; omega),Int.zero_add]
    rfl
  have ha := Address.isSigned_of_natAbs_le (Nat.le_trans (h.natAbs_le hi) (by decide))
  rw [start] at ha
  rw [cellOf,Layout.checkedOffsetOf_of_contains hi,ho,ok_bind,cellAt,Address.add_eq_ok ha,ok_bind,← start,
    h.unsigned_eq hi]

end View

end Strided
