import Strided.Proofs.Values

set_option autoImplicit false

namespace Strided

open Steps (Answers)

namespace Layout

@[simp] theorem dims_dropAxis (l : Layout) (axis : Nat) : (l.dropAxis axis).dims = l.dims.eraseIdx axis := by
  simp [dims,dropAxis,List.eraseIdx_eq_take_drop_succ]

theorem exists_axis {l : Layout} {axis d : Nat} (h : l.dims[axis]? = some d) :
    ∃ a, l.axes[axis]? = some a ∧ a.extent = d := by
  simpa [dims] using h

end Layout

namespace View

/-- The view at coordinate `i` of an axis, which starts where the first element with that coordinate lies. -/
def slabbed (v : View) (axis i : Nat) : View :=
  { v with
    layout := v.layout.dropAxis axis
    offset := Address.unsigned (v.start+i*((v.layout.axes[axis]?).map Axis.stride).getD 0) }

@[simp] theorem dims_slabbed (v : View) (axis i : Nat) : (v.slabbed axis i).dims = v.dims.eraseIdx axis :=
  Layout.dims_dropAxis v.layout axis

variable {v : View} {length axis : Nat} {a : Axis}

theorem Near.natAbs_add_swing_le (h : v.Near length) (ha : v.layout.axes[axis]? = some a) {i : Nat}
    (hi : i < a.extent) : (v.start+i*a.stride).natAbs+Layout.swing (v.layout.axes.eraseIdx axis) ≤ 2^51 := by
  have h1 := h.swing_le
  have h2 := Layout.swing_eraseIdx_add ha
  have h3 := Layout.natAbs_mul_le hi a.stride
  omega

theorem Near.start_slabbed (h : v.Near length) (ha : v.layout.axes[axis]? = some a) {i : Nat}
    (hi : i < a.extent) : (v.slabbed axis i).start = v.start+i*a.stride := by
  have hn := h.natAbs_add_swing_le ha hi
  have hs := Address.signed_unsigned (Address.isSigned_of_natAbs_le (x := v.start+i*a.stride) (by omega))
  simp only [slabbed,ha,Option.map_some,Option.getD_some]
  rw [start,hs]

theorem Near.slabAt_eq (h : v.Near length) (ha : v.layout.axes[axis]? = some a) {i : Nat} (hi : i < a.extent) :
    v.slabAt axis i = .ok (v.slabbed axis i) := by
  have hn := h.natAbs_add_swing_le ha hi
  have he := h.extent_le a (List.mem_of_getElem? ha)
  have h3 := Layout.natAbs_mul_le hi a.stride
  have h4 := Layout.swing_eraseIdx_add ha
  have h5 := h.swing_le
  have hs := Address.add_eq_ok (x := v.start) (y := i*a.stride) (Address.isSigned_of_natAbs_le (by omega))
  rw [start] at hs
  simp only [slabAt,slabbed,ha,Option.map_some,Option.getD_some]
  rw [Address.signed_of_le_two_pow (by omega),Address.mul_eq_ok (Address.isSigned_of_natAbs_le (by omega)),ok_bind,
    cellAt,hs,ok_bind,ok_bind,start]

theorem slabAlong_eq_slabAt (ha : v.layout.axes[axis]? = some a) {i : Nat} (hi : i < a.extent) :
    v.slabAlong axis i = v.slabAt axis i := by
  have hr : axis < v.layout.rank := (List.getElem?_eq_some_iff.1 ha).1
  have hd : v.dims[axis]? = some a.extent := by simp [dims,Layout.dims,ha]
  have he : ¬ a.extent ≤ i := by omega
  rw [slabAlong,Layout.withoutAxis,if_pos hr,ok_bind,hd]
  simp only [Option.getD_some,he,↓reduceIte]

theorem exists_axis_of_slabAlong {w : View} {i : Nat} (h : v.slabAlong axis i = .ok w) :
    ∃ a, v.layout.axes[axis]? = some a ∧ i < a.extent := by
  obtain ⟨_,hw,h⟩ := bind_eq_ok.1 h
  by_cases hr : axis < v.layout.rank
  · obtain ⟨a,ha⟩ : ∃ a, v.layout.axes[axis]? = some a := ⟨_,List.getElem?_eq_getElem hr⟩
    have hd : v.dims[axis]? = some a.extent := by simp [dims,Layout.dims,ha]
    by_cases hi : i < a.extent
    · exact ⟨a,ha,hi⟩
    · have he : a.extent ≤ i := by omega
      simp [hd,he,refuse] at h
  · simp [Layout.withoutAxis,hr,refuse] at hw

theorem Near.slabAlong_eq (h : v.Near length) (ha : v.layout.axes[axis]? = some a) {i : Nat} (hi : i < a.extent) :
    v.slabAlong axis i = .ok (v.slabbed axis i) := by
  rw [slabAlong_eq_slabAt ha hi,h.slabAt_eq ha hi]

theorem Near.address_slabbed (h : v.Near length) (ha : v.layout.axes[axis]? = some a) {i : Nat}
    (hi : i < a.extent) {index : List Nat} (hx : Shape.Contains (v.dims.eraseIdx axis) index) :
    (v.slabbed axis i).start+(v.slabbed axis i).layout.distance index =
      v.start+v.layout.distance (index.insertIdx axis i) := by
  have hlt := (List.getElem?_eq_some_iff.1 ha).1
  have hl := hx.length_eq
  have hr : v.dims.length = v.layout.axes.length := by simp [dims,Layout.dims]
  rw [List.length_eraseIdx_of_lt (by omega)] at hl
  rw [h.start_slabbed ha hi,Layout.distance,Layout.distance,Layout.distanceAlong_insertIdx ha (by omega),
    Int.add_assoc]
  rfl

theorem contains_insertIdx (ha : v.layout.axes[axis]? = some a) {i : Nat} (hi : i < a.extent)
    {index : List Nat} (hx : Shape.Contains (v.dims.eraseIdx axis) index) : v.dims.Contains (index.insertIdx axis i) :=
  Shape.Contains.insertIdx (by simp [dims,Layout.dims,ha]) hx hi

theorem Sound.slabbed (h : v.Sound length) (ha : v.layout.axes[axis]? = some a) {i : Nat} (hi : i < a.extent) :
    (v.slabbed axis i).Sound length where
  span_le := by
    rw [dims_slabbed]
    exact Nat.le_trans (Shape.span_eraseIdx_le _ _) h.span_le
  swing_le := by
    rw [h.start_slabbed ha hi]
    exact h.natAbs_add_swing_le ha hi
  step_le b hb := h.step_le b (List.mem_of_mem_eraseIdx hb)
  inside index hx := by
    rw [dims_slabbed] at hx
    rw [h.address_slabbed ha hi hx]
    exact h.inside _ (contains_insertIdx ha hi hx)

theorem Sound.walk_slabs (h : v.Sound length) (axis : Nat) :
    (Slabs.ofAxis v axis).walk = Walk.ofList ((List.range ((v.dims[axis]?).getD 0)).map (v.slabbed axis)) := by
  have ha (n k d : Nat) (hd : (v.dims[axis]?).getD 0 = d) (hn : k+n = d) :
      Answers Slabs.next? ((List.range' k n).map (v.slabbed axis)) { source := v, axis, front := k, back := d } := by
    induction n generalizing k with
    | zero => simp [Answers,Slabs.next?,← hn]
    | succ n ih =>
      have hv : v.layout.dims[axis]? = some d := by
        cases hv : v.layout.dims[axis]? with
        | none =>
          simp only [dims,hv,Option.getD_none] at hd
          omega
        | some e => simpa [dims,hv] using hd
      obtain ⟨a,hax,he⟩ := Layout.exists_axis hv
      refine ⟨_,?_,ih (k+1) (by omega)⟩
      have hk : k < d := by omega
      simp only [Slabs.next?,hk,↓reduceIte,h.slabAt_eq hax (i := k) (by omega),ok_bind]
  have hs := ha _ 0 _ rfl (Nat.zero_add _)
  have hw := Walk.unfold_eq_ofList hs
  rw [List.range_eq_range',← hw,Slabs.walk,Slabs.length]
  simp [Slabs.ofAxis]

end View

namespace Snapshot

variable {α : Type} {s : Snapshot α} {axis : Nat} {a : Axis}

theorem Sound.through_slabbed (h : s.Sound) (ha : s.view.layout.axes[axis]? = some a) {i : Nat}
    (hi : i < a.extent) : (s.through (s.view.slabbed axis i)).Sound := View.Sound.slabbed h ha hi

theorem Sound.valueAt_slabbed [Element α] (h : s.Sound) (ha : s.view.layout.axes[axis]? = some a) {i : Nat}
    (hi : i < a.extent) {index : List Nat} (hx : Shape.Contains (s.dims.eraseIdx axis) index) :
    (s.through (s.view.slabbed axis i)).valueAt index = s.valueAt (index.insertIdx axis i) := by
  have hc : (s.view.slabbed axis i).cell index = s.view.cell (index.insertIdx axis i) := by
    rw [View.cell,View.cell,View.Near.address_slabbed h.toNear ha hi hx]
  simp only [valueAt,through]
  rw [hc]
  rfl

/-- The slabs along the outermost axis are sound arrays of the inner extents, walked in order; the element of the slab
at `i` at an index is the element with `i` in front of it. -/
structure Outermost [Element α] (h : Heap α) (v : View) (d : Nat) (inner : Shape) : Prop where
  span_le : Shape.span (d :: inner) ≤ 2^50
  sound : ∀ i, i < d → (Snapshot.mk h (v.slabbed 0 i)).Sound
  dims_eq : ∀ i, (v.slabbed 0 i).dims = inner
  valueAt_eq : ∀ i, i < d → ∀ index, inner.Contains index →
    (Snapshot.mk h (v.slabbed 0 i)).valueAt index = (Snapshot.mk h v).valueAt (i :: index)
  slabs_eq : v.slabs = Walk.ofList ((List.range d).map (v.slabbed 0))

theorem Sound.outermost [Element α] {h : Heap α} {v : View} (hs : (Snapshot.mk h v).Sound) {d : Nat} {inner : Shape}
    (hd : v.dims = d :: inner) : Outermost h v d inner := by
  have hd0 : v.layout.dims[0]? = some d := by
    rw [← View.dims,hd]
    rfl
  obtain ⟨a,ha,he⟩ := Layout.exists_axis hd0
  refine ⟨?_,?_,?_,?_,?_⟩
  · rw [← hd]
    exact hs.span_le
  · exact fun i hi => hs.through_slabbed ha (by omega)
  · intro i
    rw [View.dims_slabbed,hd]
    rfl
  · intro i hi index hx
    exact hs.valueAt_slabbed ha (by omega) (by rw [dims,hd]; exact hx)
  · rw [View.slabs,View.Sound.walk_slabs hs,hd]
    rfl

end Snapshot

end Strided
