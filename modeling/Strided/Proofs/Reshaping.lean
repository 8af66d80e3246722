import Strided.Proofs.Blocks
import Strided.Proofs.Stores
import Strided.Proofs.Translation

set_option autoImplicit false

namespace Strided

namespace View

variable {v : View} {length : Nat} {dims : Shape}

def reshaped (v : View) (dims : Shape) : View := { v with layout := Layout.packed dims }

@[simp] theorem dims_reshaped (v : View) (dims : Shape) : (v.reshaped dims).dims = dims := Layout.dims_packed dims

theorem Near.reshape_eq (hv : v.Near length) (hs : dims.span ≤ 2^50) :
    v.reshape dims =
      if dims.volume ≠ v.dims.volume then refuse (.shapeMismatch v.dims dims)
      else if v.isContiguous then .ok (v.reshaped dims)
      else refuse .notContiguous := by
  rw [reshape,Layout.rowMajor_eq_packed hs,ok_bind,Layout.size_packed hs,ok_bind,hv.size_eq,ok_bind]
  rfl

theorem Near.map_cell_eq (hv : v.Near length) (hc : v.isContiguous = true) :
    v.dims.indices.map v.cell = (List.range v.dims.volume).map fun r : Nat => (v.start+r).toNat := by
  have hcell : ∀ index ∈ v.dims.indices, v.cell index = (v.start+(v.dims.rank index : Nat)).toNat := fun index hi => by
    rw [cell,hv.distance_eq_rank hc (Shape.mem_indices.1 hi)]
  rw [List.map_congr_left hcell,← Shape.map_rank_indices,List.map_map,Function.comp_def]

theorem WellFormed.sound_reshaped (hv : v.WellFormed length) (hs : dims.span ≤ 2^50)
    (hvol : dims.volume = v.dims.volume) (hc : v.isContiguous = true) : (v.reshaped dims).Sound length := by
  have hoffset := hv.offset_le
  have hsw := Layout.swing_packedAxes_lt dims
  have hstart : (v.reshaped dims).start = v.offset := hv.start_eq
  refine sound_of_packed rfl hs (by rw [hstart,Int.natAbs_natCast]; omega) fun r hr => ?_
  obtain ⟨index,hi,rfl⟩ := Shape.exists_rank_eq (hvol ▸ hr)
  have hin := hv.sound.inside index hi
  rwa [hv.sound.distance_eq_rank hc hi] at hin

theorem WellFormed.map_cell_reshaped (hv : v.WellFormed length) (hs : dims.span ≤ 2^50)
    (hvol : dims.volume = v.dims.volume) (hc : v.isContiguous = true) :
    dims.indices.map (v.reshaped dims).cell = v.dims.indices.map v.cell := by
  have hw := hv.sound_reshaped hs hvol hc
  have hm := hw.map_cell_eq (Layout.isContiguous_packed (Shape.span_le_maxSigned hs))
  -- Either way they are the cells from the start on.
  have hstart : (v.reshaped dims).start = v.start := rfl
  rw [dims_reshaped,hvol,hstart] at hm
  rw [hm,hv.sound.map_cell_eq hc]

theorem WellFormed.cellOf_reshaped (hv : v.WellFormed length) (hs : dims.span ≤ 2^50)
    (hvol : dims.volume = v.dims.volume) (hc : v.isContiguous = true) {r : Nat} (hr : r < v.dims.volume) :
    ∃ i j, v.dims.Contains i ∧ v.dims.indices[r]? = some i ∧ dims.indices[r]? = some j ∧
      (v.reshaped dims).cellOf j = v.cellOf i := by
  obtain ⟨i,hi,hxi⟩ := Shape.exists_getElem?_indices hr
  obtain ⟨j,hj,hxj⟩ := Shape.exists_getElem?_indices (hvol ▸ hr)
  have hcell : (v.reshaped dims).cell j = v.cell i := by
    have hg := congrArg (·[r]?) (hv.map_cell_reshaped hs hvol hc)
    simpa [hxi,hxj] using hg
  have hwj : (v.reshaped dims).cellOf j = .ok ((v.reshaped dims).cell j) :=
    (hv.sound_reshaped hs hvol hc).cellOf_eq (by simpa using hj)
  exact ⟨i,j,hi,hxi,hxj,by rw [hwj,hv.sound.cellOf_eq hi,hcell]⟩

/-- What is written through one of two views at its element in a cell is read there through both. -/
theorem Near.set_get_eq {w : View} {α : Type} {h : Heap α} (hv : v.Near (h.length v.buffer)) {i j : List Nat}
    (hi : v.dims.Contains i) (hb : w.buffer = v.buffer) (hc : w.cellOf j = v.cellOf i) (x : α) :
    ∃ h', v.set i x h = (.ok (),h') ∧ w.set j x h = (.ok (),h') ∧
      (Snapshot.mk h' v).get i = .ok x ∧ (Snapshot.mk h' w).get j = .ok x := by
  have hget : (Snapshot.mk (h.put v.buffer (v.cell i) x) v).get i = .ok x := by
    rw [Snapshot.get,hv.cellOf_eq hi,ok_bind,Heap.read_put (hv.cell_lt hi)]
  exact ⟨_,hv.set_eq hi x,by rw [(access_eq hb hc h x).2.2.1,hv.set_eq hi x],hget,
    by rw [(access_eq hb hc _ x).1,hget]⟩

theorem WellFormed.toList_reshaped {α : Type} [Element α] {h : Heap α} (hv : v.WellFormed (h.length v.buffer))
    (hs : dims.span ≤ 2^50) (hvol : dims.volume = v.dims.volume) (hc : v.isContiguous = true) :
    (Snapshot.mk h (v.reshaped dims)).toList = (Snapshot.mk h v).toList := by
  have hw : (Snapshot.mk h (v.reshaped dims)).Sound := hv.sound_reshaped hs hvol hc
  have hsound : (Snapshot.mk h v).Sound := hv.sound
  have hcells := congrArg (List.map (h.valueIn v.buffer)) (hv.map_cell_reshaped hs hvol hc)
  rw [List.map_map,List.map_map] at hcells
  have hd : (Snapshot.mk h (v.reshaped dims)).dims = dims := dims_reshaped v dims
  rw [hw.toList_eq,hsound.toList_eq,Snapshot.values,hd]
  exact congrArg Except.ok hcells

/-- A well-formed view is refused other extents exactly if they do not make as many elements, and otherwise exactly if
it is not contiguous. What it is given is a view of the same buffer whose element of each rank is in the cell of the
element of that rank: both list the same values in every heap, each reads what is written through the other, and with
the old extents the new view has each element where the old one has it. -/
theorem WellFormed.reshape_rank (hv : v.WellFormed length) (hs : dims.span ≤ 2^50) :
    (v.reshape dims = refuse (.shapeMismatch v.dims dims) ↔ dims.volume ≠ v.dims.volume) ∧
    (v.reshape dims = refuse .notContiguous ↔ dims.volume = v.dims.volume ∧ v.isContiguous = false) ∧
    (dims.volume = v.dims.volume → v.isContiguous = true →
      ∃ w, v.reshape dims = .ok w ∧ w.buffer = v.buffer ∧ w.dims = dims ∧
        (∀ r, r < v.dims.volume → ∃ i j, v.dims.indices[r]? = some i ∧ dims.indices[r]? = some j ∧
          (∃ cell, v.cellOf i = .ok cell ∧ w.cellOf j = .ok cell) ∧
          ∀ {α : Type} (h : Heap α) (x : α), (Snapshot.mk h w).get j = (Snapshot.mk h v).get i ∧
            (h.length v.buffer = length → ∃ h', v.set i x h = (.ok (),h') ∧ w.set j x h = (.ok (),h') ∧
              (Snapshot.mk h' v).get i = .ok x ∧ (Snapshot.mk h' w).get j = .ok x)) ∧
        (∀ {α : Type} [Element α] (h : Heap α), h.length v.buffer = length →
          ∃ xs, (Snapshot.mk h v).toList = .ok xs ∧ (Snapshot.mk h w).toList = .ok xs) ∧
        ∃ u, w.reshape v.dims = .ok u ∧ u.buffer = v.buffer ∧ u.dims = v.dims ∧
          ∀ index, v.dims.Contains index → u.cellOf index = v.cellOf index) := by
  have hr := hv.sound.reshape_eq hs
  refine ⟨?_,?_,fun hvol hc => ?_⟩
  · rw [hr]
    split
    · simp_all
    · split <;> simp_all [refuse]
  · rw [hr]
    split
    · simp_all [refuse]
    · split <;> simp_all [refuse]
  have hw := hv.sound_reshaped hs hvol hc
  refine ⟨v.reshaped dims,?_,rfl,dims_reshaped v dims,fun r hlt => ?_,fun h hl => ?_,v.reshaped v.dims,?_,rfl,
    dims_reshaped v v.dims,fun index hi => ?_⟩
  · rw [hr,if_neg (by simpa using hvol),if_pos hc]
  · obtain ⟨i,j,hi,hxi,hxj,hsame⟩ := hv.cellOf_reshaped hs hvol hc hlt
    have hvi := hv.sound.cellOf_eq hi
    refine ⟨i,j,hxi,hxj,⟨_,hvi,by rw [hsame,hvi]⟩,fun h x =>
      ⟨(access_eq (v := v) (w := v.reshaped dims) rfl hsame h x).1,fun hl => ?_⟩⟩
    have hnear : v.Near (h.length v.buffer) := hl ▸ hv.sound.toNear
    exact hnear.set_get_eq (w := v.reshaped dims) hi rfl hsame x
  · have hv' : v.WellFormed (h.length v.buffer) := hl ▸ hv
    have hsound : (Snapshot.mk h v).Sound := hv'.sound
    exact ⟨_,hsound.toList_eq,by rw [hv'.toList_reshaped hs hvol hc,hsound.toList_eq]⟩
  · have hcw : (v.reshaped dims).isContiguous = true := Layout.isContiguous_packed (Shape.span_le_maxSigned hs)
    rw [hw.reshape_eq hv.span_le,dims_reshaped,if_neg (by simpa using hvol.symm),if_pos hcw]
    rfl
  · have hu := hv.sound_reshaped hv.span_le rfl hc
    have hcell : (v.reshaped v.dims).cell index = v.cell index := by
      have hm := hv.map_cell_reshaped hv.span_le rfl hc
      exact List.map_inj_left.1 hm index (Shape.mem_indices.2 hi)
    rw [hv.sound.cellOf_eq hi,hu.cellOf_eq (by simpa using hi),hcell]

def shelf : View := { buffer := 0, layout := ⟨[⟨2,3⟩,⟨1,99⟩,⟨3,1⟩]⟩, offset := 2 }

theorem shelf_reshape_rank :
    shelf.WellFormed 8 ∧ Shape.span [4] ≤ 2^50 ∧ Shape.span [3,2] ≤ 2^50 ∧
      shelf.reshape [4] = refuse (.shapeMismatch shelf.dims [4]) ∧
      ∃ w, shelf.reshape [3,2] = .ok w ∧ shelf.dims.indices[3]? = some [1,0,0] ∧
        (Shape.indices [3,2])[3]? = some [1,1] ∧ shelf.cellOf [1,0,0] = .ok 5 ∧ w.cellOf [1,1] = .ok 5 ∧
        ∃ u, w.reshape shelf.dims = .ok u ∧ u.cellOf [1,0,0] = .ok 5 := by
  have hv : shelf.WellFormed 8 := by decide
  have hs : Shape.span [3,2] ≤ 2^50 := by decide
  have hs' : Shape.span [4] ≤ 2^50 := by decide
  obtain ⟨hmismatch,-,-⟩ := hv.reshape_rank hs'
  obtain ⟨-,-,hreshape⟩ := hv.reshape_rank hs
  obtain ⟨w,hw,-,-,hrank,-,u,hu,-,-,hcells⟩ := hreshape (by decide) (by decide)
  obtain ⟨i,j,hi,hj,⟨cell,hcell,hcell'⟩,-⟩ := hrank 3 (by decide)
  obtain rfl : [1,0,0] = i := Option.some.inj hi
  obtain rfl : [1,1] = j := Option.some.inj hj
  have hc : shelf.cellOf [1,0,0] = .ok 5 := by decide +kernel
  obtain rfl : cell = 5 := Except.ok.inj (hcell.symm.trans hc)
  exact ⟨hv,hs',hs,hmismatch.2 (by decide),w,hw,hi,hj,hc,hcell',u,hu,by rw [hcells _ (by decide),hc]⟩

end View

end Strided
