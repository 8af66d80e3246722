import Strided.Number.Word
import Strided.Proofs.Traversal
import Strided.Snapshot

set_option autoImplicit false

namespace Strided

open Steps (Answers)

theorem Heap.read_eq_ok {α : Type} {h : Heap α} {buffer cell : Nat} (hc : cell < h.length buffer) (x : α) :
    h.read buffer cell = .ok (((h.cells buffer)[cell]?).getD x) := by
  rw [Heap.length] at hc
  simp [Heap.read,hc]

/-- The value in a cell of a buffer; what it is elsewhere does not matter. -/
def Heap.valueIn {α : Type} [Element α] (h : Heap α) (buffer cell : Nat) : α :=
  ((h.cells buffer)[cell]?).getD Element.blank

namespace Snapshot

def WellFormed {α : Type} (s : Snapshot α) : Prop := s.view.WellFormed (s.heap.length s.view.buffer)

instance {α : Type} (s : Snapshot α) : Decidable s.WellFormed := inferInstanceAs (Decidable (s.view.WellFormed _))

def Near {α : Type} (s : Snapshot α) : Prop := s.view.Near (s.heap.length s.view.buffer)

def Sound {α : Type} (s : Snapshot α) : Prop := s.view.Sound (s.heap.length s.view.buffer)

theorem WellFormed.sound {α : Type} {s : Snapshot α} (h : s.WellFormed) : s.Sound := View.WellFormed.sound h

theorem Sound.near {α : Type} {s : Snapshot α} (h : s.Sound) : s.Near := View.Sound.toNear h

/-- The value at an index inside the extents; what it is elsewhere does not matter. -/
def valueAt {α : Type} [Element α] (s : Snapshot α) (index : List Nat) : α :=
  ((s.heap.cells s.view.buffer)[s.view.cell index]?).getD Element.blank

variable {α : Type} [Element α] {s : Snapshot α}

theorem Near.read_eq (h : s.Near) {index : List Nat} (hi : s.dims.Contains index) :
    s.heap.read s.view.buffer (s.view.cell index) = .ok (s.valueAt index) :=
  Heap.read_eq_ok (View.Near.cell_lt h hi) Element.blank

theorem Near.get_eq (h : s.Near) {index : List Nat} (hi : s.dims.Contains index) :
    s.get index = .ok (s.valueAt index) := by
  rw [get,View.Near.cellOf_eq h hi,ok_bind,h.read_eq hi]

theorem Sound.get_eq (h : s.Sound) {index : List Nat} (hi : s.dims.Contains index) :
    s.get index = .ok (s.valueAt index) := h.near.get_eq hi

def values {α : Type} [Element α] (s : Snapshot α) : List α := s.dims.indices.map s.valueAt

theorem map_values {β : Type} (s : Snapshot α) (f : α → β) :
    s.values.map f = s.dims.indices.map fun index => f (s.valueAt index) := by
  simp [values,Function.comp_def]

@[simp] theorem length_values (s : Snapshot α) : s.values.length = s.dims.volume := by simp [values]

theorem read_of_mem {indices : List (List Nat)}
    (hr : ∀ index ∈ indices, s.heap.read s.view.buffer (s.view.cell index) = .ok (s.valueAt index)) :
    ∀ cell ∈ indices.map s.view.cell, s.heap.read s.view.buffer cell = .ok (s.heap.valueIn s.view.buffer cell) := by
  intro cell hc
  obtain ⟨index,hi,rfl⟩ := List.mem_map.1 hc
  exact hr index hi

theorem elements_answers (hd : s.view.Drains)
    (hr : ∀ index, s.dims.Contains index →
      s.heap.read s.view.buffer (s.view.cell index) = .ok (s.valueAt index)) :
    ∃ e, s.elements = .ok e ∧ e.length = s.dims.volume ∧ Answers (Elements.next? · s.heap) s.values e := by
  obtain ⟨o,ho,hl,ha⟩ := hd
  have hm : Answers (Elements.next? · s.heap)
      ((s.dims.indices.map s.view.cell).map (s.heap.valueIn s.view.buffer)) (Elements.mk s.view.buffer o) :=
    ha.map (fun o ho => by simp [Elements.next?,ho]) (fun o cell t x ho hx => by simp [Elements.next?,ho,hx])
      (read_of_mem fun index hi => hr index (Shape.mem_indices.1 hi))
  refine ⟨{ buffer := s.view.buffer, offsets := o },by rw [elements,ho,ok_bind],hl,?_⟩
  rw [List.map_map] at hm
  exact hm

theorem walk_eq {e : Elements} (he : s.elements = .ok e) (hl : e.length = s.dims.volume)
    (ha : Answers (Elements.next? · s.heap) s.values e) : s.walk = .ok (Walk.ofList s.values) := by
  rw [walk,he,ok_bind,Elements.walk,hl,← Walk.unfold_eq_ofList ha,length_values]

theorem toList_eq_of_volume (hn : s.dims.volume ≤ 2^50) (hw : s.walk = .ok (Walk.ofList s.values)) :
    s.toList = .ok s.values := by
  have hl : (Walk.ofList s.values).length ≤ 2^50 := by rwa [Walk.length_ofList,length_values]
  rw [toList,hw,ok_bind,Walk.collect_eq_toList hl,Walk.toList_ofList]

theorem toList_eq (hs : s.dims.span ≤ 2^50) (hw : s.walk = .ok (Walk.ofList s.values)) : s.toList = .ok s.values :=
  toList_eq_of_volume (Shape.volume_le_of_span_le hs) hw

theorem Sound.elements_answers (h : s.Sound) :
    ∃ e, s.elements = .ok e ∧ e.length = s.dims.volume ∧ Answers (Elements.next? · s.heap) s.values e :=
  Snapshot.elements_answers (View.Sound.offsets_answers h) fun _ => h.near.read_eq

theorem Sound.walk_eq (h : s.Sound) : s.walk = .ok (Walk.ofList s.values) := by
  obtain ⟨_,he,hl,ha⟩ := h.elements_answers
  exact Snapshot.walk_eq he hl ha

theorem Sound.toList_eq (h : s.Sound) : s.toList = .ok s.values := Snapshot.toList_eq h.span_le h.walk_eq

theorem Sound.mapM_get (h : s.Sound) : s.dims.indices.mapM s.get = .ok s.values :=
  mapM_ok fun _ hi => h.get_eq (Shape.mem_indices.1 hi)

/-- The row-major indices are the indices inside the extents, each once and in lexicographic order. The walk over the
cells of a well-formed array answers with as many cells as there are elements, the cell of rank `r` after `r` others,
and from then on with nothing; the walk over the values answers with what the indices hold one by one. -/
theorem WellFormed.traversal (h : s.WellFormed) :
    (s.dims.indices.Pairwise (· < ·) ∧ ∀ index, index ∈ s.dims.indices ↔ s.dims.Contains index) ∧
      (∃ o cells, s.view.offsets = .ok o ∧ s.view.size = .ok cells.length ∧
        cells.map Int.ofNat = s.dims.indices.map s.view.address ∧ Answers Offsets.next? cells o ∧
        (∀ r cell, cells[r]? = some cell →
          ∃ t u, o.skip r = .ok t ∧ t.next? = .ok (some (cell,u)) ∧ o.skip (r+1) = .ok u) ∧
        ∃ last, last.next? = .ok none ∧ ∀ m, cells.length ≤ m → o.skip m = .ok last) ∧
      ∃ e xs, s.elements = .ok e ∧ Answers (Elements.next? · s.heap) xs e ∧ s.toList = .ok xs ∧
        s.dims.indices.mapM s.get = .ok xs := by
  have hs : s.Sound := View.WellFormed.sound h
  refine ⟨⟨s.dims.indices_sorted,fun _ => Shape.mem_indices⟩,?_,?_⟩
  · obtain ⟨o,ho,-,ha⟩ := hs.offsets_answers
    obtain ⟨hr,hlast⟩ := Offsets.skip_of_answers ha
    refine ⟨o,s.dims.indices.map s.view.cell,ho,?_,?_,ha,hr,hlast⟩
    · rw [hs.size_eq,List.length_map,Shape.length_indices]
      rfl
    · rw [List.map_map]
      exact List.map_congr_left fun index hi => View.WellFormed.cell_eq h (Shape.mem_indices.1 hi)
  · obtain ⟨e,he,-,ha⟩ := hs.elements_answers
    exact ⟨e,s.values,he,ha,hs.toList_eq,hs.mapM_get⟩

/-- Two rows of three cells, read backwards along the rows and downwards by one cell. -/
def zigzag : Snapshot (Word ⟨true,.w8⟩) where
  heap := ⟨#[((List.range 6).map fun k : Nat => Word.ofInt _ k).toArray]⟩
  view := { buffer := 0, layout := ⟨[⟨2,1⟩,⟨3,-2⟩]⟩, offset := 4 }

theorem zigzag_traversal : zigzag.WellFormed ∧
    (∃ o, zigzag.view.offsets = .ok o ∧ Answers Offsets.next? [4,2,0,5,3,1] o) ∧
      zigzag.toList = .ok ([4,2,0,5,3,1].map (Word.ofInt _)) := by
  have h : zigzag.WellFormed := by decide
  obtain ⟨-,⟨o,cells,ho,-,hc,ha,-⟩,-,xs,-,-,hl,hg⟩ := WellFormed.traversal h
  have hcells : zigzag.dims.indices.map zigzag.view.address = [4,2,0,5,3,1].map Int.ofNat := by decide
  rw [hcells] at hc
  have hxs : zigzag.dims.indices.mapM zigzag.get = .ok ([4,2,0,5,3,1].map (Word.ofInt _)) := by decide
  obtain rfl := (List.map_inj_right fun _ _ => Int.ofNat.inj).1 hc
  exact ⟨h,⟨o,ho,ha⟩,by rw [hl,← hg,hxs]⟩

end Snapshot

end Strided
