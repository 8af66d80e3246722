import Strided.Proofs.Filled
import Strided.Proofs.Writes

set_option autoImplicit false

namespace Strided

open Steps (Answers)

variable {α : Type}

namespace Layout

theorem answers_of_rowMajor {l : Layout} {n : Nat} (hl : rowMajor l.dims = .ok l) (hs : l.size = .ok n)
    (hn : (n : Int) ≤ Address.maxSigned) :
    ∃ o, Offsets.ofLayout l 0 = .ok o ∧ o.remaining = n ∧ Answers Offsets.next? (List.range n) o := by
  refine ⟨_,by rw [Offsets.ofLayout,hs,ok_bind],rfl,?_⟩
  cases n with
  | zero => rfl
  | succ n =>
    have hv : n+1 = l.dims.volume := Shape.size_eq_volume hs
    have h0 : 0 ∉ l.dims := fun hz => by
      have := (Shape.volume_eq_zero_iff _).2 hz
      omega
    have hspan : (l.dims.span : Int) ≤ Address.maxSigned := by
      have := Shape.volume_eq_span h0
      omega
    have hc : l.isContiguous = true := by
      have hp := isContiguous_packed hspan
      rwa [Except.ok.inj ((rowMajor_eq_ok hspan).symm.trans hl)] at hp
    have hz : Address.signed 0 = 0 := Address.signed_of_le_two_pow (n := 0) (by decide)
    have ha := Offsets.answers_of_contiguous (p := 0) (n := n+1) (o := ⟨l.axes,l.dims.origin,Address.signed 0,
      Address.signed 0,n+1,l.isContiguous⟩) hc hz rfl (by decide) (by omega)
    have hcell : ∀ k ∈ List.range (n+1), Address.unsigned (0+(k : Int)) = k := fun k hk => by
      have hk := List.mem_range.1 hk
      rw [Int.zero_add]
      exact Int.ofNat.inj (Address.unsigned_of_nonneg (Int.natCast_nonneg k) (by omega))
    rwa [List.map_congr_left hcell,List.map_id'] at ha

end Layout

/-- A row-major array that fills its buffer is walked like the list of its cells. -/
theorem Snapshot.walk_of_rowMajor {s : Snapshot α} {data : List α} (hl : Layout.rowMajor s.dims = .ok s.view.layout)
    (ho : s.view.offset = 0) (hc : s.heap.cells s.view.buffer = data.toArray) (hd : data.length = s.dims.volume)
    (hn : (data.length : Int) ≤ Address.maxSigned) :
    s.walk = (do
      let _ ← s.view.size
      .ok (Walk.ofList data)) := by
  cases hs : s.view.size with
  | error cause =>
    have hsize : s.view.layout.size = .error cause := hs
    rw [walk,elements,View.offsets,Offsets.ofLayout,hsize]
    rfl
  | ok n =>
    obtain rfl : n = data.length := (Shape.size_eq_volume hs).trans hd.symm
    obtain ⟨o,hoff,hr,ha⟩ := Layout.answers_of_rowMajor hl hs hn
    have he : Answers (Elements.next? · s.heap) data (Elements.mk s.view.buffer o) := by
      cases data with
      | nil =>
        have hnone : o.next? = .ok none := ha
        show Elements.next? _ s.heap = .ok none
        simp [Elements.next?,hnone]
      | cons x xs =>
        have hread : ∀ cell ∈ List.range (x :: xs).length,
            s.heap.read s.view.buffer cell = .ok ((x :: xs).getD cell x) := fun cell hm => by
          have hlt := List.mem_range.1 hm
          simp [Heap.read,hc,List.getD,List.getElem?_eq_getElem hlt]
        have hlist : (List.range (x :: xs).length).map (fun cell => (x :: xs).getD cell x) = x :: xs :=
          List.ext_getElem (by simp) fun cell _ hlt => by simp [List.getD,List.getElem?_eq_getElem hlt]
        rw [← hlist]
        exact ha.map (fun o ho => by simp [Elements.next?,ho]) (fun o cell t y ho hx => by simp [Elements.next?,ho,hx]) hread
    rw [walk,elements,View.offsets,ho,hoff,ok_bind,ok_bind,ok_bind,Elements.walk,Elements.length,hr,
      Walk.unfold_eq_ofList he]

namespace Heap

/-- The view is of a buffer of the heap in which there are the values of the block and nothing else. -/
structure Holds (h : Heap α) (v : View) (b : Block α) : Prop where
  buffer_lt : v.buffer < h.buffers.size
  layout_eq : v.layout = b.layout
  offset_eq : v.offset = 0
  cells_eq : h.cells v.buffer = b.data.toArray

variable {h : Heap α} {v : View} {b : Block α}

theorem holds_place (h : Heap α) (b : Block α) : (h.place b).2.Holds (h.place b).1 b where
  buffer_lt := by simp [place,alloc]
  layout_eq := rfl
  offset_eq := rfl
  cells_eq := (h.cells_alloc b.data _).trans (if_pos rfl)

theorem Holds.dims_eq (hh : h.Holds v b) : v.dims = b.dims := congrArg Layout.dims hh.layout_eq

theorem Holds.walk_eq (hh : h.Holds v b) (hb : b.Filled) (hn : (b.data.length : Int) ≤ Address.maxSigned) :
    (Snapshot.mk h v).walk = b.walk := by
  have hl : Layout.rowMajor v.dims = .ok v.layout := by
    rw [hh.dims_eq,hh.layout_eq]
    exact hb.1
  have hd : b.data.length = v.dims.volume := by
    rw [hh.dims_eq]
    exact hb.2
  have hw := Snapshot.walk_of_rowMajor (s := ⟨h,v⟩) hl hh.offset_eq hh.cells_eq hd hn
  rw [hw,View.size,hh.layout_eq]
  rfl

end Heap

def Heap.placed (h : Heap α) (b : Block α) : Snapshot α := ⟨(h.place b).2,(h.place b).1⟩

namespace Snapshot

theorem get_placed (h : Heap α) (b : Block α) (index : List Nat) : (h.placed b).get index = b.snapshot.get index := by
  have hc : (h.placed b).heap.cells (h.placed b).view.buffer = b.snapshot.heap.cells b.snapshot.view.buffer := by
    have h1 := h.cells_alloc b.data (h.alloc b.data).1
    have h2 := (Heap.empty : Heap α).cells_alloc b.data (Heap.alloc .empty b.data).1
    rw [if_pos rfl] at h1 h2
    exact h1.trans h2.symm
  have hr (cell : Nat) : (h.placed b).heap.read (h.placed b).view.buffer cell =
      b.snapshot.heap.read b.snapshot.view.buffer cell := by
    rw [Heap.read,Heap.read,Heap.length,Heap.length,hc]
  simp only [get,hr]
  rfl

end Snapshot

namespace Block

variable {s : Shape} {g : List Nat → Result α} {b : Block α}

theorem Filled.toList_snapshot [Element α] (hb : b.Filled) (hs : b.layout.size = .ok b.data.length)
    (hn : (b.data.length : Int) ≤ Address.maxSigned) (hr : Element.width α*b.data.length ≤ Capacity.maxBytes) :
    b.snapshot.toList = .ok b.data := by
  have hroom : (Walk.ofList b.data).room (Element.width α) = .ok () := if_pos hr
  have hw : b.snapshot.walk = b.walk := (Heap.empty.holds_place b).walk_eq hb hn
  rw [Snapshot.toList,hw,walk,hs,ok_bind,ok_bind,Walk.collect,Walk.collectWide,hroom,ok_bind,Walk.toList_ofList]

theorem Tabulates.dims_placed (ht : Tabulates s g (.ok b)) (h : Heap α) : (h.placed b).dims = s := ht.dims_eq

theorem Tabulates.sound_placed (ht : Tabulates s g (.ok b)) (hs : s.span ≤ 2^50) (h : Heap α) : (h.placed b).Sound := by
  have hsound : b.snapshot.Sound := ht.sound hs
  have hl : (h.placed b).heap.length (h.placed b).view.buffer = b.snapshot.heap.length b.snapshot.view.buffer :=
    (h.length_alloc b.data).trans ((Heap.empty : Heap α).length_alloc b.data).symm
  rw [Snapshot.Sound,hl]
  exact ⟨⟨hsound.span_le,hsound.swing_le,hsound.inside⟩,hsound.step_le⟩

theorem Tabulates.values_placed [Element α] (ht : Tabulates s g (.ok b)) (hs : s.span ≤ 2^50) (h : Heap α) :
    (h.placed b).values = b.data := by
  have hm := (ht.sound_placed hs h).mapM_get
  have hget : ∀ index ∈ s.indices, (h.placed b).get index = g index := fun index hi => by
    rw [Snapshot.get_placed,ht.get_eq hs (Shape.mem_indices.1 hi)]
  rw [ht.dims_placed h,mapM_congr hget,ht.2] at hm
  exact (Except.ok.inj hm).symm

end Block

end Strided
