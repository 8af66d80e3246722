import Strided.Proofs.Addresses
import Strided.Proofs.Filled
import Strided.Proofs.InPlace
import Strided.Proofs.Placed
import Strided.Proofs.Translation

set_option autoImplicit false

namespace Strided

variable {α : Type}

namespace View

variable {v w : View} {length : Nat} {source : List Nat → List Nat}

theorem Distinct.of_translates (hv : v.Distinct) (ht : v.Translates w source)
    (hs : ∀ i j, w.dims.Contains i → w.dims.Contains j → source i = source j → i = j) : w.Distinct := by
  intro i j hi hj he
  have h1 := ht.position_eq i hi
  have h2 := ht.position_eq j hj
  refine hs i j hi hj (hv _ _ (ht.contains i hi) (ht.contains j hj) ?_)
  simp only [address] at he ⊢
  omega

theorem distinct_of_rank (h : ∀ index, v.dims.Contains index → v.layout.distance index = v.dims.rank index) :
    v.Distinct := by
  intro i j hi hj he
  simp only [address,h i hi,h j hj] at he
  exact Shape.rank_injective hi hj (by omega)

theorem Near.cell_injective (hv : v.Near length) (hd : v.Distinct) {i j : List Nat} (hi : v.dims.Contains i)
    (hj : v.dims.Contains j) (he : v.cell i = v.cell j) : i = j := by
  have h1 := (hv.inside i hi).1
  have h2 := (hv.inside j hj).1
  refine hd i j hi hj ?_
  simp only [cell,address] at he ⊢
  omega

def Unshared (v : View) (length : Nat) : Prop := 0 ∈ v.dims ∨ v.Sound length ∧ v.Distinct

theorem Sound.mono {n : Nat} (h : v.Sound length) (hn : length ≤ n) : v.Sound n where
  toNear := ⟨h.span_le,h.swing_le,fun index hi => ⟨(h.inside index hi).1,by have := (h.inside index hi).2; omega⟩⟩
  step_le := h.step_le

theorem Unshared.mono {n : Nat} (h : v.Unshared length) (hn : length ≤ n) : v.Unshared n :=
  h.imp_right fun h => ⟨h.1.mono hn,h.2⟩

theorem unshared_slabAt (hv : v.Sound length) (hd : v.Distinct) {axis i : Nat} {a : Axis}
    (ha : v.layout.axes[axis]? = some a) (hi : i < a.extent) (h : v.slabAt axis i = .ok w) : w.Unshared length := by
  obtain rfl := Except.ok.inj ((hv.slabAt_eq ha hi).symm.trans h)
  refine Or.inr ⟨hv.slabbed ha hi,hd.of_translates (hv.translates_slabbed ha hi) fun j k _ _ he => ?_⟩
  exact List.insertIdx_injective axis i he

theorem unshared_slabAlong (hv : v.Sound length) (hd : v.Distinct) {axis i : Nat} (h : v.slabAlong axis i = .ok w) :
    w.Unshared length := by
  obtain ⟨a,ha,hi⟩ := exists_axis_of_slabAlong h
  rw [slabAlong_eq_slabAt ha hi] at h
  exact unshared_slabAt hv hd ha hi h

theorem unshared_permuted (hv : v.Sound length) (hd : v.Distinct) {perm : List Nat} (h : v.permuted perm = .ok w) :
    w.Unshared length := by
  obtain ⟨hdims,hw⟩ := hv.permuted h
  refine Or.inr ⟨hw,hd.of_translates (translates_of_permuted h) fun i j hi hj he => ?_⟩
  obtain ⟨l,hl,h⟩ := bind_eq_ok.1 h
  obtain ⟨⟨⟩,hp,-⟩ := bind_eq_ok.1 hl
  have hlength {index : List Nat} (hx : w.dims.Contains index) : index.length = v.layout.rank := by
    rw [hx.length_eq,hdims,(Permutation.arrange_perm hp v.length_dims).length_eq,length_dims]
    rfl
  rw [← Permutation.arrange_restore hp (hlength hi),he,Permutation.arrange_restore hp (hlength hj)]

theorem unshared_reshape (hv : v.Sound length) (h0 : 0 ∉ v.dims) {dims : Shape} (h : v.reshape dims = .ok w) :
    w.Unshared length := by
  obtain ⟨layout,hl,rfl,-,hvol,hc⟩ := layout_of_reshape h
  have h0' : 0 ∉ dims := by rwa [← Shape.volume_eq_zero_iff,← hvol,Shape.volume_eq_zero_iff]
  have hspan : Shape.span dims ≤ 2^50 := by
    rw [← Shape.volume_eq_span h0',← hvol]
    exact Nat.le_trans v.dims.volume_le_span hv.span_le
  rw [Layout.rowMajor_eq_packed hspan] at hl
  obtain rfl := Except.ok.inj hl
  have hdims : View.dims { v with layout := Layout.packed dims } = dims := Layout.dims_packed dims
  have hrank {r : Nat} (hr : r < Shape.volume dims) : ∃ index, v.dims.Contains index ∧ v.layout.distance index = r := by
    obtain ⟨index,hi,rfl⟩ := Shape.exists_rank_eq (hvol ▸ hr)
    exact ⟨index,hi,hv.distance_eq_rank hc hi⟩
  refine Or.inr ⟨sound_of_packed rfl hspan ?_ fun r hr => ?_,distinct_of_rank fun index _ => ?_⟩
  · -- The last index is as far from the start as the new layout goes.
    have hpos : 0 < Shape.volume dims := Nat.pos_of_ne_zero fun hz => h0' ((Shape.volume_eq_zero_iff dims).1 hz)
    obtain ⟨index,hi,hlast⟩ := hrank (r := Shape.volume dims-1) (by omega)
    have hle := Layout.natAbs_distanceAlong_le hi
    have hlt := Layout.swing_packedAxes_lt dims
    have hsw := hv.swing_le
    rw [← Shape.volume_eq_span h0'] at hlt
    rw [Layout.distance] at hlast
    show v.start.natAbs+Layout.swing (Layout.packedAxes dims) ≤ 2^51
    omega
  · obtain ⟨index,hi,hd⟩ := hrank hr
    rw [← hd]
    exact hv.inside index hi
  · rw [hdims]
    exact Layout.distanceAlong_packedAxes dims index

end View

/-- Whether axes are stretched, so that several indices come to share a cell. -/
def Session.Outlook.stretches : Session.Outlook → Bool
  | .broadcastTo _ => true
  | _ => false

namespace View

variable {v w : View} {length : Nat}

theorem unshared_take (hv : v.Sound length) (hd : v.Distinct) (h0 : 0 ∉ v.dims) {outlook : Session.Outlook}
    (ho : outlook.stretches = false) (h : outlook.take v = .ok w) : w.Unshared length := by
  cases outlook with
  | whole =>
    obtain rfl := Except.ok.inj h
    exact Or.inr ⟨hv,hd⟩
  | slab i => exact unshared_slabAlong hv hd h
  | slabAlong axis i => exact unshared_slabAlong hv hd h
  | permuted perm => exact unshared_permuted hv hd h
  | broadcastTo dims => cases ho
  | reshape dims => exact unshared_reshape hv h0 h

theorem Unshared.take (hv : v.Unshared length) {outlook : Session.Outlook} (ho : outlook.stretches = false)
    (h : outlook.take v = .ok w) : w.Unshared length := by
  by_cases h0 : 0 ∈ v.dims
  · exact Or.inl (Looks.zero_mem (.outlook h) h0)
  · obtain ⟨hs,hd⟩ := hv.resolve_left h0
    exact unshared_take hs hd h0 ho h

theorem Unshared.item (hv : v.Unshared length) {axis : Nat} {s t : Slabs} (hs : Slabs.Underway v axis s)
    (hi : s.next? = .ok (some (w,t)) ∨ s.nextBack? = .ok (some (w,t))) : w.Unshared length := by
  rcases hv with h0 | ⟨hv,hd⟩
  · exact Or.inl (Looks.zero_mem (.item hs hi) h0)
  · obtain ⟨a,i,ha,hlt,hw⟩ := hs.exists_slabAt hi
    exact unshared_slabAt hv hd ha hlt hw

end View

namespace View

variable {v : View} {length : Nat}

theorem Unshared.cellOf_eq (hv : v.Unshared length) {index : List Nat} (hi : v.dims.Contains index) :
    v.cellOf index = .ok (v.cell index) ∧ v.cell index < length := by
  rcases hv with h0 | ⟨hs,-⟩
  · exact (Shape.not_contains_of_mem h0 index hi).elim
  · exact ⟨hs.cellOf_eq hi,hs.cell_lt hi⟩

theorem Unshared.cell_injective (hv : v.Unshared length) {i j : List Nat} (hi : v.dims.Contains i)
    (hj : v.dims.Contains j) (he : v.cell i = v.cell j) : i = j := by
  rcases hv with h0 | ⟨hs,hd⟩
  · exact (Shape.not_contains_of_mem h0 i hi).elim
  · exact hs.cell_injective hd hi hj he

theorem Unshared.drains (hv : v.Unshared length) {n : Nat} (hn : v.size = .ok n) :
    v.Drains ∧ n = v.dims.volume ∧ n ≤ 2^50 := by
  have hvol : n = v.dims.volume := Shape.size_eq_volume hn
  rcases hv with h0 | ⟨hs,-⟩
  · have hz : n = 0 := by rw [hvol,(Shape.volume_eq_zero_iff _).2 h0]
    subst hz
    exact ⟨drains_of_size_eq_zero hn,hvol,by omega⟩
  · exact ⟨hs.offsets_answers,hvol,hvol ▸ Shape.volume_le_of_span_le hs.span_le⟩

/-- What is assigned is what is read afterwards, and no cell of another index or buffer has changed. -/
theorem Unshared.assign_eq [Element α] {h : Heap α} (hv : v.Unshared (h.length v.buffer)) {xs : List α}
    (hn : v.size = .ok xs.length) :
    ∃ h', v.assign xs h = (.ok (),h') ∧ (Snapshot.mk h' v).toList = .ok xs ∧ h.SameBut v.buffer h' ∧
      ∀ c, (∀ index, v.dims.Contains index → v.cellOf index ≠ .ok c) →
        (h'.cells v.buffer)[c]? = (h.cells v.buffer)[c]? := by
  obtain ⟨hd,hvol,hle⟩ := hv.drains hn
  obtain ⟨x,rfl⟩ := Shape.exists_map_indices hvol
  have hcell (index : List Nat) (hi : index ∈ v.dims.indices) := hv.cellOf_eq (Shape.mem_indices.1 hi)
  have hassign := hd.assign_eq (x := x) (hvol ▸ hn) fun index hi => (hcell index hi).2
  have hsame := h.sameBut_putEach v.buffer v.cell x v.dims.indices
  refine ⟨_,hassign,?_,hsame,fun c hc => Heap.getElem?_cells_putEach x fun index hi he => ?_⟩
  · have hvalue (index : List Nat) (hi : v.dims.Contains index) :
        ((h.putEach v.buffer v.cell x v.dims.indices).cells v.buffer)[v.cell index]? = some (x index) := by
      refine Heap.cells_putEach (hv.cellOf_eq hi).2 (fun j hj he => ?_)
        (Or.inl (List.mem_map_of_mem (Shape.mem_indices.2 hi)))
      rw [hv.cell_injective (Shape.mem_indices.1 hj) hi he]
    let t : Snapshot α := ⟨h.putEach v.buffer v.cell x v.dims.indices,v⟩
    have hread (index : List Nat) (hi : t.dims.Contains index) :
        t.heap.read t.view.buffer (t.view.cell index) = .ok (t.valueAt index) := by
      refine Heap.read_eq_ok ?_ Element.blank
      rw [hsame.length_eq]
      exact (hv.cellOf_eq hi).2
    have hx : t.values = v.dims.indices.map x := by
      refine List.map_congr_left fun index hi => ?_
      rw [Snapshot.valueAt,hvalue index (Shape.mem_indices.1 hi),Option.getD_some]
    obtain ⟨e,he,hl,ha⟩ := Snapshot.elements_answers (s := t) hd hread
    rw [← hx]
    exact Snapshot.toList_eq_of_volume (le_of_eq_of_le hvol.symm hle) (Snapshot.walk_eq he hl ha)
  · exact hc index (Shape.mem_indices.1 hi) (by rw [(hcell index hi).1,he])

end View

theorem Block.Filled.unshared_placed [Element α] {b : Block α} (hb : b.Filled) (hs : b.dims.span ≤ 2^50) (h : Heap α) :
    (h.placed b).view.Unshared ((h.placed b).heap.length (h.placed b).view.buffer) := by
  have hl : b.layout = Layout.packed b.dims :=
    (Except.ok.inj ((Layout.rowMajor_eq_packed hs).symm.trans hb.1)).symm
  obtain ⟨x,-,ht⟩ := Block.exists_tabulates hl hb.2
  refine Or.inr ⟨ht.sound_placed hs h,View.distinct_of_rank fun index _ => ?_⟩
  show b.layout.distance index = b.dims.rank index
  rw [hl]
  exact Layout.distanceAlong_packedAxes b.dims index

namespace Snapshot

variable [Element α]

/-- The arrays that views and copies make of a fresh row-major array when no axis is stretched. Between the steps
anything may be done to the heap that makes no buffer shorter. -/
inductive Unstretched : Snapshot α → Prop
  | fresh {b : Block α} (h : Heap α) : b.Filled → b.dims.span ≤ 2^50 → Unstretched (h.placed b)
  | look {s : Snapshot α} {outlook : Session.Outlook} {w : View} : Unstretched s → outlook.stretches = false →
      outlook.take s.view = .ok w → Unstretched (s.through w)
  | item {s : Snapshot α} {axis : Nat} {slabs rest : Slabs} {w : View} : Unstretched s →
      Slabs.Underway s.view axis slabs →
      slabs.next? = .ok (some (w,rest)) ∨ slabs.nextBack? = .ok (some (w,rest)) → Unstretched (s.through w)
  | contiguous {s : Snapshot α} {v : View} {cells : Heap α} : Unstretched s → s.asContiguous = .ok (v,cells) →
      Unstretched ⟨cells,v⟩
  | later {s : Snapshot α} {h : Heap α} : Unstretched s →
      s.heap.length s.view.buffer ≤ h.length s.view.buffer → Unstretched ⟨h,s.view⟩

theorem Unstretched.unshared {s : Snapshot α} (h : s.Unstretched) :
    s.view.Unshared (s.heap.length s.view.buffer) := by
  induction h with
  | fresh h hb hs => exact hb.unshared_placed hs h
  | @look s outlook w _ ho hw ih =>
    have hb : w.buffer = s.view.buffer := View.buffer_of_take hw
    show w.Unshared (s.heap.length w.buffer)
    rw [hb]
    exact ih.take ho hw
  | @item s axis slabs rest w _ hu hi ih =>
    have hb : w.buffer = s.view.buffer := View.Looks.buffer_eq (.item hu hi)
    show w.Unshared (s.heap.length w.buffer)
    rw [hb]
    exact ih.item hu hi
  | @contiguous s v cells _ hc ih =>
    obtain ⟨-,rfl,rfl⟩ | ⟨-,b,-,hb,hd,rfl,rfl⟩ := asContiguous_cases hc
    · exact ih
    · rcases ih with h0 | ⟨hs,-⟩
      · refine Or.inl ?_
        show 0 ∈ b.dims
        rwa [hd]
      · exact hb.unshared_placed (by rw [hd]; exact hs.span_le) s.heap
  | later _ hl ih => exact ih.mono hl

/-- Fresh arrays of at most 2^50 elements start chains. Along a chain distinct indices are in distinct cells; whatever
list of the right length is assigned to an array of it is what the array lists afterwards, and every other cell is as it
was. -/
theorem unstretched_unshared :
    (∀ (as : Abilities α) (t : Session.State α) (made : Session.Fresh α) (b : Block α),
      made.make as t = .ok b → b.dims.span ≤ 2^50 → @Unstretched α as.element (t.cells.placed b)) ∧
    (∀ (as : Abilities α) (t : Session.State α) (made : Session.FreshMask) (b : Block Bool),
      made.make as t = .ok b → b.dims.span ≤ 2^50 → Unstretched (t.masks.placed b)) ∧
    (∀ (h : Heap α) (r : Result (Block α)) (b : Block α),
      Block.Makes r → r = .ok b → b.dims.span ≤ 2^50 → Unstretched (h.placed b)) ∧
    ∀ s : Snapshot α, s.Unstretched →
      (∀ i j, s.dims.Contains i → s.dims.Contains j → i ≠ j →
        ∃ c d, s.view.cellOf i = .ok c ∧ s.view.cellOf j = .ok d ∧ c ≠ d) ∧
      ∀ xs : List α, s.view.size = .ok xs.length →
        ∃ h, s.view.assign xs s.heap = (.ok (),h) ∧ (Snapshot.mk h s.view).toList = .ok xs ∧
          s.heap.SameBut s.view.buffer h ∧
          ∀ c, (∀ index, s.dims.Contains index → s.view.cellOf index ≠ .ok c) →
            (h.cells s.view.buffer)[c]? = (s.heap.cells s.view.buffer)[c]? := by
  refine ⟨fun as t made b hb hs => ?_,fun as t made b hb hs => ?_,fun heap r b hr hb hs => ?_,
    fun s h => ⟨fun i j hi hj hne => ?_,fun xs hn => ?_⟩⟩
  · let _element := as.element
    exact .fresh t.cells (Session.Fresh.ensures_make as t made b hb) hs
  · exact .fresh t.masks (Session.FreshMask.ensures_make as t made b hb) hs
  · exact .fresh heap (hr.ensures_filled b hb) hs
  · have hu := h.unshared
    refine ⟨_,_,(hu.cellOf_eq hi).1,(hu.cellOf_eq hj).1,fun he => hne (hu.cell_injective hi hj he)⟩
  · exact h.unshared.assign_eq hn

def plank : Block (Word ⟨true,.w8⟩) where
  layout := ⟨[⟨2,3⟩,⟨3,1⟩]⟩
  data := (List.range 6).map fun k : Nat => Word.ofInt _ k

theorem plank_unshared :
    ∃ column : View, ∃ h : Heap (Word ⟨true,.w8⟩), (Snapshot.mk (Heap.place .empty plank).2 column).Unstretched ∧
      (∃ c d, column.cellOf [0] = .ok c ∧ column.cellOf [1] = .ok d ∧ c ≠ d) ∧
      column.assign [Word.ofInt _ 7,Word.ofInt _ 8] (Heap.place .empty plank).2 = (.ok (),h) ∧
      (Snapshot.mk h column).toList = .ok [Word.ofInt _ 7,Word.ofInt _ 8] ∧
      (h.cells 0)[2]? = some (Word.ofInt _ 2) := by
  let column : View := { buffer := 0, layout := ⟨[⟨2,3⟩]⟩, offset := 1 }
  have hb : plank.Filled := ⟨by decide,rfl⟩
  have hfresh : (Heap.placed .empty plank).Unstretched := .fresh .empty hb (by decide)
  have hturned : (Session.Outlook.permuted [1,0]).take (Heap.placed .empty plank).view =
      .ok { buffer := 0, layout := ⟨[⟨3,1⟩,⟨2,3⟩]⟩, offset := 0 } := by decide
  have hslab : (Session.Outlook.slab 1).take { buffer := 0, layout := ⟨[⟨3,1⟩,⟨2,3⟩]⟩, offset := 0 } = .ok column := by
    decide
  have hchain : (Snapshot.mk (Heap.place .empty plank).2 column).Unstretched := (hfresh.look rfl hturned).look rfl hslab
  obtain ⟨hcells,hassign⟩ := unstretched_unshared.2.2.2 _ hchain
  obtain ⟨h,hh,hlist,-,hframe⟩ := hassign [Word.ofInt _ 7,Word.ofInt _ 8] (by decide)
  refine ⟨column,h,hchain,hcells [0] [1] (by decide) (by decide) (by decide),hh,hlist,?_⟩
  have hother (index : List Nat) (hi : index ∈ column.dims.indices) : column.cellOf index ≠ .ok 2 := by
    revert index
    decide
  rw [hframe 2 fun index hi => hother index (Shape.mem_indices.2 hi)]
  decide

end Snapshot

end Strided
