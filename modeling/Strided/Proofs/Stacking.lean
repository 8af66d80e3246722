import Strided.Proofs.AxisOrder
import Strided.Proofs.Counting

set_option autoImplicit false

namespace Strided

namespace Address

theorem signed_mul_natCast {k m : Nat} (h : k*m ≤ 2^50) : signed k*(m : Int) = (k*m : Nat) := by
  rcases Nat.eq_zero_or_pos m with rfl | hm
  · simp
  · have hk := Nat.le_trans (Nat.le_mul_of_pos_right k hm) h
    rw [signed_of_le (by simp only [maxSigned]; omega),Int.natCast_mul]

end Address

/-- A slab of a row-major view from the first cell is the row-major view that starts after the slabs before it. -/
theorem View.slab_eq_of_packed {v : View} {n k : Nat} {s : Shape} (hl : v.layout = Layout.packed (n :: s))
    (ho : v.offset = 0) (hk : k < n) (hv : n*s.volume ≤ 2^50) :
    v.slab k = .ok { v with layout := Layout.packed s, offset := k*s.volume } := by
  have ha : v.layout.axes[0]? = some ⟨n,(s.volume : Int)⟩ := by rw [hl]; rfl
  have hle : k*s.volume ≤ 2^50 := Nat.le_trans (Nat.mul_le_mul_right _ (Nat.le_of_lt hk)) hv
  have hz : Address.signed 0 = 0 := Address.signed_of_le_two_pow (n := 0) (by decide)
  have hs : ((k*s.volume : Nat) : Int) ≤ Address.maxSigned := by simp only [Address.maxSigned]; omega
  have hdrop : v.layout.dropAxis 0 = Layout.packed s := by rw [hl]; rfl
  have hu := Address.unsigned_of_nonneg (Int.natCast_nonneg (k*s.volume)) hs
  rw [slab,slabAlong_eq_slabAt ha hk,slabAt,ha,Option.map_some,Option.getD_some,Address.mul,
    Address.signed_mul_natCast hle,if_pos (Address.isSigned_natCast hs),ok_bind,cellAt,ho,hz,
    Address.add_eq_ok (by rw [Int.zero_add]; exact Address.isSigned_natCast hs),ok_bind,Int.zero_add,ok_bind,hdrop,
    Int.ofNat.inj hu]

namespace Permutation

variable {β : Type} {axis n : Nat}

def front (axis n : Nat) : List Nat := axis :: (List.range n).eraseIdx axis

theorem validate_front (ha : axis < n) : validate (front axis n) n = .ok () := by
  have hl : axis < (List.range n).length := by rwa [List.length_range]
  have hback := List.insertIdx_eraseIdx_getElem hl
  have hle : axis ≤ ((List.range n).eraseIdx axis).length := by rw [List.length_eraseIdx_of_lt hl]; omega
  have hp := List.perm_insertIdx (List.range n)[axis] ((List.range n).eraseIdx axis) hle
  rw [hback,List.getElem_range] at hp
  exact validate_eq_ok_iff.2 hp.symm

theorem arrange_front {xs : List β} {x : β} (hx : xs[axis]? = some x) :
    arrange (front axis xs.length) xs = x :: xs.eraseIdx axis := by
  rw [front,arrange_cons hx,arrange_eraseIdx fun p hp => List.mem_range.1 hp,arrange_range]

theorem restore_front {index : List Nat} (ha : axis < n) (hl : index.length+1 = n) (k : Nat) :
    restore (front axis n) (k :: index) = index.insertIdx axis k := by
  have hp := validate_front ha
  have hle : axis ≤ index.length := by omega
  have hi : (index.insertIdx axis k).length = n := by rw [List.length_insertIdx,if_pos hle,hl]
  have hx : (index.insertIdx axis k)[axis]? = some k := by rw [List.getElem?_insertIdx_self,if_pos hle]
  have hfront := arrange_front hx
  rw [hi,List.eraseIdx_insertIdx_self] at hfront
  refine arrange_injective hp (by rw [length_restore,length_of_validate hp]) hi ?_
  have hk : (k :: index).length = n := hl
  rw [arrange_restore hp hk,hfront]

end Permutation

namespace Block

variable {α : Type} {s : Shape} {g : List Nat → Result α} {b : Block α} {n k : Nat}

theorem Tabulates.slab_placed (ht : Tabulates (n :: s) g (.ok b)) (hs : s.span ≤ 2^50) (hv : n*s.volume ≤ 2^50)
    (hk : k < n) (h : Heap α) :
    ∃ w, (h.placed b).view.slab k = .ok w ∧ w.dims = s ∧ ((h.placed b).through w).Sound ∧
      ∀ index, s.Contains index → ((h.placed b).through w).get index = g (k :: index) := by
  have hrow : (k+1)*s.volume ≤ n*s.volume := Nat.mul_le_mul_right _ hk
  rw [Nat.succ_mul] at hrow
  have hlength : (h.placed b).heap.length (h.placed b).view.buffer = n*s.volume :=
    (h.length_alloc b.data).trans ht.length_data
  let w : View := { (h.placed b).view with layout := Layout.packed s, offset := k*s.volume }
  have hstart : w.start = (k*s.volume : Nat) := Address.signed_of_le_two_pow (n := k*s.volume) (by omega)
  have hsound : ((h.placed b).through w).Sound := by
    refine View.sound_of_packed rfl hs ?_ fun r hr => ?_
    · have hsw := Layout.swing_packedAxes_lt s
      change w.start.natAbs+_ ≤ _
      omega
    · change 0 ≤ w.start+r ∧ w.start+r < (h.placed b).heap.length (h.placed b).view.buffer
      omega
  refine ⟨w,View.slab_eq_of_packed ht.1 rfl hk hv,Layout.dims_packed s,hsound,fun index hi => ?_⟩
  have hc : Shape.Contains (n :: s) (k :: index) := ⟨hk,hi⟩
  have hd : w.dims.Contains index := by rwa [View.dims,Layout.dims_packed]
  have hn : (Shape.volume (n :: s) : Int) ≤ Address.maxSigned := by
    simp only [Shape.volume,Address.maxSigned]
    omega
  have hcell : w.cell index = Shape.rank (n :: s) (k :: index) := by
    have hdist : w.layout.distance index = s.rank index := Layout.distanceAlong_packedAxes s index
    rw [View.cell,hstart,hdist,Shape.rank]
    omega
  have hview : w.cellOf index = (h.placed b).view.cellOf (k :: index) :=
    (View.Near.cellOf_eq hsound.near hd).trans ((congrArg Except.ok hcell).trans (ht.cellOf_eq hn hc).symm)
  have hget : ((h.placed b).through w).get index = (h.placed b).get (k :: index) := by
    rw [Snapshot.get,Snapshot.get,← hview]
    rfl
  rw [hget,Snapshot.get_placed,ht.get_eq_of_countable hn hc]

end Block

namespace Shape

/-- Items of the shape can be counted, and so can the strides of a stack of them, however many they are. -/
def Stackable (s : Shape) : Prop := s.Countable ∧ Strideable (0 :: s)

instance (s : Shape) : Decidable s.Stackable := inferInstanceAs (Decidable (_ ∧ _))

theorem stackable_of_span_le {s : Shape} (h : (s.span : Int) ≤ Address.maxSigned) : s.Stackable :=
  ⟨(inRange_of_span_le h).2,strideable_cons.2 ⟨isSigned_signedVolume h,(inRange_of_span_le h).1⟩⟩

end Shape

namespace Snapshot

open Block (Tabulates)

variable {α : Type} [Element α] {h : Heap α} {items : List View} {d : Shape}

theorem stackShaped_refused (h : Heap α) (he : ∃ v ∈ items, v.dims ≠ d) :
    ∃ v ∈ items, v.dims ≠ d ∧ stackShaped h d items = refuse (.shapeMismatch d v.dims) := by
  obtain ⟨bad,hbad⟩ : ∃ bad, items.find? (fun v => v.dims ≠ d) = some bad := by
    rw [← Option.isSome_iff_exists,List.find?_isSome]
    simpa using he
  have hne : bad.dims ≠ d := by simpa using List.find?_some hbad
  exact ⟨bad,List.mem_of_find?_eq_some hbad,hne,by rw [stackShaped,Block.stack,hbad]⟩

theorem stackShaped_nil : stackShaped h d [] =
    if d.Stackable then .ok { layout := ⟨Layout.steppedAxes (0 :: d)⟩, data := [] } else abort .multiplyOverflow := by
  have hcount : Address.mulCount 0 d.volume = .ok 0 := by simp [Address.mulCount]
  have hroom : Capacity.reserve (Element.width α) 0 = .ok () := Capacity.reserve_of_le (Nat.zero_le _)
  rw [stackShaped,Block.stack]
  simp only [List.find?_nil,Shape.size_eq,List.length_nil,Layout.rowMajor,Layout.rowMajorAxes_eq,Shape.Stackable]
  by_cases hc : d.Countable
  · by_cases hs : Shape.Strideable (0 :: d)
    · simp only [hc,hs,↓reduceIte,ok_bind,hcount,hroom,and_self]
      rfl
    · simp only [hc,hs,↓reduceIte,ok_bind,hcount,hroom,and_false]
      rfl
  · simp only [hc,↓reduceIte,false_and]
    rfl

theorem tabulates_stackShaped {n : Nat} {g : List Nat → Result α} (hs : d.span ≤ 2^50) (hv : n*d.volume ≤ 2^50)
    (hn : items.length = n) (hi : ∀ v ∈ items, (Snapshot.mk h v).Sound ∧ v.dims = d)
    (hg : ∀ i v, items[i]? = some v → ∀ index, d.Contains index →
      g (i :: index) = .ok ((Snapshot.mk h v).valueAt index)) :
    Tabulates (n :: d) g (stackShaped h d items) := by
  have hrows : (items.mapM fun v => do (← (Snapshot.mk h v).walk).toList) =
      .ok (items.map fun v => (Snapshot.mk h v).values) :=
    mapM_ok fun v hm => by rw [(hi v hm).1.walk_eq,ok_bind,Walk.toList_ofList]
  refine Block.tabulates_stack_of_rows hs hv hn (fun v hm => (hi v hm).2) hrows fun i xs hx => ?_
  obtain ⟨v,hk,rfl⟩ : ∃ v, items[i]? = some v ∧ (Snapshot.mk h v).values = xs := by simpa using hx
  have hd : (Snapshot.mk h v).dims = d := (hi v (List.mem_of_getElem? hk)).2
  rw [values,hd]
  exact mapM_ok fun index hm => hg i v hk index (Shape.mem_indices.1 hm)

/-- The block has a slab for each item, wherever it is put: of the same extents, and with the same values in order. -/
structure Stacks (h : Heap α) (d : Shape) (items : List View) (b : Block α) : Prop where
  layout_eq : Layout.rowMajor (items.length :: d) = .ok b.layout
  dims_eq : b.dims = items.length :: d
  slab_eq : ∀ k v, items[k]? = some v → ∃ w xs, (h.placed b).view.slab k = .ok w ∧ w.dims = v.dims ∧
    ((h.placed b).through w).toList = .ok xs ∧ (Snapshot.mk h v).toList = .ok xs

def itemAt (h : Heap α) (items : List View) : List Nat → α
  | [] => Element.blank
  | k :: index => ((items[k]?).map fun v => (Snapshot.mk h v).valueAt index).getD Element.blank

theorem exists_stacks (hw : ∀ v ∈ items, (Snapshot.mk h v).WellFormed) (hne : items ≠ [])
    (hcount : (items.map fun v => v.dims.volume).sum ≤ 2^50) (hd : ∀ v ∈ items, v.dims = d) :
    ∃ b, stackShaped h d items = .ok b ∧ Stacks h d items b := by
  have hsound (v : View) (hm : v ∈ items) : (Snapshot.mk h v).Sound ∧ v.dims = d := ⟨(hw v hm).sound,hd v hm⟩
  have hspan : d.span ≤ 2^50 := by
    obtain ⟨v,hm⟩ := List.exists_mem_of_ne_nil items hne
    rw [← hd v hm]
    exact (hw v hm).span_le
  have hvolume : items.length*d.volume ≤ 2^50 := by
    have hconst : (items.map fun v => v.dims.volume) = List.replicate items.length d.volume := by
      rw [← List.map_const']
      exact List.map_congr_left fun v hm => by rw [hd v hm]
    rwa [hconst,List.sum_replicate_nat] at hcount
  have ht : Tabulates (items.length :: d) (fun index => .ok (itemAt h items index)) (stackShaped h d items) :=
    tabulates_stackShaped hspan hvolume rfl hsound fun i v hi index _ => by rw [itemAt,hi,Option.map_some,Option.getD_some]
  obtain ⟨b,hb⟩ := ht.exists_ok fun _ _ => ⟨_,rfl⟩
  rw [hb] at ht
  refine ⟨b,hb,by rw [ht.1,Layout.rowMajor_cons_eq_packed _ hspan],ht.dims_eq,fun k v hk => ?_⟩
  obtain ⟨hv,hvd⟩ := hsound v (List.mem_of_getElem? hk)
  obtain ⟨w,hslab,hwd,hws,hget⟩ := ht.slab_placed hspan hvolume (List.getElem?_eq_some_iff.1 hk).1 h
  have hm := hws.mapM_get
  have hdims : ((h.placed b).through w).dims = d := hwd
  have hitem : (Snapshot.mk h v).dims = d := hvd
  have hvalues : d.indices.mapM ((h.placed b).through w).get = .ok (Snapshot.mk h v).values := by
    rw [values,hitem]
    refine mapM_ok fun index hi => ?_
    rw [hget index (Shape.mem_indices.1 hi),itemAt,hk,Option.map_some,Option.getD_some]
  rw [hdims,hvalues,Except.ok.injEq] at hm
  exact ⟨w,_,hslab,hwd.trans hvd.symm,by rw [hws.toList_eq,← hm],hv.toList_eq⟩

theorem exists_stacks_nil (hd : d.Stackable) : ∃ b, stackShaped h d [] = .ok b ∧ Stacks h d [] b := by
  refine ⟨_,stackShaped_nil.trans (if_pos hd),?_,Layout.map_extent_steppedAxes (0 :: d),nofun⟩
  rw [List.length_nil,Layout.rowMajor,Layout.rowMajorAxes_eq,if_pos hd.2,ok_bind]

/-- The slabs along an axis, stacked, are the array with that axis in front. -/
theorem Sound.stack_slabs {s : Snapshot α} (hs : s.Sound) {axis : Nat} (ha : axis < s.rank) :
    ∃ slabs items b w, Slabs.along s.view axis = .ok slabs ∧ slabs.walk.toList = .ok items ∧
      stackShaped s.heap (s.dims.eraseIdx axis) items = .ok b ∧
      s.view.permuted (Permutation.front axis s.rank) = .ok w ∧ b.Holds w.dims (s.through w).get := by
  have hl : s.dims.length = s.rank := s.view.length_dims
  obtain ⟨d,hd⟩ : ∃ d, s.dims[axis]? = some d := ⟨_,List.getElem?_eq_getElem (by rwa [hl])⟩
  obtain ⟨a,hax,hae⟩ := Layout.exists_axis hd
  obtain ⟨w,hw,hwd⟩ := View.exists_permuted (v := s.view) (Permutation.validate_front ha)
  have hfront : Permutation.arrange (Permutation.front axis s.rank) s.dims = d :: s.dims.eraseIdx axis := by
    rw [← hl]
    exact Permutation.arrange_front hd
  have hwd : w.dims = d :: s.dims.eraseIdx axis := hwd.trans hfront
  have hspan : Shape.span (d :: s.dims.eraseIdx axis) ≤ 2^50 := by
    rw [← hwd]
    exact (hs.through_permuted hw).span_le
  have hitems : (Slabs.ofAxis s.view axis).walk.toList = .ok ((List.range d).map (s.view.slabbed axis)) := by
    have hd' : s.view.dims[axis]? = some d := hd
    rw [View.Sound.walk_slabs hs,hd',Option.getD_some,Walk.toList_ofList]
  have ht : Tabulates (d :: s.dims.eraseIdx axis)
      (fun index => .ok (s.valueAt (Permutation.restore (Permutation.front axis s.rank) index)))
      (stackShaped s.heap (s.dims.eraseIdx axis) ((List.range d).map (s.view.slabbed axis))) := by
    refine tabulates_stackShaped (Nat.le_trans (Shape.span_tail_le _ _) hspan)
      (Nat.le_trans (Shape.volume_le_span (d :: _)) hspan) (by simp) (fun v hv => ?_) fun i v hi index hx => ?_
    · obtain ⟨i,hi,rfl⟩ := List.mem_map.1 hv
      exact ⟨hs.through_slabbed hax (hae ▸ List.mem_range.1 hi),View.dims_slabbed _ _ _⟩
    · obtain ⟨hlt,hi⟩ := List.getElem?_eq_some_iff.1 hi
      have hi' : i < d := by simpa using hlt
      rw [List.getElem_map,List.getElem_range] at hi
      subst hi
      have hn : index.length+1 = s.rank := by
        rw [hx.length_eq,List.length_eraseIdx_of_lt (hl ▸ ha),hl]
        omega
      rw [Permutation.restore_front ha hn,← hs.valueAt_slabbed hax (hae ▸ hi') hx]
      rfl
  rw [← hwd] at ht hspan
  obtain ⟨b,hb,hh⟩ : ∃ b, stackShaped s.heap (s.dims.eraseIdx axis) ((List.range d).map (s.view.slabbed axis)) = .ok b ∧
      b.Holds w.dims (s.through w).get :=
    ht.exists_holds hspan fun index hi => ⟨_,rfl,(hs.get_restore hw hi).2.2⟩
  exact ⟨_,_,b,w,if_pos ha,hitems,hb,hw,hh⟩

/-- Well-formed arrays of few elements are refused by a stack just when one of them has other extents than the shape
given. If none has and there is at least one, the stack has them as its slabs. A stack of none is there just when the
shape can be measured, as it can when the product of its extents, without the zeros, is a signed word. The slabs of a
well-formed array along any of its axes, stacked, are the array with that axis in front. -/
theorem stacks_and_slabs (d : Shape) (hw : ∀ v ∈ items, (Snapshot.mk h v).WellFormed)
    (hcount : (items.map fun v => v.dims.volume).sum ≤ 2^50) :
    ((∃ l r, stackShaped h d items = refuse (.shapeMismatch l r)) ↔ ∃ v ∈ items, v.dims ≠ d) ∧
    ((∀ v ∈ items, v.dims = d) →
      (items ≠ [] ∨ d.Stackable → ∃ b, stackShaped h d items = .ok b ∧ Stacks h d items b) ∧
      (items = [] ∧ ¬d.Stackable → stackShaped h d items = abort .multiplyOverflow)) ∧
    ((d.span : Int) ≤ Address.maxSigned → d.Stackable) ∧
    ∀ s : Snapshot α, s.WellFormed → ∀ axis, axis < s.rank →
      ∃ slabs parts b w, Slabs.along s.view axis = .ok slabs ∧ slabs.walk.toList = .ok parts ∧
        stackShaped s.heap (s.dims.eraseIdx axis) parts = .ok b ∧
        s.view.permuted (axis :: (List.range s.rank).eraseIdx axis) = .ok w ∧ b.Holds w.dims (s.through w).get := by
  have hsame : (∀ v ∈ items, v.dims = d) → items ≠ [] ∨ d.Stackable →
      ∃ b, stackShaped h d items = .ok b ∧ Stacks h d items b := by
    intro hd hor
    rcases eq_or_ne items [] with rfl | hne
    · exact exists_stacks_nil (hor.resolve_left fun hne => hne rfl)
    · exact exists_stacks hw hne hcount hd
  have hnone (hempty : items = []) (hn : ¬d.Stackable) : stackShaped h d items = abort .multiplyOverflow := by
    rw [hempty,stackShaped_nil,if_neg hn]
  refine ⟨⟨fun ⟨l,r,hr⟩ => ?_,fun he => ?_⟩,fun hd => ⟨hsame hd,fun hn => hnone hn.1 hn.2⟩,
    Shape.stackable_of_span_le,fun s hs axis ha => hs.sound.stack_slabs ha⟩
  · by_contra hall
    push Not at hall
    by_cases hor : items ≠ [] ∨ d.Stackable
    · obtain ⟨b,hb,-⟩ := hsame hall hor
      rw [hb] at hr
      cases hr
    · rw [not_or,not_not] at hor
      rw [hnone hor.1 hor.2] at hr
      cases hr
  · obtain ⟨v,-,-,hr⟩ := stackShaped_refused h he
    exact ⟨_,_,hr⟩

def onward : View := { buffer := 0, layout := ⟨[⟨2,3⟩,⟨3,1⟩]⟩, offset := 0 }

theorem zigzag_stacks_and_slabs : (∀ v ∈ [zigzag.view,onward], (Snapshot.mk zigzag.heap v).WellFormed) ∧
    ([zigzag.view,onward].map fun v => v.dims.volume).sum ≤ 2^50 ∧
    (∃ b w, stackShaped zigzag.heap [2,3] [zigzag.view,onward] = .ok b ∧ b.dims = [2,2,3] ∧
      (zigzag.heap.placed b).view.slab 1 = .ok w ∧
      ((zigzag.heap.placed b).through w).toList = .ok ([0,1,2,3,4,5].map (Word.ofInt _))) ∧
    ∃ parts b, stackShaped zigzag.heap [2] parts = .ok b ∧ b.dims = [3,2] ∧
      b.snapshot.get [2,1] = .ok (Word.ofInt _ 1) := by
  have hw : ∀ v ∈ [zigzag.view,onward], (Snapshot.mk zigzag.heap v).WellFormed := by decide
  have hcount : ([zigzag.view,onward].map fun v => v.dims.volume).sum ≤ 2^50 := by decide
  have honward : (Snapshot.mk zigzag.heap onward).toList = .ok ([0,1,2,3,4,5].map (Word.ofInt _)) := by decide
  obtain ⟨-,hsame,-,hslabs⟩ := stacks_and_slabs [2,3] hw hcount
  obtain ⟨b,hb,hstacks⟩ := (hsame (by decide)).1 (Or.inl (by decide))
  obtain ⟨w,xs,hslab,-,hxs,hitem⟩ := hstacks.slab_eq 1 onward rfl
  obtain ⟨slabs,parts,c,u,-,-,hc,hu,hholds⟩ := hslabs zigzag (by decide) 1 (by decide)
  obtain rfl := Except.ok.inj ((by decide : zigzag.view.permuted [1,0] = .ok
    { buffer := 0, layout := ⟨[⟨3,-2⟩,⟨2,1⟩]⟩, offset := 4 }).symm.trans hu)
  obtain ⟨x,hx,hget⟩ := hholds.get_eq [2,1] (by decide)
  refine ⟨hw,hcount,⟨b,w,hb,hstacks.dims_eq,hslab,?_⟩,parts,c,hc,hholds.dims_eq,?_⟩
  · rw [hxs,← hitem,honward]
  · rw [hget,← hx]
    decide

/-- A stack of none would have no elements here, but the extents in front of the 0 are too large to be multiplied. -/
theorem vast_stack_aborts :
    (∀ v ∈ ([] : List View), (Snapshot.mk (Heap.empty : Heap (Word ⟨true,.w8⟩)) v).WellFormed) ∧
    (([] : List View).map fun v => v.dims.volume).sum ≤ 2^50 ∧ (¬∃ v ∈ ([] : List View), v.dims ≠ [2^40,2^40,0]) ∧
    Shape.volume [0,2^40,2^40,0] = 0 ∧
    stackShaped (Heap.empty : Heap (Word ⟨true,.w8⟩)) [2^40,2^40,0] [] = abort .multiplyOverflow := by
  refine ⟨nofun,by decide,by simp,by decide,?_⟩
  rw [stackShaped_nil]
  exact if_neg (by decide)

end Snapshot

end Strided
