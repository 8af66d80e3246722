import Strided.Proofs.Addresses
import Strided.Proofs.Lockstep

set_option autoImplicit false

/-!
The arrays that are folded and scanned in the shared heap against the blocks that are computed. The array that the slabs
are folded into holds the computed block after every slab, and every running fold of a scan stays in the buffer it got
until it is stacked. Nothing is asked of the array but that its buffer is there, and of the cells but that they take
room: what faults along an axis faults in both ways.
-/
namespace Strided

variable {α β γ : Type}

theorem Capacity.le_of_reserve {width n : Nat} (h : reserve width n = .ok ()) : width*n ≤ maxBytes := by
  by_cases hn : width*n ≤ maxBytes
  · exact hn
  · rw [reserve,if_neg hn] at h
    cases h

theorem Snapshot.room_of_toList [Element α] (s : Snapshot α) :
    Ensures (fun xs => Element.width α*xs.length ≤ Capacity.maxBytes) s.toList :=
  ensures_bind fun w hw => (s.full_walk w hw).1.room_of_collect

namespace Block

variable [Element α]

/-- A filled block whose values one list has room for. -/
structure Fits (b : Block α) : Prop where
  filled : b.Filled
  room : Element.width α*b.data.length ≤ Capacity.maxBytes

theorem Fits.length_le {b : Block α} (hb : b.Fits) (hw : 0 < Element.width α) :
    (b.data.length : Int) ≤ Address.maxSigned := by
  have hle : b.data.length ≤ Capacity.maxBytes := Nat.le_trans (Nat.le_mul_of_pos_left _ hw) hb.room
  simp only [Capacity.maxBytes,Address.maxSigned] at hle ⊢
  omega

theorem fits_scalar (x : α) : (scalar x).Fits := by
  refine ⟨filled_scalar x,?_⟩
  have hw : Element.width α*1 ≤ 8127*1 := Nat.mul_le_mul_right 1 Element.width_le
  exact Nat.le_trans hw (by decide)

theorem ensures_fits_filled (dims : Shape) (x : α) : Ensures Fits (filled dims x) := by
  intro b hb
  have hf := ensures_filled dims x b hb
  obtain ⟨layout,-,hb⟩ := bind_eq_ok.1 hb
  obtain ⟨size,-,hb⟩ := bind_eq_ok.1 hb
  obtain ⟨⟨⟩,hr,hb⟩ := bind_eq_ok.1 hb
  obtain rfl := Except.ok.inj hb
  exact ⟨hf,by simpa using Capacity.le_of_reserve hr⟩

theorem ensures_fits_ofList (dims : Shape) {data : List α} (hd : Element.width α*data.length ≤ Capacity.maxBytes) :
    Ensures Fits (ofList dims data) := by
  intro b hb
  have hf := ensures_ofList dims data b hb
  obtain ⟨layout,-,hb⟩ := bind_eq_ok.1 hb
  obtain ⟨size,-,hb⟩ := bind_eq_ok.1 hb
  split at hb
  · obtain rfl := Except.ok.inj hb
    exact ⟨hf,hd⟩
  · cases hb

theorem ensures_fits_stackBlocks {itemDims : Shape} {items : List (Block α)} (h : ∀ b ∈ items, b.Fits) :
    Ensures Fits (stackBlocks itemDims items) := by
  intro b hb
  have hf := ensures_stackBlocks (fun b hb => (h b hb).filled) b hb
  refine ⟨hf,?_⟩
  rw [hf.2]
  unfold stackBlocks stack at hb
  split at hb
  · cases hb
  · obtain ⟨itemSize,hs,hb⟩ := bind_eq_ok.1 hb
    obtain ⟨total,ht,hb⟩ := bind_eq_ok.1 hb
    obtain ⟨⟨⟩,hr,hb⟩ := bind_eq_ok.1 hb
    obtain ⟨rows,-,hb⟩ := bind_eq_ok.1 hb
    obtain ⟨layout,hl,hb⟩ := bind_eq_ok.1 hb
    obtain rfl := Except.ok.inj hb
    have hvol : Shape.volume (items.length :: itemDims) = total := by
      rw [Address.eq_of_mulCount ht,Shape.size_eq_volume hs,Shape.volume]
    show Element.width α*layout.dims.volume ≤ _
    rw [Layout.dims_of_rowMajor hl,hvol]
    exact Capacity.le_of_reserve hr

end Block

namespace Snapshot

variable [Element α]

theorem ensures_fits_deepCopy (s : Snapshot α) : Ensures Block.Fits s.deepCopy := by
  intro b hb
  have hf := s.ensures_deepCopy b hb
  obtain ⟨data,hd,hb⟩ := bind_eq_ok.1 hb
  obtain ⟨layout,-,hb⟩ := bind_eq_ok.1 hb
  obtain rfl := Except.ok.inj hb
  exact ⟨hf,s.room_of_toList data hd⟩

theorem deepCopy_congr {v : View} {h h' : Heap α} (hs : v.SeesSame h h') :
    (Snapshot.mk h' v).deepCopy = (Snapshot.mk h v).deepCopy := by
  rw [deepCopy,deepCopy,toList,toList,hs.walk_eq]
  rfl

end Snapshot

namespace Heap

variable {h h' h'' : Heap α} {v : View} {b b' : Block α}

theorem Holds.extend (hh : h.Holds v b) (he : h.Extends h') : h'.Holds v b where
  buffer_lt := Nat.lt_of_lt_of_le hh.buffer_lt he.size_le
  layout_eq := hh.layout_eq
  offset_eq := hh.offset_eq
  cells_eq := (he.cells_eq v.buffer hh.buffer_lt).trans hh.cells_eq

variable [Element α]

theorem Holds.walk_eq_of_fits (hh : h.Holds v b) (hb : b.Fits) (hw : 0 < Element.width α) :
    (Snapshot.mk h v).walk = b.walk := hh.walk_eq hb.filled (hb.length_le hw)

/-- Besides what the first heap has the second one has a buffer with the block in it, which the view is of. -/
structure Adds (h h' : Heap α) (v : View) (b : Block α) : Prop extends h.Extends h' where
  size_le_buffer : h.buffers.size ≤ v.buffer
  holds : h'.Holds v b
  fits : b.Fits

theorem adds_place (hb : b.Fits) (h : Heap α) : h.Adds (h.place b).2 (h.place b).1 b where
  toExtends := h.extends_alloc b.data
  size_le_buffer := Nat.le_refl _
  holds := h.holds_place b
  fits := hb

theorem Extends.adds (he : h.Extends h') (ha : h'.Adds h'' v b) : h.Adds h'' v b where
  toExtends := he.trans ha.toExtends
  size_le_buffer := Nat.le_trans he.size_le ha.size_le_buffer
  holds := ha.holds
  fits := ha.fits

theorem Adds.overwritten (ha : h.Adds h' v b) (hs : h'.SameBut v.buffer h'') (hh : h''.Holds v b') (hb : b'.Fits) :
    h.Adds h'' v b' where
  toExtends := ha.toExtends.overwritten ha.size_le_buffer hs
  size_le_buffer := ha.size_le_buffer
  holds := hh
  fits := hb

def HoldsAll (h : Heap α) : List View → List (Block α) → Prop := List.Forall₂ fun v b => h.Holds v b ∧ b.Fits

theorem HoldsAll.cons {parts : List View} {blocks : List (Block α)} (hp : h.HoldsAll parts blocks) (ha : h.Adds h' v b) :
    h'.HoldsAll (v :: parts) (b :: blocks) :=
  List.Forall₂.cons ⟨ha.holds,ha.fits⟩ (hp.imp fun _ _ hb => ⟨hb.1.extend ha.toExtends,hb.2⟩)

theorem HoldsAll.fits {parts : List View} {blocks : List (Block α)} (hp : h.HoldsAll parts blocks) :
    ∀ b ∈ blocks, b.Fits := by
  induction hp with
  | nil => simp
  | cons hb _ ih => exact List.forall_mem_cons.2 ⟨hb.2,ih⟩

end Heap

namespace View

open Update

theorem walk_eq_of_extends {base h : Heap α} {v : View} (hv : v.buffer < base.buffers.size) (he : base.Extends h) :
    (Snapshot.mk h v).walk = (Snapshot.mk base v).walk :=
  (seesSame_of_cells_eq (he.cells_eq v.buffer hv)).walk_eq

theorem forall_slabs (v : View) : Steps.Forall (fun slab => slab.buffer = v.buffer) v.slabs.steps := by
  refine Steps.forall_unfold (fun s => s.source = v) (fun s slab t hs hn => ?_) _ rfl
  unfold Slabs.next? at hn
  split at hn
  · obtain ⟨w,hw,hn⟩ := bind_eq_ok.1 hn
    obtain ⟨rfl,rfl⟩ := Prod.mk.inj (Option.some.inj (Except.ok.inj hn))
    exact ⟨hs ▸ buffer_of_slabAt hw,hs⟩
  · cases hn

theorem perform_map (g : β → Update α Unit) (s : Steps β) :
    perform (s.map fun x => .ok (g x)) = Update.foldl (fun _ x => g x) () s := by
  induction s with
  | done => rfl
  | fault cause => rfl
  | next x rest ih =>
    funext h
    show perform (.next (g x) _) h = (g x >>= fun _ => Update.foldl (fun _ x => g x) () (rest ())) h
    rw [perform,bind_apply,ih]
    rcases g x h with ⟨_ | _,_⟩ <;> rfl

variable [Element α] {f : α → α → Result α} {base h : Heap α}

theorem follows_make {block : Heap α → Result (Block α)} {r : Result (Block α)} (hr : block h = r)
    (hb : Ensures Block.Fits r) : (make block).Follows h r h.Adds := by
  have hplace : (make block).Follows h (r >>= fun b => .ok b) h.Adds :=
    follows_look hr fun b hb' => ⟨_,_,rfl,Heap.adds_place (hb b hb') h⟩
  rwa [bind_ok] at hplace

theorem follows_assignEach (hw : 0 < Element.width α) {acc : View} {b : Block α} (hh : h.Holds acc b) (hb : b.Fits)
    {P : Heap α → Prop} (hp : ∀ h cell x, P h → P (h.put acc.buffer cell x)) (hh' : P h) {sources : Walk (Update α α)}
    {w : Walk α} (hl : sources.length = w.length) (hs : Streams P w.length sources.steps w.steps) :
    (acc.assignEach sources).Follows h (b.assign w) fun h' _ b' =>
      h.SameBut acc.buffer h' ∧ h'.Holds acc b' ∧ b'.Fits := by
  have hsize : acc.size = b.layout.size := congrArg Layout.size hh.layout_eq
  rw [assignEach,hsize,hl]
  refine follows_bind rfl fun n hn => ?_
  by_cases hlen : n = w.length
  · obtain rfl : n = b.data.length := (Shape.size_eq_volume hn).trans hb.filled.2.symm
    have hrow : Layout.rowMajor b.layout.dims = .ok b.layout := hb.filled.1
    obtain ⟨o,ho,hr,ha⟩ := Layout.answers_of_rowMajor hrow hn (hb.length_le hw)
    have hoff : acc.offsets = .ok o := by rw [View.offsets,hh.layout_eq,hh.offset_eq,ho]
    have hsteps : o.walk.steps = Steps.ofList (List.range' 0 w.length) := by
      rw [Offsets.walk,hr,Walk.unfold,Steps.unfold_eq_ofList ha (by simp),List.range_eq_range',hlen]
    have hcells : h.cells acc.buffer = (([] : List α).reverse++b.data).toArray := hh.cells_eq
    rw [if_neg (by simp [hlen]),if_pos hlen,hoff,ofResult_ok_bind,Walk.zipWith,hsteps,Walk.toList,Walk.foldl,bind_assoc]
    refine (hs.follows_perform hp hh' hcells hlen).map fun h' _ ys hr => ?_
    have hlength : ys.reverse.length = b.data.length := by
      have := hr.1.length_eq acc.buffer
      rw [Heap.length,Heap.length,hr.2,hh.cells_eq] at this
      simpa using this
    have hfits : Block.Fits { b with data := ys.reverse } :=
      ⟨⟨hb.filled.1,hlength.trans hb.filled.2⟩,by rw [hlength]; exact hb.room⟩
    exact ⟨hr.1,⟨hr.1.size_eq ▸ hh.buffer_lt,hh.layout_eq,hh.offset_eq,hr.2⟩,hfits⟩
  · rw [if_pos (Ne.symm hlen),if_neg hlen]
    exact follows_error _

/-- The array that the slabs are folded into holds the block that they are folded into, from the first slab on. -/
theorem follows_foldStart (hw : 0 < Element.width α) (identity : Option α) {first : View}
    (hb : first.buffer < h.buffers.size) (hc : h.cells first.buffer = base.cells first.buffer) :
    (foldStart identity f first).Follows h (Snapshot.foldStart base identity f first) h.Adds := by
  cases identity with
  | none =>
    exact follows_make (Snapshot.deepCopy_congr (seesSame_of_cells_eq hc)) (Snapshot.mk base first).ensures_fits_deepCopy
  | some e =>
    refine (follows_make rfl (Block.ensures_fits_filled first.dims e)).bind fun h1 acc b ha => ?_
    have hc1 : h1.cells first.buffer = base.cells first.buffer := (ha.cells_eq _ hb).trans hc
    have hne : first.buffer ≠ acc.buffer := Nat.ne_of_lt (Nat.lt_of_lt_of_le hb ha.size_le_buffer)
    have hsame : first.SeesSame base h1 := seesSame_of_cells_eq hc1
    rw [← hsame.walk_eq]
    obtain ⟨cause,hr,hwalk⟩ | ⟨sources,w,hr,hwalk,hl,hs⟩ := reads_cases first (f e) h1
    · rw [hr,hwalk]
      exact follows_error cause
    · rw [hr,hwalk,ofResult_ok_bind,ok_bind,← bind_ok (b.assign _)]
      have hput (h' : Heap α) (cell : Nat) (x : α) (hp : h'.cells first.buffer = h1.cells first.buffer) :
          (h'.put acc.buffer cell x).cells first.buffer = h1.cells first.buffer :=
        ((h'.sameBut_put acc.buffer cell x).cells_eq _ hne).trans hp
      have hassign := follows_assignEach hw ha.holds ha.fits hput rfl (w := w.map (f e)) hl hs
      exact hassign.bind fun h2 _ b' hr => follows_ok (ha.overwritten hr.1 hr.2.1 hr.2.2)

theorem follows_foldPart (hw : 0 < Element.width α) {acc slab : View} {b : Block α} (hh : h.Holds acc b) (hb : b.Fits)
    (hc : h.cells slab.buffer = base.cells slab.buffer) :
    (foldPart f acc slab).Follows h (Snapshot.foldPart base f b slab) fun h' _ b' =>
      h.SameBut acc.buffer h' ∧ h'.Holds acc b' ∧ b'.Fits := by
  have hwalks : (do
      let left ← (Snapshot.mk h acc).walk
      let right ← (Snapshot.mk h slab).walk
      (Walk.zipWith f left right).collect) = (do
      let left ← b.walk
      let right ← (Snapshot.mk base slab).walk
      (Walk.zipWith f left right).collect) := by
    rw [hh.walk_eq_of_fits hb hw,(seesSame_of_cells_eq hc).walk_eq]
  have hpart : Snapshot.foldPart base f b slab = (do
      let folded ← (do
        let left ← b.walk
        let right ← (Snapshot.mk base slab).walk
        (Walk.zipWith f left right).collect)
      b.assign (Walk.ofList folded)) := by
    rw [Snapshot.foldPart,bind_assoc]
    simp only [bind_assoc]
  rw [foldPart,hpart]
  refine follows_look hwalks fun folded _ => ?_
  exact follows_assignEach hw hh hb (P := fun _ => True) (fun _ _ _ _ => trivial) trivial rfl (streams_yields _ folded)

/-- All further slabs are folded into the array as they are folded into the block. The array is in a buffer of its own, so
every slab is as it was before the first of them was folded in. -/
theorem follows_foldRest (hw : 0 < Element.width α) {acc : View} {b : Block α} (hh : h.Holds acc b) (hb : b.Fits)
    {buffer : Nat} (hne : buffer ≠ acc.buffer) (hc : h.cells buffer = base.cells buffer) {slabs : Steps View}
    (hs : Steps.Forall (fun slab => slab.buffer = buffer) slabs) :
    Follows (perform (slabs.map fun slab => .ok (foldPart f acc slab))) h (slabs.foldl (Snapshot.foldPart base f) b)
      fun h' _ b' => h.SameBut acc.buffer h' ∧ h'.Holds acc b' ∧ b'.Fits := by
  rw [perform_map]
  refine follows_foldl (R := fun h' _ b' => h.SameBut acc.buffer h' ∧ h'.Holds acc b' ∧ b'.Fits) hs ?_
    ⟨Heap.SameBut.refl acc.buffer h,hh,hb⟩
  rintro h1 - b1 slab rfl ⟨hsame,hh1,hb1⟩
  have hc1 : h1.cells slab.buffer = base.cells slab.buffer := (hsame.cells_eq _ hne).trans hc
  exact (follows_foldPart hw hh1 hb1 hc1).mono fun h2 _ b2 hr => ⟨hsame.trans hr.1,hr.2⟩

theorem follows_stackShaped (hw : 0 < Element.width α) (itemDims : Shape) (he : base.Extends h) {parts : List View}
    {blocks : List (Block α)} (hp : h.HoldsAll parts blocks) :
    (stackShaped itemDims parts).Follows h (Block.stackBlocks itemDims blocks) base.Adds := by
  have hitems : List.Forall₂ (fun v b => v.dims = b.dims ∧ (Snapshot.mk h v).walk = b.walk) parts blocks :=
    hp.imp fun _ _ hb => ⟨hb.1.dims_eq,hb.1.walk_eq_of_fits hb.2 hw⟩
  have hstack := Block.stack_eq_of_forall₂ itemDims hitems
  exact (follows_make hstack (Block.ensures_fits_stackBlocks hp.fits)).mono fun h' w b ha => he.adds ha

/-- What is made of the slabs stays where it is while more is made. -/
theorem follows_each {P : β → Prop} {work : β → Update α View} {block : β → Result (Block α)} {w : Walk β}
    (hs : Steps.Forall P w.steps) (hf : ∀ h', h.Extends h' → ∀ x, P x → (work x).Follows h' (block x) h'.Adds) :
    (each work w.steps).Follows h (w.map block).toList fun h' parts blocks =>
      h.Extends h' ∧ h'.HoldsAll parts blocks := by
  have hmap : (w.map block).toList = (do
      let reversed ← w.steps.foldl (fun bs x => do
        let b ← block x
        .ok (b :: bs)) []
      .ok reversed.reverse) := by
    rw [Walk.toList,Walk.foldl,Walk.map,Steps.foldl_map]
  rw [each,hmap]
  have hstep (h1 : Heap α) (parts : List View) (blocks : List (Block α)) (x : β) (hx : P x)
      (hr : h.Extends h1 ∧ h1.HoldsAll parts blocks) :
      Follows (work x >>= fun v => ofResult (.ok (v :: parts))) h1 (block x >>= fun b => .ok (b :: blocks))
        fun h2 parts blocks => h.Extends h2 ∧ h2.HoldsAll parts blocks :=
    (hf h1 hr.1 x hx).bind fun h2 v b ha =>
      follows_ok ⟨hr.1.trans ha.toExtends,hr.2.cons ha⟩
  exact (follows_foldl hs hstep ⟨Heap.Extends.refl h,.nil⟩).bind fun h1 parts blocks hr =>
    follows_ok ⟨hr.1,List.forall₂_reverse_iff.2 hr.2⟩

theorem follows_foldSlabs (hw : 0 < Element.width α) (operation : String) (identity : Option α) (axis : Nat) {v : View}
    (hv : v.buffer < base.buffers.size) (he : base.Extends h) :
    (foldSlabs operation identity f axis v).Follows h (Snapshot.foldSlabs base operation identity f axis v) h.Adds := by
  induction axis generalizing v h with
  | zero =>
    rw [foldSlabs.eq_def,Snapshot.foldSlabs.eq_def]
    simp only
    by_cases h1 : v.rank = 1
    · simp only [h1,↓reduceIte]
      refine follows_make (by rw [walk_eq_of_extends hv he]) ?_
      exact ensures_bind fun _ _ => ensures_bind fun x _ => ensures_ok (Block.fits_scalar x)
    · simp only [h1,↓reduceIte]
      have hslabs := v.forall_slabs
      cases hsteps : v.slabs.steps with
      | done =>
        cases identity with
        | none => exact follows_error _
        | some e => exact follows_make rfl (Block.ensures_fits_filled _ e)
      | fault cause => exact follows_error cause
      | next first rest =>
        rw [hsteps] at hslabs
        have hfirst : first.buffer < base.buffers.size := hslabs.1 ▸ hv
        refine (follows_foldStart hw identity (Nat.lt_of_lt_of_le hfirst he.size_le)
          (he.cells_eq _ hfirst)).bind fun h1 acc b ha => ?_
        have hvh : v.buffer < h.buffers.size := Nat.lt_of_lt_of_le hv he.size_le
        have hne : v.buffer ≠ acc.buffer := Nat.ne_of_lt (Nat.lt_of_lt_of_le hvh ha.size_le_buffer)
        have hc : h1.cells v.buffer = base.cells v.buffer := (he.trans ha.toExtends).cells_eq _ hv
        rw [← bind_ok ((rest ()).foldl _ _)]
        exact (follows_foldRest hw ha.holds ha.fits hne hc hslabs.2).bind fun h2 _ b' hr =>
          follows_ok (ha.overwritten hr.1 hr.2.1 hr.2.2)
  | succ axis ih =>
    rw [foldSlabs,Snapshot.foldSlabs]
    refine (follows_each v.forall_slabs fun h1 h1e slab hs => ih (hs ▸ hv) (he.trans h1e)).bind ?_
    exact fun h1 parts blocks hr => follows_stackShaped hw _ hr.1 hr.2

theorem follows_foldAlong (hw : 0 < Element.width α) (operation : String) (identity : Option α) (axis : Nat) {v : View}
    (hv : v.buffer < h.buffers.size) :
    (v.foldAlong operation identity f axis).Follows h ((Snapshot.mk h v).foldAlong operation identity f axis) h.Adds := by
  have hd : (Snapshot.mk h v).dims = v.dims := rfl
  rw [foldAlong,Snapshot.foldAlong,hd]
  cases v.dims[axis]? with
  | none => exact follows_error _
  | some extent =>
    by_cases he : (identity.isNone && extent == 0) = true
    · simp only [he,↓reduceIte]
      exact follows_error _
    · simp only [he,Bool.false_eq_true,↓reduceIte]
      exact follows_foldSlabs hw operation identity axis hv (Heap.Extends.refl h)

theorem follows_scanNext (hw : 0 < Element.width α) (itemDims : Shape) {parts : List View} {blocks : List (Block α)}
    (hp : h.HoldsAll parts blocks) {slab : View} (hc : h.cells slab.buffer = base.cells slab.buffer) :
    (scanNext itemDims f parts slab).Follows h (Snapshot.scanNext base itemDims f blocks slab) h.Adds := by
  have hslab : slab.SeesSame base h := seesSame_of_cells_eq hc
  cases hp with
  | nil => exact follows_make (Snapshot.deepCopy_congr hslab) (Snapshot.mk base slab).ensures_fits_deepCopy
  | @cons previous b parts blocks hb _ =>
    refine follows_make (by rw [hb.1.walk_eq_of_fits hb.2 hw,hslab.walk_eq]; rfl) ?_
    refine ensures_bind fun left hl => ensures_bind fun right hr => ensures_bind fun data hd => ?_
    obtain ⟨_,-,hl⟩ := bind_eq_ok.1 hl
    obtain rfl := Except.ok.inj hl
    have hfull := (Walk.full_ofList b.data).zipWith ((Snapshot.mk base slab).full_walk right hr).1 f
    exact Block.ensures_fits_ofList itemDims (hfull.room_of_collect data hd)

theorem ensures_fits_scan (f : α → α → Result α) {s : Snapshot α} : Ensures Block.Fits (do
    let w ← s.walk
    let data ← w.scan f
    .ok (Block.ofVector data)) := by
  refine ensures_bind fun w hw => ensures_bind fun data hd => ensures_ok ⟨Block.filled_ofVector data,?_⟩
  obtain ⟨⟨⟩,hr,hd⟩ := bind_eq_ok.1 hd
  obtain ⟨folds,hfolds,hd⟩ := bind_eq_ok.1 hd
  obtain rfl := Except.ok.inj hd
  have hstep (folds : List α) (x : α) : Ensures (fun ys => ys.length = folds.length+1) (Walk.scanStep f folds x) := by
    cases folds with
    | nil => exact ensures_ok rfl
    | cons previous folds => exact ensures_bind fun _ _ => ensures_ok rfl
  have hlength := (s.full_walk w hw).1.length_foldl hstep [] folds hfolds
  have hroom := Walk.room_eq_ok_iff.1 hr
  simpa [Block.ofVector,hlength] using hroom

theorem follows_scanSlabs (hw : 0 < Element.width α) (axis : Nat) {v : View} (hv : v.buffer < base.buffers.size)
    (he : base.Extends h) : (scanSlabs f axis v).Follows h (Snapshot.scanSlabs base f axis v) h.Adds := by
  induction axis generalizing v h with
  | zero =>
    rw [scanSlabs.eq_def,Snapshot.scanSlabs.eq_def]
    simp only
    by_cases h1 : v.rank = 1
    · simp only [h1,↓reduceIte]
      exact follows_make (by rw [walk_eq_of_extends hv he]) (ensures_fits_scan f)
    · simp only [h1,↓reduceIte]
      refine follows_bind rfl fun _ _ => ?_
      have hstep (h1 : Heap α) (parts : List View) (blocks : List (Block α)) (slab : View) (hs : slab.buffer = v.buffer)
          (hr : h.Extends h1 ∧ h1.HoldsAll parts blocks) :
          (scanPart (v.dims.drop 1) f parts slab).Follows h1 (Snapshot.scanPart base (v.dims.drop 1) f blocks slab)
            fun h2 parts blocks => h.Extends h2 ∧ h2.HoldsAll parts blocks := by
        have hc : h1.cells slab.buffer = base.cells slab.buffer := (he.trans hr.1).cells_eq _ (hs ▸ hv)
        exact (follows_scanNext hw _ hr.2 hc).bind fun h2 next b ha =>
          follows_ok ⟨hr.1.trans ha.toExtends,hr.2.cons ha⟩
      refine (follows_foldl v.forall_slabs hstep ⟨Heap.Extends.refl h,.nil⟩).bind fun h1 parts blocks hr => ?_
      exact follows_stackShaped hw _ hr.1 (List.forall₂_reverse_iff.2 hr.2)
  | succ axis ih =>
    rw [scanSlabs,Snapshot.scanSlabs]
    refine (follows_each v.forall_slabs fun h1 h1e slab hs => ih (hs ▸ hv) (he.trans h1e)).bind ?_
    exact fun h1 parts blocks hr => follows_stackShaped hw _ hr.1 hr.2

theorem follows_scanAxis (hw : 0 < Element.width α) (axis : Nat) {v : View} (hv : v.buffer < h.buffers.size) :
    (v.scanAxis f axis).Follows h ((Snapshot.mk h v).scanAxis f axis) h.Adds := by
  have hr : (Snapshot.mk h v).rank = v.rank := rfl
  rw [scanAxis,Snapshot.scanAxis,hr]
  by_cases ha : axis < v.rank
  · simp only [ha,↓reduceIte]
    exact follows_scanSlabs hw axis hv (Heap.Extends.refl h)
  · simp only [ha,↓reduceIte]
    exact follows_error _

end View

end Strided
