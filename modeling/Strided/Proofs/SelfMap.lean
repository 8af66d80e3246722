import Strided.Proofs.InPlace
import Strided.Proofs.Placed

set_option autoImplicit false

namespace Strided

variable {α β ι : Type}

namespace Heap

theorem lt_size_of_lt_length {h : Heap α} {buffer cell : Nat} (hl : cell < h.length buffer) :
    buffer < h.buffers.size := by
  by_cases hb : buffer < h.buffers.size
  · exact hb
  · simp [length,cells,hb] at hl

theorem put_alloc {h : Heap α} {buffer cell : Nat} (hl : cell < h.length buffer) (x : α) (xs : List α) :
    (h.alloc xs).2.put buffer cell x = ((h.put buffer cell x).alloc xs).2 := by
  have hb := lt_size_of_lt_length hl
  refine congrArg Heap.mk (Array.ext_getElem? fun b => ?_)
  simp only [alloc,put,Array.getElem?_modify,Array.getElem?_push,Array.size_modify]
  by_cases hs : b = h.buffers.size
  · simp [hs,show buffer ≠ h.buffers.size by omega]
  · simp [hs]

theorem putEach_alloc {h : Heap α} {buffer : Nat} {cell : ι → Nat} {places : List ι}
    (hl : ∀ i ∈ places, cell i < h.length buffer) (x : ι → α) (xs : List α) :
    (h.alloc xs).2.putEach buffer cell x places = ((h.putEach buffer cell x places).alloc xs).2 := by
  induction places generalizing h with
  | nil => rfl
  | cons i places ih =>
    have hrest : ∀ j ∈ places, cell j < (h.put buffer (cell i) (x i)).length buffer := fun j hj => by
      rw [length_put]
      exact hl j (by simp [hj])
    rw [putEach_cons,putEach_cons,put_alloc (hl i (by simp)),ih hrest]

theorem alloc_inj {h h' : Heap α} {xs : List α} : (h.alloc xs).2 = (h'.alloc xs).2 ↔ h = h' := by
  cases h
  cases h'
  simp [alloc,Array.push_eq_push]

end Heap

namespace Snapshot

theorem Sound.deepCopy_get [Element α] {s : Snapshot α} (hs : s.Sound) (h : Heap α) :
    ∃ b, s.deepCopy = .ok b ∧ (h.place b).1.dims = s.dims ∧ (Snapshot.mk (h.place b).2 (h.place b).1).Sound ∧
      ∀ index, s.dims.Contains index → (Snapshot.mk (h.place b).2 (h.place b).1).get index = s.get index := by
  obtain ⟨b,hb⟩ := hs.deepCopy.exists_ok fun index _ => ⟨_,rfl⟩
  have ht := hs.deepCopy
  rw [hb] at ht
  refine ⟨b,hb,ht.dims_eq,ht.sound_placed hs.span_le h,fun index hi => ?_⟩
  exact (get_placed h b index).trans (by rw [ht.get_eq hs.span_le hi,hs.get_eq hi])

end Snapshot

namespace View

def sharers (v : View) (index : List Nat) : Nat := v.dims.indices.countP fun j => v.address j == v.address index

variable {h : Heap α} {dest source : View}

theorem WellFormed.mono {m n : Nat} (hd : dest.WellFormed m) (hmn : m ≤ n) : dest.WellFormed n :=
  ⟨hd.offset_le,hd.span_le,hd.travel_le,hd.inside.mono hmn⟩

section Element

variable [Element α]

theorem WellFormed.count_cell {length : Nat} (hd : dest.WellFormed length) {index : List Nat}
    (hi : dest.dims.Contains index) :
    (dest.dims.indices.map dest.cell).count (dest.cell index) = dest.sharers index := by
  have hshare : ∀ j ∈ dest.dims.indices,
      (dest.cell j == dest.cell index) = true ↔ (dest.address j == dest.address index) = true := by
    intro j hj
    rw [beq_iff_eq,beq_iff_eq,← hd.cell_eq (Shape.mem_indices.1 hj),← hd.cell_eq hi,Int.ofNat_inj]
  rw [sharers,← List.countP_congr hshare,List.count_eq_countP,List.countP_map]
  rfl

/-- The heap after a view is mapped onto itself is the one with all values computed first exactly if for each index
going through `f` once for each index of its cell comes to the same as going through it once. -/
theorem WellFormed.mapInto_self_eq_iff (hd : dest.WellFormed (h.length dest.buffer)) (f : α → α) :
    (mapInto (fun x => .ok (f x)) dest dest h).2 =
        h.storeAll dest (fun index => f ((Snapshot.mk h dest).valueAt index)) ↔
      ∀ index, dest.dims.Contains index → ∀ x, (Snapshot.mk h dest).get index = .ok x →
        f^[dest.sharers index] x = f x := by
  have hs : (Snapshot.mk h dest).Sound := hd.sound
  have hv (index : List Nat) : (Snapshot.mk h dest).valueAt index = h.valueIn dest.buffer (dest.cell index) := rfl
  simp only [hd.mapInto_self f,← hd.putEach_cell,hv]
  refine (Heap.mapEach_eq_putEach_iff hd.sound.cells_lt).trans ⟨fun hf index hi x hx => ?_,fun hf index hi => ?_⟩
  · rw [hs.get_eq hi,hv] at hx
    obtain rfl := Except.ok.inj hx
    rw [← hd.count_cell hi]
    exact hf index (Shape.mem_indices.2 hi)
  · have hi := Shape.mem_indices.1 hi
    have hx := hs.get_eq hi
    rw [hv] at hx
    rw [hd.count_cell hi]
    exact hf index hi _ hx

/-- Mapping from a copy in a new buffer stores what the array had, whatever the array shares with the destination. -/
theorem mapInto_place_eq {f : α → α} {b : Block α} (hd : dest.WellFormed (h.length dest.buffer))
    (hs : (Snapshot.mk h source).Sound) (he : dest.dims = source.dims) (hbd : (h.place b).1.dims = source.dims)
    (hbs : (Snapshot.mk (h.place b).2 (h.place b).1).Sound)
    (hget : ∀ index, source.dims.Contains index →
      (Snapshot.mk (h.place b).2 (h.place b).1).get index = (Snapshot.mk h source).get index) :
    mapInto (fun x => .ok (f x)) dest (h.place b).1 (h.place b).2 =
      (.ok (),((h.storeAll dest fun index => f ((Snapshot.mk h source).valueAt index)).place b).2) := by
  have hin {index : List Nat} (hi : dest.dims.Contains index) : source.dims.Contains index := he ▸ hi
  have hd' : dest.WellFormed ((h.place b).2.length dest.buffer) := hd.mono (h.length_le_alloc b.data dest.buffer)
  have heb : dest.dims = (h.place b).1.dims := he.trans hbd.symm
  -- Only a view without elements can be of the new buffer before it is there.
  have hcopy : dest.Stores (h.place b).2 (fun index => do
      .ok (f (← (Snapshot.mk (h.place b).2 (h.place b).1).get index)))
      (mapInto (fun x => .ok (f x)) dest (h.place b).1) := by
    by_cases hne : dest = (h.place b).1
    · have hb : dest.buffer = h.buffers.size := by rw [hne]; rfl
      have hbs' : ((Operand.here (h.place b).1).snapshot (h.place b).2).Sound := hbs
      have hu : dest.Distinct := fun i _ hi _ _ => absurd (Heap.lt_size_of_lt_length (hd.sound.cell_lt hi)) (by omega)
      have hstores := mapInto_stores_of_distinct (f := f) hd' hbs' heb hu
      exact hstores
    · exact mapInto_here_stores hd' hbs heb hne
  rw [hcopy.eq_of fun index hi => by rw [hget index (hin hi),hs.get_eq (hin hi),ok_bind]]
  refine congrArg _ (Heap.putEach_alloc (fun index hi => ?_) _ b.data)
  have hi := Shape.mem_indices.1 hi
  have hcell := hd.cell_eq hi
  have hlt := hd.sound.cell_lt hi
  omega

/-- Mapping from an array leaves the heap as mapping from a copy of it does, up to the buffer of the copy. Only where
the array is the destination itself is there a condition: for each index, going through `f` as often as indices share
its cell must come to the same as going through it once. -/
theorem mapInto_deepCopy [Element β] {other : Snapshot β} {f : α → α} {k : β → α}
    (hd : dest.WellFormed (h.length dest.buffer)) (hs : (Snapshot.mk h source).WellFormed)
    (he : dest.dims = source.dims) (ho : other.WellFormed) (heo : dest.dims = other.dims) :
    (∃ b, (Snapshot.mk h source).deepCopy = .ok b ∧
      (mapInto (fun x => .ok (f x)) dest source h).1 = .ok () ∧
      (mapInto (fun x => .ok (f x)) dest (h.place b).1 (h.place b).2).1 = .ok () ∧
      (((mapInto (fun x => .ok (f x)) dest source h).2.place b).2 =
          (mapInto (fun x => .ok (f x)) dest (h.place b).1 (h.place b).2).2 ↔
        (dest = source → ∀ index, dest.dims.Contains index → ∀ x, (Snapshot.mk h dest).get index = .ok x →
          f^[dest.sharers index] x = f x))) ∧
    ∃ b, other.deepCopy = .ok b ∧ (mapInto (fun x => .ok (k x)) dest other h).1 = .ok () ∧
      mapInto (fun x => .ok (k x)) dest other h =
        mapInto (fun x => .ok (k x)) dest (Snapshot.mk (other.heap.place b).2 (other.heap.place b).1) h := by
  constructor
  · obtain ⟨b,hb,hbd,hbs,hget⟩ := hs.sound.deepCopy_get h
    have hcopy := mapInto_place_eq (f := f) hd hs.sound he hbd hbs hget
    refine ⟨b,hb,?_⟩
    rw [hcopy]
    by_cases hne : dest = source
    · subst hne
      refine ⟨by rw [hd.mapInto_self f],rfl,?_⟩
      simp only [forall_const]
      exact Heap.alloc_inj.trans (hd.mapInto_self_eq_iff f)
    · have hin {index : List Nat} (hi : dest.dims.Contains index) : source.dims.Contains index := he ▸ hi
      have hstores := mapInto_here_stores (f := f) hd hs.sound he hne
      have hsame := hstores.eq_of fun index hi => by rw [hs.sound.get_eq (hin hi),ok_bind]
      exact ⟨hstores.ok,rfl,fun _ he => absurd he hne,fun _ => by rw [hsame]⟩
  · obtain ⟨b,hb,hbd,hbs,hget⟩ := ho.sound.deepCopy_get other.heap
    have hin {index : List Nat} (hi : dest.dims.Contains index) : other.dims.Contains index := heo ▸ hi
    have hstores := mapInto_elsewhere_stores (f := k) hd ho.sound heo
    have hcopy := mapInto_elsewhere_stores (f := k) hd hbs (heo.trans hbd.symm)
    refine ⟨b,hb,hstores.ok,?_⟩
    rw [hstores.eq_of fun index hi => by rw [ho.sound.get_eq (hin hi),ok_bind],
      hcopy.eq_of fun index hi => by rw [hget index (hin hi),ho.sound.get_eq (hin hi),ok_bind]]

end Element

theorem upper_mapInto_deepCopy :
    ∃ b, (Snapshot.mk Snapshot.zigzag.heap lower).deepCopy = .ok b ∧
      ((mapInto (fun x => .ok (Word.wrappingNeg x)) upper lower Snapshot.zigzag.heap).2.place b).2 =
        (mapInto (fun x => .ok (Word.wrappingNeg x)) upper (Snapshot.zigzag.heap.place b).1
          (Snapshot.zigzag.heap.place b).2).2 := by
  have hd : upper.WellFormed (Snapshot.zigzag.heap.length upper.buffer) := by decide
  have hs : (Snapshot.mk Snapshot.zigzag.heap lower).WellFormed := by decide
  obtain ⟨⟨b,hb,-,-,hsame⟩,-⟩ := mapInto_deepCopy (f := Word.wrappingNeg) (k := id) hd hs rfl hs rfl
  exact ⟨b,hb,hsame.2 fun he => absurd he (by decide)⟩

def doubled : Snapshot (Word ⟨true,.w8⟩) where
  heap := ⟨#[#[Word.ofInt _ 1]]⟩
  view := { buffer := 0, layout := ⟨[⟨2,0⟩]⟩, offset := 0 }

/-- Negated in place once for each of the two, the value is what it was; negated from a copy it is not. -/
theorem doubled_mapInto_deepCopy :
    doubled.WellFormed ∧
      (mapInto (fun x => .ok (Word.wrappingNeg x)) doubled.view doubled.view doubled.heap).2.cells 0 = #[Word.ofInt _ 1] ∧
      ∃ b, doubled.deepCopy = .ok b ∧
        (mapInto (fun x => .ok (Word.wrappingNeg x)) doubled.view (doubled.heap.place b).1
          (doubled.heap.place b).2).2.cells 0 = #[Word.ofInt _ (-1)] :=
  ⟨by decide,by decide,{ layout := ⟨[⟨2,1⟩]⟩, data := [Word.ofInt _ 1,Word.ofInt _ 1] },rfl,by decide⟩

end View

end Strided
