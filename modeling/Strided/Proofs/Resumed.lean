import Strided.Proofs.IndexedWalk
import Strided.Session.Query

set_option autoImplicit false

namespace Strided

open Steps (Answers)
open Session (Attempt Event cellEvents elementEvents)

theorem Walk.collectWide_unfold {σ α : Type} {next? : σ → Result (Option (α × σ))} {xs : List α} {s : σ}
    (h : Answers next? xs s) {n : Nat} (hn : xs.length = n) (hle : n ≤ 2^50) :
    (Walk.unfold next? n s).toList = .ok xs ∧ (Walk.unfold next? n s).collectWide Session.listedWidth = .ok xs := by
  have hroom : Session.listedWidth*n ≤ Capacity.maxBytes :=
    Nat.le_trans (Nat.mul_le_mul_left _ hle) (by decide)
  rw [← hn] at hroom ⊢
  rw [Walk.unfold_eq_ofList h,Walk.collectWide,Walk.room,Walk.length_ofList,if_pos hroom,ok_bind]
  exact ⟨Walk.toList_ofList xs,Walk.toList_ofList xs⟩

/-- A walk over the cells of a view of `n` elements after `k` of them: `cells` are still to come, from the index of rank
`k` on. What is listed of it is listed from a copy, so it answers afterwards as if nobody had asked. -/
structure Offsets.Left (v : View) (n k : Nat) (cells : List Nat) (o : Offsets) : Prop where
  remaining : o.remaining = n-k
  index : k < n → v.dims.indices[k]? = some o.currentIndex
  answers : Answers Offsets.next? cells o
  toList : o.toList = .ok cells
  rest (α : Type) (actions : List Session.Action) : cellEvents (.rest :: actions) o = (do
    let events ← cellEvents actions o
    .ok (.cells cells :: events) : Attempt (List (Event α)))

/-- A walk over the values of an array of `n` elements after `k` of them: `xs` are still to come, and taken with their
indices they are `pairs`. -/
structure Elements.Left {α : Type} [Element α] (s : Snapshot α) (n k : Nat) (xs : List α) (pairs : List (List Nat × α))
    (e : Elements) : Prop where
  length : e.length = n-k
  index : k < n → s.dims.indices[k]? = some e.offsets.currentIndex
  answers : Answers (Elements.next? · s.heap) xs e
  toList : (e.walk s.heap).toList = .ok xs
  rest (actions : List Session.Action) : elementEvents s.heap (.rest :: actions) e = (do
    let events ← elementEvents s.heap actions e
    .ok (.elements xs :: events) : Attempt (List (Event α)))
  answersIndexed : Answers (Elements.nextIndexed? · s.heap) pairs e
  indexed : e.indexed s.heap = .ok pairs

theorem Offsets.Stands.left {v : View} {length : Nat} {o : Offsets} {k : Nat} (hv : v.Sound length)
    (h : Offsets.Stands v o k) : Offsets.Left v v.dims.volume k ((v.dims.indices.map v.cell).drop k) o := by
  have hm := h.remaining
  have ha := h.answers hv id (fun _ ho => ho) fun _ _ _ _ _ ht => ht
  have hle := Nat.le_trans v.dims.volume_le_span hv.span_le
  rw [List.map_drop] at ha
  have hl : ((v.dims.indices.map v.cell).drop k).length = o.remaining := by simp; omega
  obtain ⟨hlist,hwide⟩ := Walk.collectWide_unfold ha hl (by omega)
  refine ⟨by omega,fun hk => ?_,ha,hlist,fun α actions => ?_⟩
  · obtain ⟨index,-,hi⟩ := Shape.exists_getElem?_indices hk
    rw [(h.next?_eq hv hi).1,hi]
  · have hr : o.walk.collectWide Session.listedWidth = .ok ((v.dims.indices.map v.cell).drop k) := hwide
    rw [cellEvents,hr]
    rfl

namespace Snapshot

variable {α : Type} [Element α] {s : Snapshot α} {o : Offsets} {r : Nat}

theorem Sound.left_of_stands (hs : s.Sound) (h : Offsets.Stands s.view o r) :
    Elements.Left s s.dims.volume r (s.values.drop r) ((s.dims.indices.zip s.values).drop r)
      { buffer := s.view.buffer, offsets := o } := by
  have hm := h.remaining
  have ha : Answers (Elements.next? · s.heap) ((s.dims.indices.drop r).map s.valueAt) (Elements.mk s.view.buffer o) :=
    h.answers hs (Elements.mk s.view.buffer) (fun o ho => by simp [Elements.next?,ho]) fun _ _ _ hi _ ht =>
      Elements.next?_eq ht (hs.near.read_eq hi)
  have hle := Nat.le_trans s.dims.volume_le_span hs.span_le
  have hzip : (s.dims.indices.drop r).map (fun index => (index,s.valueAt index)) =
      (s.dims.indices.zip s.values).drop r := by
    rw [List.map_drop,List.map_prod_left_eq_zip]
    rfl
  rw [List.map_drop] at ha
  have hl : (s.values.drop r).length = o.remaining := by simp [dims]; omega
  obtain ⟨hlist,hwide⟩ := Walk.collectWide_unfold ha hl (by simp only [dims] at hle; omega)
  refine ⟨?_,(h.left hs).index,ha,hlist,fun actions => ?_,?_,?_⟩
  · simp only [Elements.length,dims]
    omega
  · have hr : (Elements.walk { buffer := s.view.buffer, offsets := o } s.heap).collectWide Session.listedWidth =
        .ok (s.values.drop r) := hwide
    rw [elementEvents,hr]
    rfl
  · rw [← hzip]
    exact hs.answers_of_stands h
  · rw [← hzip]
    exact Sound.indexed_of_stands hs h

theorem Sound.skip_of_stands (hs : s.Sound) (h : Offsets.Stands s.view o r) {n : Nat} (hn : r+n ≤ s.dims.volume) :
    ∃ t, o.skip n = .ok t ∧
      Elements.skip s.heap n { buffer := s.view.buffer, offsets := o } = .ok { buffer := s.view.buffer, offsets := t } ∧
      Offsets.Stands s.view t (r+n) := by
  induction n generalizing o r with
  | zero => exact ⟨o,rfl,rfl,h⟩
  | succ n ih =>
    obtain ⟨index,hin,hi⟩ : ∃ index, s.view.dims.Contains index ∧ s.view.dims.indices[r]? = some index :=
      Shape.exists_getElem?_indices (by simp only [dims] at hn; omega)
    obtain ⟨-,u,hu,hnext⟩ := h.next?_eq hs hi
    obtain ⟨t,ht,het,hstands⟩ := ih hnext (by omega)
    have heu := Elements.next?_eq hu (hs.near.read_eq hin)
    rw [Nat.add_assoc,Nat.add_comm 1 n] at hstands
    refine ⟨t,?_,?_,hstands⟩
    · rw [Offsets.skip,hu,ok_bind]
      exact ht
    · rw [Elements.skip,heu,ok_bind]
      exact het

/-- After `k` elements of `n`, both walks of a well-formed array have the cells and the values of the ranks from `k` on
left, wherever they are asked from: one by one, from a copy, or with their indices. -/
theorem WellFormed.resumed (h : s.WellFormed) :
    ∃ (n : Nat) (cells : List Nat) (xs : List α) (o : Offsets) (e : Elements), s.view.size = .ok n ∧
      cells.map Int.ofNat = s.dims.indices.map s.view.address ∧ s.dims.indices.mapM s.get = .ok xs ∧
      s.view.offsets = .ok o ∧ s.elements = .ok e ∧
      ∀ k ≤ n, (∃ t, o.skip k = .ok t ∧ t.Left s.view n k (cells.drop k)) ∧
        ∃ t, e.skip s.heap k = .ok t ∧ t.Left s n k (xs.drop k) ((s.dims.indices.zip xs).drop k) := by
  have hs : s.Sound := View.WellFormed.sound h
  obtain ⟨o,ho,hstands⟩ := View.Sound.exists_stands hs
  refine ⟨s.dims.volume,s.dims.indices.map s.view.cell,s.values,o,_,hs.size_eq,?_,hs.mapM_get,ho,
    by rw [elements,ho,ok_bind],fun k hk => ?_⟩
  · rw [List.map_map]
    exact List.map_congr_left fun index hi => View.WellFormed.cell_eq h (Shape.mem_indices.1 hi)
  · obtain ⟨t,ht,het,hstands⟩ := hs.skip_of_stands hstands (n := k) (by omega)
    rw [Nat.zero_add] at hstands
    exact ⟨⟨t,ht,hstands.left hs⟩,_,het,hs.left_of_stands hstands⟩

theorem zigzag_resumed : zigzag.WellFormed ∧ 4 ≤ 6 ∧
    (∃ o t, zigzag.view.offsets = .ok o ∧ o.skip 4 = .ok t ∧ t.remaining = 2 ∧ t.currentIndex = [1,1] ∧
      t.toList = .ok [3,1]) ∧
    ∃ e t, zigzag.elements = .ok e ∧ e.skip zigzag.heap 4 = .ok t ∧ t.length = 2 ∧
      t.indexed zigzag.heap = .ok [([1,1],Word.ofInt _ 3),([1,2],Word.ofInt _ 1)] := by
  have h : zigzag.WellFormed := by decide
  obtain ⟨n,cells,xs,o,e,hn,hc,hx,ho,he,hk⟩ := WellFormed.resumed h
  have hsize : zigzag.view.size = .ok 6 := by decide
  have hcells : zigzag.dims.indices.map zigzag.view.address = [4,2,0,5,3,1].map Int.ofNat := by decide
  have hxs : zigzag.dims.indices.mapM zigzag.get = .ok ([4,2,0,5,3,1].map (Word.ofInt _)) := by decide
  obtain rfl := Except.ok.inj (hn.symm.trans hsize)
  rw [hcells] at hc
  obtain rfl := (List.map_inj_right fun _ _ => Int.ofNat.inj).1 hc
  obtain rfl := Except.ok.inj (hx.symm.trans hxs)
  obtain ⟨⟨t,ht,hl⟩,u,hu,hl'⟩ := hk 4 (by decide)
  exact ⟨h,by decide,⟨o,t,ho,ht,hl.remaining,(Option.some.inj (hl.index (by decide))).symm,hl.toList⟩,e,u,he,hu,
    hl'.length,hl'.indexed⟩

end Snapshot

end Strided
