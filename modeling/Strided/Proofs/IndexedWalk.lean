import Strided.Proofs.Full
import Strided.Proofs.Values

set_option autoImplicit false

namespace Strided

open Steps (Answers)

namespace Offsets

variable {v : View} {length : Nat} {o : Offsets} {r : Nat}

structure Past (v : View) (o : Offsets) (r : Nat) : Prop where
  contiguous : o.contiguous = true
  axes : o.axes = v.layout.axes
  start : o.start = v.start
  position : o.position = v.start+r

/-- The walk has made `r` steps and stands at the index of that rank, if there is one. -/
structure Stands (v : View) (o : Offsets) (r : Nat) : Prop where
  remaining : r+o.remaining = v.dims.volume
  place : r < v.dims.volume → At v o r ∨ v.isContiguous = true ∧ Past v o r

theorem Past.index_eq (hv : v.Near length) (h : Past v o r) {index : List Nat} (hi : v.dims.indices[r]? = some index) :
    o.currentIndex = index := by
  have hmem := Shape.mem_indices.1 (List.mem_of_getElem? hi)
  have hlt := Shape.rank_lt hmem
  have hn := Nat.le_trans v.dims.volume_le_span hv.span_le
  have hd : o.axes.map Axis.extent = v.dims := by rw [h.axes]; rfl
  exact currentIndex_eq hd h.contiguous hmem (by simp only [Address.maxUnsigned]; omega)
    (by rw [h.position,h.start,Shape.rank_of_getElem? hi])

theorem Past.next?_eq (hv : v.Near length) (hc : v.isContiguous = true) (h : Past v o r) {n : Nat}
    (hn : o.remaining = n+1) {index : List Nat} (hi : v.dims.indices[r]? = some index) :
    ∃ t, o.next? = .ok (some (v.cell index,t)) ∧ t.remaining = n ∧ Past v t (r+1) := by
  have hmem := Shape.mem_indices.1 (List.mem_of_getElem? hi)
  have hr := Shape.rank_of_getElem? hi
  have ha : Address.add (v.start+r) 1 = .ok (v.start+r+1) := by
    have hlt := Shape.rank_lt hmem
    have hvol := Nat.le_trans v.dims.volume_le_span hv.span_le
    have hs := hv.swing_le
    exact Address.add_eq_ok (Address.isSigned_of_natAbs_le (by omega))
  have hu := hv.unsigned_eq hmem
  rw [hv.distance_eq_rank hc hmem,hr] at hu
  refine ⟨{ o with position := v.start+r+1, remaining := n },?_,rfl,h.contiguous,h.axes,h.start,?_⟩
  · simp only [next?,hn,h.contiguous,h.position,↓reduceIte,ha,ok_bind,hu]
  · simp only [Int.natCast_add,Int.natCast_one,Int.add_assoc]

/-- A walk that stands at an index answers with its cell and stands at the next index then. -/
theorem Stands.next?_eq (hv : v.Sound length) (h : Stands v o r) {index : List Nat}
    (hi : v.dims.indices[r]? = some index) :
    o.currentIndex = index ∧ ∃ t, o.next? = .ok (some (v.cell index,t)) ∧ Stands v t (r+1) := by
  have hlt : r < v.dims.volume := by simpa using (List.getElem?_eq_some_iff.1 hi).1
  have hm := h.remaining
  rcases h.place hlt with hat | ⟨hc,hp⟩
  · obtain rfl : o.index = index := Option.some.inj (hat.index.symm.trans hi)
    have hx : o.currentIndex = o.index := by rw [currentIndex,hat.contiguous]; rfl
    refine ⟨hx,?_⟩
    obtain ⟨-,⟨hlast,t,ht,hnone⟩ | ⟨-,hjam,-⟩ | ⟨hl,-,t,ht,hnext⟩⟩ := hat.next?_eq hv.toNear hv.isSigned_stride
    · have hrem := t.remaining_of_next?.1 hnone
      exact ⟨t,ht,by omega,fun hlt => by omega⟩
    · exact absurd hjam (not_jammed (Shape.mem_indices.1 (List.mem_of_getElem? hi)) hv.step_le hv.swing_le)
    · exact ⟨t,ht,hnext.remaining,fun _ => Or.inl hnext⟩
  · obtain ⟨t,ht,hrem,hnext⟩ := hp.next?_eq hv.toNear hc (n := o.remaining-1) (by omega) hi
    exact ⟨hp.index_eq hv.toNear hi,t,ht,by omega,fun _ => Or.inr ⟨hc,hnext⟩⟩

/-- Whatever follows each answer of a walk by work of its own, which may look at the index, answers from where the walk
stands with what that work gives at the indices still to come. -/
theorem Stands.answers {σ β : Type} {next'? : σ → Result (Option (β × σ))} {g : List Nat → β} (hv : v.Sound length)
    (wrap : Offsets → σ) (hnone : ∀ o, o.next? = .ok none → next'? (wrap o) = .ok none)
    (hsome : ∀ o t index, v.dims.Contains index → o.currentIndex = index → o.next? = .ok (some (v.cell index,t)) →
      next'? (wrap o) = .ok (some (g index,wrap t)))
    (h : Stands v o r) : Answers next'? ((v.dims.indices.drop r).map g) (wrap o) := by
  -- The rank and what remains always make up the volume, so there is an index as long as something remains.
  induction hn : o.remaining generalizing o r with
  | zero =>
    have hm := h.remaining
    have hd : v.dims.indices.drop r = [] := List.drop_eq_nil_of_le (by simp; omega)
    rw [hd]
    exact hnone o (by simp [next?,hn])
  | succ n ih =>
    have hm := h.remaining
    obtain ⟨index,hin,hi⟩ := Shape.exists_getElem?_indices (s := v.dims) (r := r) (by omega)
    obtain ⟨hlt,hg⟩ := List.getElem?_eq_some_iff.1 hi
    obtain ⟨hx,t,ht,hnext⟩ := h.next?_eq hv hi
    have hm' := hnext.remaining
    rw [List.drop_eq_getElem_cons hlt,hg,List.map_cons]
    exact ⟨_,hsome o t index hin hx ht,ih hnext (by omega)⟩

end Offsets

theorem View.Sound.exists_stands {v : View} {length : Nat} (hv : v.Sound length) :
    ∃ o, v.offsets = .ok o ∧ Offsets.Stands v o 0 := by
  refine ⟨_,hv.offsets_eq,Nat.zero_add _,fun _ => ?_⟩
  by_cases hc : v.isContiguous = true
  · exact Or.inr ⟨hc,hc,rfl,by simp only,by simp⟩
  · obtain ⟨o,ho,-,-,-,hat⟩ := hv.exists_offsets
    obtain rfl := Except.ok.inj (ho.symm.trans hv.offsets_eq)
    exact Or.inl (hat (Bool.eq_false_iff.2 hc))

namespace Elements

variable {α : Type} {h : Heap α} {buffer cell : Nat} {o t : Offsets} {x : α}

theorem next?_eq (ht : o.next? = .ok (some (cell,t))) (hx : h.read buffer cell = .ok x) :
    next? { buffer, offsets := o } h = .ok (some (x,{ buffer, offsets := t })) := by
  simp [next?,ht,hx]

theorem nextIndexed?_eq {index : List Nat} (ht : o.next? = .ok (some (cell,t))) (hi : o.currentIndex = index)
    (hx : h.read buffer cell = .ok x) :
    nextIndexed? { buffer, offsets := o } h = .ok (some ((index,x),{ buffer, offsets := t })) := by
  rw [nextIndexed?,next?_eq ht hx,hi]
  rfl

end Elements

namespace Snapshot

variable {α : Type} [Element α] {s : Snapshot α}

theorem Sound.answers_of_stands (hs : s.Sound) {o : Offsets} {r : Nat} (h : Offsets.Stands s.view o r) :
    Answers (Elements.nextIndexed? · s.heap) ((s.dims.indices.drop r).map fun index => (index,s.valueAt index))
      { buffer := s.view.buffer, offsets := o } :=
  h.answers hs (Elements.mk s.view.buffer)
    (fun o ho => by
      show Elements.nextIndexed? _ _ = _
      simp [Elements.nextIndexed?,Elements.next?,ho])
    fun _ _ _ hi hx ht => Elements.nextIndexed?_eq ht hx (hs.near.read_eq hi)

theorem Sound.indexed_of_stands (hs : s.Sound) {o : Offsets} {r : Nat} (h : Offsets.Stands s.view o r) :
    Elements.indexed { buffer := s.view.buffer, offsets := o } s.heap =
      .ok ((s.dims.indices.drop r).map fun index => (index,s.valueAt index)) := by
  have hm := h.remaining
  have hn := Nat.le_trans s.dims.volume_le_span hs.span_le
  have hl : o.remaining = ((s.dims.indices.drop r).map fun index => (index,s.valueAt index)).length := by
    simp only [List.length_map,List.length_drop,Shape.length_indices,dims]
    omega
  have hroom : (Elements.indexWidth+Max.max 8 (Element.width α))*o.remaining ≤ Capacity.maxBytes := by
    have hw : Max.max 8 (Element.width α) ≤ 8127 := Nat.max_le.2 ⟨by decide,Element.width_le⟩
    have hle : o.remaining ≤ 2^50 := by simp only [dims] at hn; omega
    exact Nat.le_trans (Nat.mul_le_mul (Nat.add_le_add_left hw _) hle) (by decide)
  rw [hl] at hroom
  rw [Elements.indexed,Elements.length,hl,Walk.unfold_eq_ofList (hs.answers_of_stands h),Walk.collectWide,Walk.room,
    Walk.length_ofList,if_pos hroom,ok_bind,Walk.toList_ofList]

theorem Sound.indexed_eq (hs : s.Sound) :
    (do let e ← s.elements; e.indexed s.heap) = .ok (s.dims.indices.map fun index => (index,s.valueAt index)) := by
  obtain ⟨o,ho,hstands⟩ := View.Sound.exists_stands hs
  rw [elements,ho,ok_bind,ok_bind,hs.indexed_of_stands hstands,List.drop_zero]

end Snapshot

end Strided
