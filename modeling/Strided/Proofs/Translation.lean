import Strided.Proofs.Addresses
import Strided.View.Write

set_option autoImplicit false

/-!
Views of views as maps of indices. A slab puts its coordinate into an index, permuted axes put each coordinate back in
the place of its axis, stretched axes drop and forget coordinates. A chain of views is the composition of these maps:
what is read or written at an index of the last view is read or written at the composed index of the first one.
-/
namespace Strided

namespace Layout

theorem swing_eq_sum (axes : List Axis) : swing axes = (axes.map fun a => a.stride.natAbs*(a.extent-1)).sum := by
  induction axes with
  | nil => rfl
  | cons a axes ih => simp [swing,ih]

end Layout

namespace View

/-- Both views are of one buffer, and each element of the second is the one that the first has at the index that
`source` gives. -/
structure Translates (v w : View) (source : List Nat → List Nat) : Prop where
  buffer_eq : w.buffer = v.buffer
  contains : ∀ index, w.dims.Contains index → v.dims.Contains (source index)
  position_eq : ∀ index, w.dims.Contains index →
    v.start+v.layout.distance (source index) = w.start+w.layout.distance index

variable {u v w : View} {length : Nat} {source source' : List Nat → List Nat}

theorem Translates.refl (v : View) : v.Translates v id := ⟨rfl,fun _ => id,fun _ _ => rfl⟩

theorem Translates.trans (h : u.Translates v source) (h' : v.Translates w source') :
    u.Translates w fun index => source (source' index) where
  buffer_eq := h'.buffer_eq.trans h.buffer_eq
  contains index hi := h.contains _ (h'.contains index hi)
  position_eq index hi := (h.position_eq _ (h'.contains index hi)).trans (h'.position_eq index hi)

theorem Translates.cell_eq (h : v.Translates w source) {index : List Nat} (hi : w.dims.Contains index) :
    v.cell (source index) = w.cell index := by
  rw [cell,cell,h.position_eq index hi]

theorem Translates.cellOf_eq (h : v.Translates w source) (hv : v.Near length) (hw : w.Near length) {index : List Nat}
    (hi : w.dims.Contains index) : w.cellOf index = v.cellOf (source index) := by
  rw [hw.cellOf_eq hi,hv.cellOf_eq (h.contains index hi),h.cell_eq hi]

theorem Translates.inside (h : v.Translates w source) (hv : v.Near length) {index : List Nat}
    (hi : w.dims.Contains index) : 0 ≤ w.start+w.layout.distance index ∧ w.start+w.layout.distance index < length := by
  rw [← h.position_eq index hi]
  exact hv.inside _ (h.contains index hi)

theorem translates_of_permuted {perm : List Nat} (h : v.permuted perm = .ok w) :
    v.Translates w (Permutation.restore perm) := by
  obtain ⟨l,hl,h⟩ := bind_eq_ok.1 h
  obtain rfl := Except.ok.inj h
  refine ⟨rfl,fun index hi => (Layout.distance_permuted hl hi).1,fun index hi => ?_⟩
  rw [(Layout.distance_permuted hl hi).2]
  rfl

theorem translates_of_broadcastTo {target : Shape} (h : v.broadcastTo target = .ok w) :
    v.Translates w v.dims.restrict := by
  obtain ⟨l,hl,h⟩ := bind_eq_ok.1 h
  obtain rfl := Except.ok.inj h
  refine ⟨rfl,fun index hi => (Layout.distance_broadcastTo hl hi).1,fun index hi => ?_⟩
  rw [dims,(Layout.distance_broadcastTo hl hi).2]
  rfl

theorem Near.translates_slabbed (h : v.Near length) {axis i : Nat} {a : Axis} (ha : v.layout.axes[axis]? = some a)
    (hi : i < a.extent) : v.Translates (v.slabbed axis i) (·.insertIdx axis i) := by
  refine ⟨rfl,fun index hx => ?_,fun index hx => ?_⟩
  · rw [dims_slabbed] at hx
    exact contains_insertIdx ha hi hx
  · rw [dims_slabbed] at hx
    exact (h.address_slabbed ha hi hx).symm

theorem Sound.of_translates (hv : v.Sound length) (ht : v.Translates w source) (hstart : w.start = v.start)
    (hspan : w.dims.span ≤ 2^50) (hswing : Layout.swing w.layout.axes ≤ Layout.swing v.layout.axes)
    (hstep : ∀ a ∈ w.layout.axes, a ∈ v.layout.axes ∨ a.stride = 0) : w.Sound length where
  span_le := hspan
  swing_le := by
    have := hv.swing_le
    rw [hstart]
    omega
  step_le a ha := by
    rcases hstep a ha with ha | ha
    · exact hv.step_le a ha
    · simp [ha]
  inside _ hi := ht.inside hv.toNear hi

theorem Sound.permuted (hv : v.Sound length) {perm : List Nat} (h : v.permuted perm = .ok w) :
    w.dims = Permutation.arrange perm v.dims ∧ w.Sound length := by
  have ht := translates_of_permuted h
  obtain ⟨l,hl,h⟩ := bind_eq_ok.1 h
  obtain ⟨⟨⟩,hp,hl⟩ := bind_eq_ok.1 hl
  obtain rfl := Except.ok.inj h
  obtain rfl := Except.ok.inj hl
  have haxes : (Permutation.arrange perm v.layout.axes).Perm v.layout.axes := Permutation.arrange_perm hp rfl
  refine ⟨Permutation.map_arrange _ _,hv.of_translates ht rfl ?_ ?_ fun a ha => Or.inl (haxes.mem_iff.1 ha)⟩
  · exact le_of_eq_of_le (Shape.span_perm (haxes.map Axis.extent)) hv.span_le
  · exact Nat.le_of_eq (by rw [Layout.swing_eq_sum,Layout.swing_eq_sum,(haxes.map _).sum_nat])

theorem Sound.broadcastTo (hv : v.Sound length) {target : Shape} (hb : target.span ≤ 2^50)
    (h : v.broadcastTo target = .ok w) : w.dims = target ∧ w.Sound length := by
  have ht := translates_of_broadcastTo h
  obtain ⟨l,hl,h⟩ := bind_eq_ok.1 h
  obtain rfl := Except.ok.inj h
  have hd := Layout.dims_of_broadcastTo hl
  have hs := Layout.broadcastTo_eq_ok_iff.1 hl
  refine ⟨hd,hv.of_translates ht rfl ?_ ?_ fun a ha => ?_⟩
  · show l.dims.span ≤ 2^50
    rwa [hd]
  · have hsum := hs.sum_map_le (m := fun a => a.stride.natAbs*(a.extent-1)) (by simp)
    simpa [Layout.swing_eq_sum,List.sum_reverse] using hsum
  · simpa using hs.mem (List.mem_reverse.2 ha)

theorem Sound.slabAlong (hv : v.Sound length) {axis i : Nat} (h : v.slabAlong axis i = .ok w) :
    w.dims = v.dims.eraseIdx axis ∧ w.Sound length ∧ v.Translates w (·.insertIdx axis i) := by
  obtain ⟨a,ha,hi⟩ := exists_axis_of_slabAlong h
  rw [hv.slabAlong_eq ha hi,Except.ok.injEq] at h
  subst h
  exact ⟨dims_slabbed v axis i,hv.slabbed ha hi,hv.translates_slabbed ha hi⟩

end View

/-- A way to see the cells of a view through other indices. -/
inductive Facet where
  | slab (axis i : Nat)
  | permuted (perm : List Nat)
  | stretched (target : Shape)
  deriving DecidableEq, Repr

namespace Facet

def take (v : View) : Facet → Result View
  | .slab axis i => v.slabAlong axis i
  | .permuted perm => v.permuted perm
  | .stretched target => v.broadcastTo target

def dims (s : Shape) : Facet → Shape
  | .slab axis _ => s.eraseIdx axis
  | .permuted perm => Permutation.arrange perm s
  | .stretched target => target

def source (s : Shape) (index : List Nat) : Facet → List Nat
  | .slab axis i => index.insertIdx axis i
  | .permuted perm => Permutation.restore perm index
  | .stretched _ => s.restrict index

def takeAll (chain : List Facet) (v : View) : Result View := chain.foldlM take v

def sourceAll : List Facet → Shape → List Nat → List Nat
  | [], _, index => index
  | facet :: chain, s, index => facet.source s (sourceAll chain (facet.dims s) index)

def Countable (facet : Facet) : Prop := ∀ target, facet = .stretched target → target.span ≤ 2^50

end Facet

namespace View

variable {v w : View} {length : Nat}

theorem Sound.take (hv : v.Sound length) {facet : Facet} (hb : facet.Countable) (h : facet.take v = .ok w) :
    w.dims = facet.dims v.dims ∧ w.Sound length ∧ v.Translates w (facet.source v.dims ·) := by
  cases facet with
  | slab axis i => exact hv.slabAlong h
  | permuted perm => exact ⟨(hv.permuted h).1,(hv.permuted h).2,translates_of_permuted h⟩
  | stretched target =>
    have hs := hv.broadcastTo (hb target rfl) h
    exact ⟨hs.1,hs.2,translates_of_broadcastTo h⟩

theorem Sound.takeAll (hv : v.Sound length) {chain : List Facet} (hb : ∀ facet ∈ chain, facet.Countable)
    (h : Facet.takeAll chain v = .ok w) : w.Sound length ∧ v.Translates w (Facet.sourceAll chain v.dims) := by
  induction chain generalizing v with
  | nil =>
    obtain rfl := Except.ok.inj h
    exact ⟨hv,Translates.refl v⟩
  | cons facet chain ih =>
    obtain ⟨u,hu,h⟩ := bind_eq_ok.1 h
    obtain ⟨hd,hs,ht⟩ := hv.take (hb facet (by simp)) hu
    obtain ⟨hw,hc⟩ := ih hs (fun other ho => hb other (by simp [ho])) h
    refine ⟨hw,?_⟩
    rw [hd] at hc
    exact ht.trans hc

theorem access_eq (hb : w.buffer = v.buffer) {index index' : List Nat} (hc : w.cellOf index = v.cellOf index') {α : Type}
    (h : Heap α) (x : α) :
    (Snapshot.mk h w).get index = (Snapshot.mk h v).get index' ∧
      (Snapshot.mk h w).getPromised index = (Snapshot.mk h v).getPromised index' ∧
      w.set index x h = v.set index' x h ∧ w.setPromised index x h = v.setPromised index' x h := by
  have hg : (Snapshot.mk h w).get index = (Snapshot.mk h v).get index' := by simp only [Snapshot.get,hc,hb]
  have hs : w.set index x h = v.set index' x h := by simp only [set,hc,hb]
  refine ⟨hg,?_,hs,?_⟩
  · rw [Snapshot.getPromised,Snapshot.getPromised,hg]
  · rw [setPromised,setPromised,hs]

/-- Each slab, permutation or stretching of a well-formed view, and each finite chain of them, is a view of the same
buffer, and what it has at an index is what the first view has at the translated index: they have the same cell, which
is the exact sum of the strides, and in every heap they are read and written alike. -/
theorem WellFormed.translation (hv : v.WellFormed length) {chain : List Facet} (hb : ∀ facet ∈ chain, facet.Countable)
    (h : Facet.takeAll chain v = .ok w) :
    w.buffer = v.buffer ∧ ∀ index, w.dims.Contains index →
      v.dims.Contains (Facet.sourceAll chain v.dims index) ∧
      (∃ cell, w.cellOf index = .ok cell ∧ v.cellOf (Facet.sourceAll chain v.dims index) = .ok cell ∧
        (cell : Int) = v.address (Facet.sourceAll chain v.dims index)) ∧
      ∀ {α : Type} (h : Heap α) (x : α),
        (Snapshot.mk h w).get index = (Snapshot.mk h v).get (Facet.sourceAll chain v.dims index) ∧
        (Snapshot.mk h w).getPromised index = (Snapshot.mk h v).getPromised (Facet.sourceAll chain v.dims index) ∧
        w.set index x h = v.set (Facet.sourceAll chain v.dims index) x h ∧
        w.setPromised index x h = v.setPromised (Facet.sourceAll chain v.dims index) x h := by
  obtain ⟨hw,ht⟩ := hv.sound.takeAll hb h
  refine ⟨ht.buffer_eq,fun index hi => ?_⟩
  have hi' := ht.contains index hi
  have hc := ht.cellOf_eq hv.sound.toNear hw.toNear hi
  have hcell := hv.sound.cellOf_eq hi'
  exact ⟨hi',⟨_,hc.trans hcell,hcell,hv.cell_eq hi'⟩,access_eq ht.buffer_eq hc⟩

def column : View := { buffer := 0, layout := ⟨[⟨3,-2⟩,⟨1,5⟩]⟩, offset := 4 }

theorem column_translation :
    let chain := [Facet.stretched [2,3,4],.permuted [2,0,1],.slab 1 1]
    column.WellFormed 6 ∧ (∀ facet ∈ chain, facet.Countable) ∧
      ∃ w, Facet.takeAll chain column = .ok w ∧ w.dims = [4,3] ∧
        Facet.sourceAll chain column.dims [3,2] = [2,0] ∧ w.cellOf [3,2] = .ok 0 ∧
        w.set [3,2] (Word.ofInt ⟨true,.w8⟩ 9) Snapshot.zigzag.heap =
          column.set [2,0] (Word.ofInt ⟨true,.w8⟩ 9) Snapshot.zigzag.heap := by
  intro chain
  have hv : column.WellFormed 6 := by decide
  have hb : ∀ facet ∈ chain, facet.Countable := by
    rintro facet hf target rfl
    obtain rfl : target = [2,3,4] := by simpa [chain] using hf
    decide
  have hw : Facet.takeAll chain column = .ok { buffer := 0, layout := ⟨[⟨4,0⟩,⟨3,-2⟩]⟩, offset := 4 } := by decide +kernel
  obtain ⟨-,ht⟩ := hv.translation hb hw
  obtain ⟨-,⟨cell,hc,-,ha⟩,haccess⟩ := ht [3,2] (by decide)
  have hs : Facet.sourceAll chain column.dims [3,2] = [2,0] := by decide
  rw [hs] at ha haccess
  have hz : column.address [2,0] = 0 := by decide
  obtain rfl : cell = 0 := by omega
  exact ⟨hv,hb,_,hw,rfl,hs,hc,(haccess Snapshot.zigzag.heap _).2.2.1⟩

end View

end Strided
