import Strided.Proofs.AxisScan
import Strided.Proofs.IndexedWalk
import Strided.Proofs.Lifting
import Strided.Snapshot.Elementwise

set_option autoImplicit false

/-!
Arrays that are alike: they have the same extents and the same value at each index, wherever they keep it. Whether a
walk steps from cell to cell or turns like an odometer, the values it comes to are the same; the slabs of alike arrays
are alike; so the recursions over slabs run in step and end alike, in the same value or at the same fault.
-/
namespace Strided

namespace Snapshot

open Shape (joint Compatible)

variable {α β γ : Type}

/-- Both arrays can be read through, and they differ in nothing but where their values are. -/
structure Alike [Element α] (s s' : Snapshot α) : Prop where
  sound : s.Sound
  sound' : s'.Sound
  dims_eq : s.dims = s'.dims
  valueAt_eq : ∀ index, s.dims.Contains index → s.valueAt index = s'.valueAt index

namespace Alike

variable [Element α] [Element β] [Element γ] {s s' : Snapshot α} {u u' : Snapshot β}

theorem refl (hs : s.Sound) : Alike s s := ⟨hs,hs,rfl,fun _ _ => rfl⟩

theorem rank_eq (h : Alike s s') : s.rank = s'.rank := by
  have hd := congrArg List.length h.dims_eq
  rwa [dims,dims,View.length_dims,View.length_dims] at hd

theorem values_eq (h : Alike s s') : s.values = s'.values := by
  rw [values,values,← h.dims_eq]
  exact List.map_congr_left fun index hi => h.valueAt_eq index (Shape.mem_indices.1 hi)

theorem walk_eq (h : Alike s s') : s.walk = s'.walk := by rw [h.sound.walk_eq,h.sound'.walk_eq,h.values_eq]

theorem toList_eq (h : Alike s s') : s.toList = s'.toList := by rw [toList,toList,h.walk_eq]

theorem flatten_eq (h : Alike s s') : s.flatten = s'.flatten := by rw [flatten,flatten,h.toList_eq]

theorem deepCopy_eq (h : Alike s s') : s.deepCopy = s'.deepCopy := by rw [deepCopy,deepCopy,h.toList_eq,h.dims_eq]

theorem transposeAxes_eq (h : Alike s s') (perm : List Nat) : s.transposeAxes perm = s'.transposeAxes perm := by
  rw [transposeAxes,transposeAxes,h.rank_eq,h.dims_eq,h.toList_eq]

theorem map_eq (h : Alike s s') (f : α → Result β) : s.map f = s'.map f := by rw [map,map,h.walk_eq,h.dims_eq]

omit [Element β] in
theorem reduce_eq (h : Alike s s') (f : α → Result β) (g : β → β → Result β) (init : β) :
    s.reduce f g init = s'.reduce f g init := by
  rw [reduce,reduce,h.walk_eq]

theorem cumsum_eq [Arithmetic α] (h : Alike s s') : s.cumsum = s'.cumsum := by rw [cumsum,cumsum,h.walk_eq]

theorem indexed_eq (h : Alike s s') :
    (do let e ← s.elements; e.indexed s.heap) = (do let e ← s'.elements; e.indexed s'.heap) := by
  have hpairs : (s.dims.indices.map fun index => (index,s.valueAt index)) =
      s'.dims.indices.map fun index => (index,s'.valueAt index) := by
    rw [← h.dims_eq]
    exact List.map_congr_left fun index hi => by rw [h.valueAt_eq index (Shape.mem_indices.1 hi)]
  rw [h.sound.indexed_eq,h.sound'.indexed_eq,hpairs]

section Stretched

variable {shape : Shape}

theorem seenAt_eq (h : Alike s s') (hd : s.dims.StretchesTo shape) {index : List Nat} (hi : shape.Contains index) :
    s.seenAt index = s'.seenAt index := by
  obtain ⟨v,hv,-,hvd⟩ := exists_stretched hd
  have hc : s.dims.Contains (s.dims.restrict index) :=
    (View.translates_of_broadcastTo hv).contains index (by rwa [← hvd] at hi)
  rw [seenAt,seenAt,← h.dims_eq,h.valueAt_eq _ hc]

theorem walk_stretched (h : Alike s s') (hd : s.dims.StretchesTo shape) (hb : shape.span ≤ 2^50) :
    ∃ w w', s.stretched shape = .ok w ∧ s'.stretched shape = .ok w' ∧ w.walk = w'.walk := by
  obtain ⟨w,hw,hwalk⟩ := h.sound.walk_stretched hd hb
  obtain ⟨w',hw',hwalk'⟩ := h.sound'.walk_stretched (h.dims_eq ▸ hd) hb
  refine ⟨w,w',hw,hw',?_⟩
  rw [hwalk,hwalk',List.map_congr_left fun index hi => h.seenAt_eq hd (Shape.mem_indices.1 hi)]

theorem zipMap2_eq (h : Alike s s') (hu : Alike u u')
    (hb : Compatible s.dims u.dims → (joint s.dims u.dims).span ≤ 2^50) (f : α → β → Result γ) :
    s.zipMap2 f u = s'.zipMap2 f u' := by
  by_cases hc : Compatible s.dims u.dims
  · obtain ⟨v,v',hv,hv',hleft⟩ := h.walk_stretched (Shape.stretchesTo_joint_left _ _) (hb hc)
    obtain ⟨w,w',hw,hw',hright⟩ := hu.walk_stretched hc.stretchesTo_joint (hb hc)
    rw [zipMap2,zipMap2,← h.dims_eq,← hu.dims_eq,Shape.broadcast_eq_ok hc,ok_bind,ok_bind,hv,hv',hw,hw',ok_bind,ok_bind,
      ok_bind,ok_bind,hleft,hright]
  · have hc' : ¬ Compatible s'.dims u'.dims := by rwa [← h.dims_eq,← hu.dims_eq]
    rw [zipMap2_eq_refuse f hc,zipMap2_eq_refuse f hc',h.dims_eq,hu.dims_eq]

end Stretched

section Axis

variable {h h' : Heap α} {v v' : View} {f : α → α → Result α}

theorem slabs (ha : Alike ⟨h,v⟩ ⟨h',v'⟩) :
    ∃ ws ws', v.slabs = Walk.ofList ws ∧ v'.slabs = Walk.ofList ws' ∧
      List.Forall₂ (fun w w' => Alike ⟨h,w⟩ ⟨h',w'⟩) ws ws' := by
  have hd : v.dims = v'.dims := ha.dims_eq
  cases hv : v.dims with
  | nil =>
    have hs := View.Sound.walk_slabs ha.sound 0
    have hs' := View.Sound.walk_slabs ha.sound' 0
    simp only [← hd,hv] at hs hs'
    exact ⟨[],[],hs,hs',.nil⟩
  | cons d inner =>
    have ho := ha.sound.outermost hv
    have ho' := ha.sound'.outermost (hd.symm.trans hv)
    refine ⟨_,_,ho.slabs_eq,ho'.slabs_eq,?_⟩
    rw [List.forall₂_map_left_iff,List.forall₂_map_right_iff,List.forall₂_same]
    intro i hi
    have hi := List.mem_range.1 hi
    refine ⟨ho.sound i hi,ho'.sound i hi,(ho.dims_eq i).trans (ho'.dims_eq i).symm,fun index hx => ?_⟩
    have hx : Shape.Contains inner index := by rwa [dims,ho.dims_eq i] at hx
    rw [ho.valueAt_eq i hi index hx,ho'.valueAt_eq i hi index hx,ha.valueAt_eq]
    rw [dims,hv]
    exact ⟨hi,hx⟩

theorem foldStart_eq (ha : Alike ⟨h,v⟩ ⟨h',v'⟩) (identity : Option α) :
    foldStart h identity f v = foldStart h' identity f v' := by
  have hd : v.dims = v'.dims := ha.dims_eq
  cases identity with
  | some e => rw [foldStart,foldStart,ha.walk_eq,hd]
  | none => exact ha.deepCopy_eq

theorem foldPart_eq (ha : Alike ⟨h,v⟩ ⟨h',v'⟩) (acc : Block α) : foldPart h f acc v = foldPart h' f acc v' := by
  rw [foldPart,foldPart,ha.walk_eq]

/-- The two recursions take the same steps: slab by slab, one axis further out, down to walks that are the same. -/
theorem foldSlabs_eq (ha : Alike ⟨h,v⟩ ⟨h',v'⟩) (operation : String) (identity : Option α) (axis : Nat) :
    foldSlabs h operation identity f axis v = foldSlabs h' operation identity f axis v' := by
  have hd : v.dims = v'.dims := ha.dims_eq
  induction axis generalizing v v' with
  | zero =>
    obtain ⟨ws,ws',hw,hw',hall⟩ := ha.slabs
    have hr : v.rank = v'.rank := ha.rank_eq
    rw [foldSlabs.eq_def,foldSlabs.eq_def]
    simp only [← hr,← hd,ha.walk_eq,hw,hw']
    cases hall with
    | nil => rfl
    | cons hfirst hrest =>
      simp only [Walk.ofList,Steps.ofList,Steps.foldl_ofList,hfirst.foldStart_eq identity]
      split
      · rfl
      · congr 1
        funext start
        exact foldlM_eq_of_forall₂ (hrest.imp fun _ _ hx acc => hx.foldPart_eq acc) start
  | succ axis ih =>
    obtain ⟨ws,ws',hw,hw',hall⟩ := ha.slabs
    rw [foldSlabs,foldSlabs,← hd,hw,hw',Walk.toList_map_ofList,Walk.toList_map_ofList,
      mapM_eq_of_forall₂ (hall.imp fun _ _ hx => ih hx hx.dims_eq)]

theorem foldAlong_eq (ha : Alike s s') (operation : String) (identity : Option α) (axis : Nat) :
    s.foldAlong operation identity f axis = s'.foldAlong operation identity f axis := by
  rw [foldAlong,foldAlong,ha.rank_eq,ha.dims_eq,ha.foldSlabs_eq]

theorem scanPart_eq (ha : Alike ⟨h,v⟩ ⟨h',v'⟩) (itemDims : Shape) (parts : List (Block α)) :
    scanPart h itemDims f parts v = scanPart h' itemDims f parts v' := by
  cases parts with
  | nil => rw [scanPart,scanPart,scanNext,scanNext,ha.deepCopy_eq]
  | cons previous parts => rw [scanPart,scanPart,scanNext,scanNext,ha.walk_eq]

theorem scanSlabs_eq (ha : Alike ⟨h,v⟩ ⟨h',v'⟩) (axis : Nat) : scanSlabs h f axis v = scanSlabs h' f axis v' := by
  have hd : v.dims = v'.dims := ha.dims_eq
  induction axis generalizing v v' with
  | zero =>
    obtain ⟨ws,ws',hw,hw',hall⟩ := ha.slabs
    have hr : v.rank = v'.rank := ha.rank_eq
    rw [scanSlabs.eq_def,scanSlabs.eq_def]
    simp only [← hr,← hd,ha.walk_eq,hw,hw',Walk.foldl_ofList]
    rw [foldlM_eq_of_forall₂ (hall.imp fun _ _ hx parts => hx.scanPart_eq _ parts)]
  | succ axis ih =>
    obtain ⟨ws,ws',hw,hw',hall⟩ := ha.slabs
    rw [scanSlabs,scanSlabs,← hd,hw,hw',Walk.toList_map_ofList,Walk.toList_map_ofList,
      mapM_eq_of_forall₂ (hall.imp fun _ _ hx => ih hx hx.dims_eq)]

theorem scanAxis_eq (ha : Alike s s') (axis : Nat) : s.scanAxis f axis = s'.scanAxis f axis := by
  rw [scanAxis,scanAxis,ha.rank_eq,ha.scanSlabs_eq]

end Axis

theorem stack_eq {h h' : Heap α} {vs vs' : List View} (hall : List.Forall₂ (fun v v' => Alike ⟨h,v⟩ ⟨h',v'⟩) vs vs') :
    Snapshot.stack h vs = Snapshot.stack h' vs' := by
  have hstack (itemDims : Shape) : stackShaped h itemDims vs = stackShaped h' itemDims vs' :=
    Block.stack_eq_of_forall₂ itemDims (hall.imp fun _ _ ha => ⟨ha.dims_eq,ha.walk_eq⟩)
  cases hall with
  | nil => rfl
  | cons hfirst _ =>
    have hd := hfirst.dims_eq
    simp only [dims] at hd
    simp only [Snapshot.stack,hd,hstack]

end Alike

end Snapshot

end Strided
