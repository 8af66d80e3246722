import Strided.Proofs.Filled
import Strided.Proofs.Writes

set_option autoImplicit false

/-!
What is made afresh has a buffer that was not there before, and nothing that was there changes while it is made. The
arrays that a reduction or a scan overwrites on the way are all new themselves. This is proved along the recursion of
the two: a part that is made of a slab is new with respect to a heap that has only grown since the start.
-/
namespace Strided

variable {α β γ δ : Type}

namespace Heap

/-- The buffers that are there stay as they are, though there may be new ones. -/
structure Extends (h h' : Heap α) : Prop where
  size_le : h.buffers.size ≤ h'.buffers.size
  cells_eq : ∀ b, b < h.buffers.size → h'.cells b = h.cells b

theorem Extends.refl (h : Heap α) : h.Extends h := ⟨Nat.le_refl _,fun _ _ => rfl⟩

theorem Extends.trans {h h' h'' : Heap α} (h1 : h.Extends h') (h2 : h'.Extends h'') : h.Extends h'' where
  size_le := Nat.le_trans h1.size_le h2.size_le
  cells_eq b hb := (h2.cells_eq b (Nat.lt_of_lt_of_le hb h1.size_le)).trans (h1.cells_eq b hb)

/-- A buffer that was not there may be overwritten. -/
theorem Extends.overwritten {h h' h'' : Heap α} {buffer : Nat} (he : h.Extends h') (hb : h.buffers.size ≤ buffer)
    (hs : h'.SameBut buffer h'') : h.Extends h'' where
  size_le := Nat.le_trans he.size_le (Nat.le_of_eq hs.size_eq.symm)
  cells_eq b hlt := by
    have hne : b ≠ buffer := Nat.ne_of_lt (Nat.lt_of_lt_of_le hlt hb)
    rw [hs.cells_eq b hne,he.cells_eq b hlt]

theorem Extends.length_le {h h' : Heap α} (he : h.Extends h') (b : Nat) : h.length b ≤ h'.length b := by
  by_cases hb : b < h.buffers.size
  · rw [length,length,he.cells_eq b hb]
  · have hn : h.cells b = #[] := by simp [cells,hb]
    simp [length,hn]

theorem extends_alloc (h : Heap α) (xs : List α) : h.Extends (h.alloc xs).2 := by
  refine ⟨by simp [alloc],fun b hb => ?_⟩
  have hne : b ≠ (h.alloc xs).1 := Nat.ne_of_lt hb
  rw [cells_alloc,if_neg hne]

theorem fst_alloc_lt (h : Heap α) (xs : List α) : (h.alloc xs).1 < (h.alloc xs).2.buffers.size := by simp [alloc]

/-- A row-major array that fills a buffer which only the second heap has, while what the first one has is in both. -/
structure Gains (h : Heap α) (v : View) (h' : Heap α) : Prop extends h.Extends h' where
  size_le_buffer : h.buffers.size ≤ v.buffer
  buffer_lt : v.buffer < h'.buffers.size
  offset_eq : v.offset = 0
  layout_eq : Layout.rowMajor v.dims = .ok v.layout
  length_eq : h'.length v.buffer = v.dims.volume

section Gains

variable {h h' h'' : Heap α} {v : View}

theorem gains_place {b : Block α} (hb : b.Filled) (h : Heap α) : h.Gains (h.place b).1 (h.place b).2 where
  toExtends := h.extends_alloc b.data
  size_le_buffer := Nat.le_refl _
  buffer_lt := h.fst_alloc_lt b.data
  offset_eq := rfl
  layout_eq := hb.1
  length_eq := (h.length_alloc b.data).trans hb.2

theorem Extends.gains (he : h.Extends h') (hg : h'.Gains v h'') : h.Gains v h'' where
  toExtends := he.trans hg.toExtends
  size_le_buffer := Nat.le_trans he.size_le hg.size_le_buffer
  buffer_lt := hg.buffer_lt
  offset_eq := hg.offset_eq
  layout_eq := hg.layout_eq
  length_eq := hg.length_eq

theorem Gains.overwritten {P : Nat → Prop} (hg : h.Gains v h') (hs : h'.SameOutside v.buffer P h'') : h.Gains v h'' where
  toExtends := hg.toExtends.overwritten hg.size_le_buffer hs.toSameBut
  size_le_buffer := hg.size_le_buffer
  buffer_lt := by
    rw [hs.size_eq]
    exact hg.buffer_lt
  offset_eq := hg.offset_eq
  layout_eq := hg.layout_eq
  length_eq := (hs.length_eq v.buffer).trans hg.length_eq

theorem Gains.buffer_ne (hg : h.Gains v h') {w : View} (hw : w.buffer < h.buffers.size) : v.buffer ≠ w.buffer :=
  (Nat.ne_of_lt (Nat.lt_of_lt_of_le hw hg.size_le_buffer)).symm

theorem Gains.inside (hg : h.Gains v h') (hn : (h'.length v.buffer : Int) ≤ Address.maxSigned) :
    v.Inside (h'.length v.buffer) := by
  rw [hg.length_eq] at hn ⊢
  exact View.inside_of_rowMajor hg.layout_eq hg.offset_eq hn

end Gains

end Heap

namespace Update

def Spares (u : Update α β) : Prop := ∀ h : Heap α, h.Extends (u h).2

/-- What is there stays as it is, and the array that is made, if there is one, is fresh. -/
def Builds (u : Update α View) : Prop := ∀ h : Heap α, h.Extends (u h).2 ∧ ∀ v, (u h).1 = .ok v → h.Gains v (u h).2

/-- Nothing but the buffer of the view is written to, and it is this view that comes of it. -/
def Keeps (v : View) (u : Update α View) : Prop :=
  u.Touches v.buffer v.Addresses ∧ ∀ h w, (u h).1 = .ok w → w = v

theorem spares_ofResult (r : Result β) : Spares (ofResult (α := α) r) := Heap.Extends.refl

theorem Spares.bind {u : Update α β} {f : β → Update α γ} (hu : u.Spares) (hf : ∀ x, (f x).Spares) :
    (u >>= f).Spares := by
  intro h
  have h1 := hu h
  rw [bind_apply]
  rcases hr : u h with ⟨_ | x,h'⟩
  · rwa [hr] at h1
  · rw [hr] at h1
    exact h1.trans (hf x h')

theorem spares_foldl {f : γ → β → Update α γ} (hf : ∀ acc x, (f acc x).Spares) (acc : γ) (s : Steps β) :
    (foldl f acc s).Spares := by
  induction s generalizing acc with
  | done => exact spares_ofResult _
  | fault cause => exact spares_ofResult _
  | next x rest ih => exact (hf acc x).bind fun acc => ih () acc

theorem spares_each {f : β → Update α γ} (hf : ∀ x, (f x).Spares) (s : Steps β) : (each f s).Spares :=
  (spares_foldl (fun _ x => (hf x).bind fun _ => spares_ofResult _) _ s).bind fun _ => spares_ofResult _

theorem Builds.spares {u : Update α View} (hu : u.Builds) : u.Spares := fun h => (hu h).1

theorem builds_error (cause : Fault) : Builds (ofResult (α := α) (.error cause)) :=
  fun h => ⟨Heap.Extends.refl h,nofun⟩

theorem builds_place {b : Block α} (hb : b.Filled) : Builds (place b) := by
  intro h
  have hg := Heap.gains_place hb h
  refine ⟨hg.toExtends,fun v hv => ?_⟩
  obtain rfl := Except.ok.inj hv
  exact hg

theorem builds_make {block : Heap α → Result (Block α)} (hb : ∀ h, Ensures Block.Filled (block h)) :
    Builds (make block) := by
  intro h
  rw [make,bind_apply,look]
  cases hr : block h with
  | error cause => exact builds_error cause h
  | ok b => exact builds_place (hb h b hr) h

/-- Whatever has been added before, the array is fresh with respect to the heap at the start. -/
theorem Spares.builds_bind {u : Update α β} {f : β → Update α View} (hu : u.Spares) (hf : ∀ x, (f x).Builds) :
    (u >>= f).Builds := by
  intro h
  have h1 := hu h
  rw [bind_apply]
  rcases hr : u h with ⟨_ | x,h'⟩
  · rw [hr] at h1
    exact ⟨h1,nofun⟩
  · rw [hr] at h1
    exact ⟨h1.trans (hf x h').1,fun v hv => h1.gains ((hf x h').2 v hv)⟩

theorem keeps_ok (v : View) : Keeps v (ofResult (α := α) (.ok v)) :=
  ⟨touches_ofResult _,fun _ _ hw => (Except.ok.inj hw).symm⟩

theorem keeps_bind {v : View} {u : Update α β} {f : β → Update α View} (hu : u.Touches v.buffer v.Addresses)
    (hf : ∀ x, Keeps v (f x)) : Keeps v (u >>= f) := by
  refine ⟨hu.bind fun x => (hf x).1,fun h w hw => ?_⟩
  rw [bind_apply] at hw
  rcases hr : u h with ⟨_ | x,h'⟩
  · rw [hr] at hw
    cases hw
  · rw [hr] at hw
    exact (hf x).2 h' w hw

theorem keeps_ofResult_bind {v : View} {r : Result β} {f : β → Update α View} (hf : ∀ x, r = .ok x → Keeps v (f x)) :
    Keeps v (ofResult r >>= f) := by
  refine ⟨touches_bind fun x hx => (hf x hx).1,fun h w hw => ?_⟩
  rw [bind_apply] at hw
  cases r with
  | error cause => cases hw
  | ok x => exact (hf x rfl).2 h w hw

theorem Builds.bind_keeps {u : Update α View} {f : View → Update α View} (hu : u.Builds) (hf : ∀ v, Keeps v (f v)) :
    (u >>= f).Builds := by
  intro h
  obtain ⟨h1,hg⟩ := hu h
  rw [bind_apply]
  rcases hr : u h with ⟨_ | v,h'⟩
  · rw [hr] at h1
    exact ⟨h1,nofun⟩
  · rw [hr] at hg
    have hv := (hg v rfl).overwritten ((hf v).1 h')
    refine ⟨hv.toExtends,fun w hw => ?_⟩
    obtain rfl := (hf v).2 h' w hw
    exact hv

end Update

namespace View

open Update

variable [Element α] {f : α → α → Result α}

theorem builds_stackShaped (itemDims : Shape) (items : List View) : Builds (stackShaped (α := α) itemDims items) :=
  builds_make fun h => Snapshot.ensures_stackShaped h itemDims items

theorem builds_foldStart (identity : Option α) (first : View) : Builds (foldStart identity f first) := by
  cases identity with
  | none => exact builds_make fun h => (Snapshot.mk h first).ensures_deepCopy
  | some e =>
    refine (builds_make fun _ => Block.ensures_filled first.dims e).bind_keeps fun acc => ?_
    exact keeps_ofResult_bind fun sources hs =>
      keeps_bind (acc.touches_assignEach (forall_reads sources hs)) fun _ => keeps_ok acc

theorem touches_foldPart (acc slab : View) : (foldPart f acc slab).Touches acc.buffer acc.Addresses :=
  acc.touches_assign_of _

theorem builds_foldSlabs (operation : String) (identity : Option α) (axis : Nat) (v : View) :
    Builds (foldSlabs operation identity f axis v) := by
  induction axis generalizing v with
  | zero =>
    rw [foldSlabs.eq_def]
    simp only
    by_cases h1 : v.rank = 1
    · simp only [h1,↓reduceIte]
      exact builds_make fun h => ensures_bind fun _ _ => ensures_bind fun x _ => ensures_ok (Block.filled_scalar x)
    · simp only [h1,↓reduceIte]
      cases v.slabs.steps with
      | done =>
        cases identity with
        | none => exact builds_error _
        | some e => exact builds_make fun _ => Block.ensures_filled _ e
      | fault cause => exact builds_error cause
      | next first rest =>
        -- All slabs but the first are folded into the array that was allocated for the first.
        refine (builds_foldStart identity first).bind_keeps fun acc => keeps_bind ?_ fun _ => keeps_ok acc
        exact touches_perform ((Steps.forall_true _).map fun slab _ => ensures_ok (touches_foldPart acc slab))
  | succ axis ih =>
    rw [foldSlabs]
    exact (spares_each (fun slab => (ih slab).spares) _).builds_bind fun parts => builds_stackShaped _ parts

theorem builds_foldAlong (operation : String) (identity : Option α) (v : View) (axis : Nat) :
    Builds (foldAlong operation identity f v axis) := by
  unfold foldAlong
  cases v.dims[axis]? with
  | none => exact builds_error _
  | some extent =>
    by_cases he : (identity.isNone && extent == 0) = true
    · simp only [he,↓reduceIte]
      exact builds_error _
    · simp only [he,Bool.false_eq_true,↓reduceIte]
      exact builds_foldSlabs operation identity axis v

theorem builds_scanNext (itemDims : Shape) (parts : List View) (slab : View) :
    Builds (scanNext itemDims f parts slab) := by
  cases parts with
  | nil => exact builds_make fun h => (Snapshot.mk h slab).ensures_deepCopy
  | cons previous _ =>
    exact builds_make fun h => ensures_bind fun _ _ => ensures_bind fun _ _ => ensures_bind fun _ _ =>
      Block.ensures_ofList _ _

theorem builds_scanSlabs (axis : Nat) (v : View) : Builds (scanSlabs f axis v) := by
  induction axis generalizing v with
  | zero =>
    rw [scanSlabs.eq_def]
    simp only
    by_cases h1 : v.rank = 1
    · simp only [h1,↓reduceIte]
      exact builds_make fun h => ensures_bind fun _ _ => ensures_bind fun data _ =>
        ensures_ok (Block.filled_ofVector data)
    · simp only [h1,↓reduceIte]
      have hparts (parts : List View) (slab : View) : (scanPart (v.dims.drop 1) f parts slab).Spares :=
        (builds_scanNext _ parts slab).spares.bind fun _ => spares_ofResult _
      exact (spares_ofResult _).builds_bind fun _ => (spares_foldl hparts _ _).builds_bind fun parts =>
        builds_stackShaped _ _
  | succ axis ih =>
    rw [scanSlabs]
    exact (spares_each (fun slab => (ih slab).spares) _).builds_bind fun parts => builds_stackShaped _ parts

theorem builds_scanAxis (v : View) (axis : Nat) : Builds (scanAxis f v axis) := by
  unfold scanAxis
  by_cases ha : axis < v.rank
  · simp only [ha,↓reduceIte]
    exact builds_scanSlabs axis v
  · simp only [ha,↓reduceIte]
    exact builds_error _

end View

/-- The calls that make an array in a heap, with any functions of the caller. All but those along an axis compute it
from the heap as it is. -/
inductive Update.Makes [Element δ] : Update δ View → Prop
  | make {block : Heap δ → Result (Block δ)} : (∀ h, Block.Makes (block h)) → Makes (Update.make block)
  | foldAlong (operation : String) (identity : Option δ) (f : δ → δ → Result δ) (v : View) (axis : Nat) :
      Makes (v.foldAlong operation identity f axis)
  | scanAxis (f : δ → δ → Result δ) (v : View) (axis : Nat) : Makes (v.scanAxis f axis)

theorem Update.Makes.builds [Element δ] {u : Update δ View} (hu : u.Makes) : u.Builds := by
  cases hu with
  | make hb => exact builds_make fun h => (hb h).ensures_filled
  | foldAlong operation identity f v axis => exact v.builds_foldAlong operation identity axis
  | scanAxis f v axis => exact v.builds_scanAxis axis

theorem Session.Fresh.builds_work (as : Abilities α) (s : State α) (made : Fresh α) :
    Ensures Update.Builds (made.work as s) := by
  let _element := as.element
  unfold work
  split
  · exact ensures_bind fun r _ => ensures_bind fun a _ => ensures_ok (a.view.builds_foldAlong _ _ _)
  · exact ensures_bind fun g _ => ensures_bind fun a _ => ensures_ok (a.view.builds_foldAlong _ _ _)
  · exact ensures_bind fun g _ => ensures_bind fun a _ => ensures_ok (a.view.builds_foldAlong _ _ _)
  · exact ensures_bind fun g _ => ensures_bind fun a _ => ensures_ok (a.view.builds_scanAxis _)
  · exact ensures_bind fun _ _ => ensures_bind fun a _ => ensures_ok (a.view.builds_scanAxis _)
  · exact ensures_bind fun _ _ => ensures_bind fun a _ => ensures_ok (a.view.builds_scanAxis _)
  · exact ensures_bind fun b hb => ensures_ok (Update.builds_place (Fresh.ensures_make as s made b hb))

theorem Session.Fresh.gains_of_work {as : Abilities α} {s : State α} {made : Fresh α} {work : Update α View} {v : View}
    {cells : Heap α} (hw : made.work as s = .ok work) (hr : work s.cells = (.ok v,cells)) : s.cells.Gains v cells := by
  have hb := (builds_work as s made work hw s.cells).2
  rw [hr] at hb
  exact hb v rfl

end Strided
