import Strided.Proofs.Reachable
import Strided.Proofs.Realization

set_option autoImplicit false

namespace Strided

variable {α β : Type}

namespace Heap

/-- What is there stays as it is but for such cells. There may be new buffers. -/
structure Framed (P : Nat → Nat → Prop) (h h' : Heap α) : Prop where
  size_le : h.buffers.size ≤ h'.buffers.size
  length_eq : ∀ b, b < h.buffers.size → h'.length b = h.length b
  cell_eq : ∀ b c, b < h.buffers.size → ¬ P b c → (h'.cells b)[c]? = (h.cells b)[c]?

section Framed

variable {P Q : Nat → Nat → Prop} {h h' h'' : Heap α}

theorem Framed.refl (P : Nat → Nat → Prop) (h : Heap α) : h.Framed P h :=
  ⟨Nat.le_refl _,fun _ _ => rfl,fun _ _ _ _ => rfl⟩

theorem Framed.trans (h1 : h.Framed P h') (h2 : h'.Framed Q h'') : h.Framed (fun b c => P b c ∨ Q b c) h'' where
  size_le := Nat.le_trans h1.size_le h2.size_le
  length_eq b hb := (h2.length_eq b (Nat.lt_of_lt_of_le hb h1.size_le)).trans (h1.length_eq b hb)
  cell_eq b c hb hn := by
    have hnext : b < h'.buffers.size := Nat.lt_of_lt_of_le hb h1.size_le
    exact (h2.cell_eq b c hnext (hn ∘ Or.inr)).trans (h1.cell_eq b c hb (hn ∘ Or.inl))

theorem Framed.cells_eq (hf : h.Framed P h') {b : Nat} (hb : b < h.buffers.size) (hn : ∀ c, ¬ P b c) :
    h'.cells b = h.cells b :=
  Array.ext_getElem? fun c => hf.cell_eq b c hb (hn c)

theorem Extends.framed (he : h.Extends h') : h.Framed P h' where
  size_le := he.size_le
  length_eq b hb := congrArg Array.size (he.cells_eq b hb)
  cell_eq b c hb _ := by rw [he.cells_eq b hb]

theorem SameOutside.framed {buffer : Nat} {R : Nat → Prop} (hs : h.SameOutside buffer R h')
    (hr : ∀ c, R c → P buffer c) : h.Framed P h' where
  size_le := Nat.le_of_eq hs.size_eq.symm
  length_eq b _ := hs.length_eq b
  cell_eq b c _ hn := by
    by_cases hb : b = buffer
    · rw [hb] at hn ⊢
      exact hs.cell_eq c fun hc => hn (hr c hc)
    · rw [hs.cells_eq b hb]

end Framed

end Heap

theorem Snapshot.gains_of_asContiguous [Element α] {a : Snapshot α} {v : View} {cells : Heap α}
    (h : a.asContiguous = .ok (v,cells)) :
    a.view.isContiguous = true ∧ v = a.view ∧ cells = a.heap ∨
      a.view.isContiguous = false ∧ a.heap.Gains v cells := by
  rcases Snapshot.asContiguous_cases h with h | ⟨hc,b,-,hb,-,rfl,rfl⟩
  · exact Or.inl h
  · exact Or.inr ⟨hc,Heap.gains_place hb a.heap⟩

theorem Snapshot.buffer_of_asContiguous [Element α] {a : Snapshot α} {v : View} {cells : Heap α}
    (hb : a.view.buffer < a.heap.buffers.size) (h : a.asContiguous = .ok (v,cells)) :
    (v.buffer = a.view.buffer ↔ a.view.isContiguous = true) ∧
      (a.view.isContiguous = false → a.heap.Gains v cells) := by
  rcases Snapshot.gains_of_asContiguous h with ⟨hc,rfl,-⟩ | ⟨hc,hg⟩
  · simp [hc]
  · have hne := hg.buffer_ne hb
    exact ⟨by simp [hne,hc],fun _ => hg⟩

/-- What is written in place through one view cannot be seen through a view of another buffer. -/
theorem View.InPlace.seesSame [Element α] {v w : View} {u : Update α Unit} (hu : v.InPlace u)
    (hb : w.buffer ≠ v.buffer) (h : Heap α) : w.SeesSame h (u h).2 :=
  View.seesSame_of_cells_eq ((hu.touches h).cells_eq w.buffer hb)

namespace Session

variable {as : Abilities α} {s t : State α}

namespace State

def Names (s : State α) : Register → Prop
  | .array v => v.buffer < s.cells.buffers.size
  | .mask v => v.buffer < s.masks.buffers.size
  | .buffer b => b < s.cells.buffers.size

def Grounded (s : State α) : Prop := ∀ entry ∈ s.registers, s.Names entry.2

theorem Names.grow {r : Register} (h : s.Names r) (hc : s.cells.buffers.size ≤ t.cells.buffers.size)
    (hm : s.masks.buffers.size ≤ t.masks.buffers.size) : t.Names r := by
  cases r with
  | array v => exact Nat.lt_of_lt_of_le h hc
  | mask v => exact Nat.lt_of_lt_of_le h hm
  | buffer b => exact Nat.lt_of_lt_of_le h hc

@[simp] theorem cells_bind (s : State α) (out : Option String) (r : Register) : (s.bind out r).cells = s.cells := by
  cases out <;> rfl

@[simp] theorem masks_bind (s : State α) (out : Option String) (r : Register) : (s.bind out r).masks = s.masks := by
  cases out <;> rfl

theorem lookup_bind (s : State α) (name : String) (r : Register) : (s.bind (some name) r).lookup name = some r := by
  have hn : (s.remove name).registers.find? (fun entry => entry.1 = name) = none := by
    simp [remove]
  simp [lookup,bind,List.find?_append,hn]

theorem array_bind (s : State α) (name : String) (v : View) :
    (s.bind (some name) (.array v)).array name = .ok ⟨s.cells,v⟩ := by
  simp [array,lookup_bind]

theorem mask_bind (s : State α) (name : String) (v : View) :
    (s.bind (some name) (.mask v)).mask name = .ok ⟨s.masks,v⟩ := by
  simp [mask,lookup_bind]

theorem Grounded.array (hs : s.Grounded) {name : String} {a : Snapshot α} (h : s.array name = .ok a) :
    a.heap = s.cells ∧ a.view.buffer < s.cells.buffers.size :=
  ⟨(array_eq_ok h).1,hs _ (array_eq_ok h).2⟩

theorem Grounded.mask (hs : s.Grounded) {name : String} {m : Snapshot Bool} (h : s.mask name = .ok m) :
    m.heap = s.masks ∧ m.view.buffer < s.masks.buffers.size :=
  ⟨(mask_eq_ok h).1,hs _ (mask_eq_ok h).2⟩

theorem Grounded.bufferNamed (hs : s.Grounded) {name : String} {b : Nat} (h : s.bufferNamed name = .ok b) :
    b < s.cells.buffers.size := by
  unfold State.bufferNamed at h
  split at h
  · rename_i v hv
    obtain rfl := Except.ok.inj h
    exact hs _ (mem_of_lookup hv)
  · rename_i c hb
    obtain rfl := Except.ok.inj h
    exact hs _ (mem_of_lookup hb)
  · cases h

end State

namespace Fresh

/-- The work that makes an array goes like the computation of a block, and the array that it makes holds the block. -/
def Realizes (cells : Heap α) (work : Attempt (Update α View)) (block : Attempt (Block α)) : Prop :=
  match work with
  | .error o => block = .error o
  | .ok u => ∃ r : Result (Block α), block = liftM r ∧ u.Follows cells r Heap.Holds

section Realizes

variable {cells : Heap α} {work : Attempt (Update α View)} {block : Attempt (Block α)}

theorem realizes_bind {r : Attempt β} {f : β → Attempt (Update α View)} {g : β → Attempt (Block α)}
    (h : ∀ x, r = .ok x → Realizes cells (f x) (g x)) : Realizes cells (r >>= f) (r >>= g) := by
  cases r with
  | error o => rfl
  | ok x => exact h x rfl

theorem realizes_place (cells : Heap α) (block : Attempt (Block α)) :
    Realizes cells (block >>= fun b => .ok (Update.place b)) block := by
  cases block with
  | error o => rfl
  | ok b => exact ⟨.ok b,rfl,_,_,rfl,cells.holds_place b⟩

end Realizes

/-- However an array is made of arrays whose buffers are there, in the heap or before it is put there, it holds what is
computed from the state. -/
theorem realizes_work (hs : s.Grounded) (hw : 0 < as.element.width) (made : Fresh α) :
    Realizes s.cells (made.work as s) (made.make as s) := by
  let _element := as.element
  have hfold (operation : String) (identity : Option α) (f : α → α → Result α) {name : String} (axis : Nat)
      (a : Snapshot α) (ha : s.array name = .ok a) : Realizes s.cells (.ok (a.view.foldAlong operation identity f axis))
        (liftM (a.foldAlong operation identity f axis)) := by
    obtain ⟨heap,v⟩ := a
    obtain ⟨rfl,hb⟩ : heap = s.cells ∧ v.buffer < s.cells.buffers.size := hs.array ha
    exact ⟨_,rfl,(View.follows_foldAlong hw operation identity axis hb).mono fun _ _ _ h => h.holds⟩
  have hscan (f : α → α → Result α) {name : String} (axis : Nat) (a : Snapshot α) (ha : s.array name = .ok a) :
      Realizes s.cells (.ok (a.view.scanAxis f axis)) (liftM (a.scanAxis f axis)) := by
    obtain ⟨heap,v⟩ := a
    obtain ⟨rfl,hb⟩ : heap = s.cells ∧ v.buffer < s.cells.buffers.size := hs.array ha
    exact ⟨_,rfl,(View.follows_scanAxis hw axis hb).mono fun _ _ _ h => h.holds⟩
  unfold work
  split
  · exact realizes_bind fun r _ => realizes_bind (hfold _ _ _ _)
  · exact realizes_bind fun g _ => realizes_bind (hfold _ _ g _)
  · exact realizes_bind fun g _ => realizes_bind (hfold _ _ g _)
  · exact realizes_bind fun g _ => realizes_bind (hscan g _)
  · exact realizes_bind fun _ _ => realizes_bind (hscan _ _)
  · exact realizes_bind fun _ _ => realizes_bind (hscan _ _)
  · exact realizes_place s.cells _

theorem holds_of_work (hs : s.Grounded) (hw : 0 < as.element.width) {made : Fresh α} {work : Update α View} {v : View}
    {cells : Heap α} (hm : made.work as s = .ok work) (hr : work s.cells = (.ok v,cells)) :
    ∃ b, made.make as s = .ok b ∧ cells.Holds v b := by
  have hrealizes := realizes_work hs hw made
  rw [hm] at hrealizes
  obtain ⟨r,hmade,hf⟩ := hrealizes
  cases r with
  | error cause =>
    rw [Update.Follows,hr] at hf
    cases hf
  | ok b =>
    obtain ⟨w,cells',hr',hh⟩ := hf
    obtain ⟨hv,rfl⟩ := Prod.mk.inj (hr.symm.trans hr')
    obtain rfl := Except.ok.inj hv
    exact ⟨b,hmade,hh⟩

end Fresh

namespace Step

/-- The cells of arrays that a step may overwrite: those that its destination addresses, or the one it names. -/
def Reaches (s : State α) (step : Step α) (b c : Nat) : Prop :=
  match step with
  | .write dest _ => ∃ a, s.array dest = .ok a ∧ b = a.view.buffer ∧ a.view.Addresses c
  | .writeCell name cell _ => s.bufferNamed name = .ok b ∧ c = cell
  | _ => False

def ReachesMask (s : State α) (step : Step α) (b c : Nat) : Prop :=
  match step with
  | .writeTruth dest _ => ∃ m, s.mask dest = .ok m ∧ b = m.view.buffer ∧ m.view.Addresses c
  | _ => False

structure Leaves (step : Step α) (s t : State α) : Prop where
  cells : s.cells.Framed (step.Reaches s) t.cells
  masks : s.masks.Framed (step.ReachesMask s) t.masks

theorem leaves_refl (step : Step α) (s : State α) : step.Leaves s s := ⟨Heap.Framed.refl _ _,Heap.Framed.refl _ _⟩

theorem leaves_cells (step : Step α) {cells : Heap α} (h : s.cells.Extends cells) : step.Leaves s { s with cells } :=
  ⟨h.framed,Heap.Framed.refl _ _⟩

theorem leaves_masks (step : Step α) {masks : Heap Bool} (h : s.masks.Extends masks) : step.Leaves s { s with masks } :=
  ⟨Heap.Framed.refl _ _,h.framed⟩

theorem Leaves.bind {step : Step α} (h : step.Leaves s t) (out : Option String) (r : Register) :
    step.Leaves s (t.bind out r) := by
  cases out with
  | none => exact h
  | some name => exact ⟨h.cells,h.masks⟩

theorem Effect.leaves {step : Step α} (h : Effect as s step t) : step.Leaves s t := by
  -- Only the three steps that write have cells to reach; in all others the heaps at most get a new buffer.
  cases h with
  | fresh out hw hr => exact (leaves_cells _ (Fresh.gains_of_work hw hr).toExtends).bind out _
  | freshMask out hb => exact (leaves_masks _ (s.masks.extends_alloc _)).bind out _
  | view out ha hv => exact (leaves_refl _ s).bind out _
  | viewMask out hm hv => exact (leaves_refl _ s).bind out _
  | viewBuffer out hb hv => exact (leaves_refl _ s).bind out _
  | @contiguous _ a v cells out ha hm =>
    let _element := as.element
    obtain ⟨-,-,rfl⟩ | ⟨-,hg⟩ := Snapshot.gains_of_asContiguous hm
    · rw [(State.array_eq_ok ha).1]
      exact (leaves_refl _ s).bind out _
    · rw [(State.array_eq_ok ha).1] at hg
      exact (leaves_cells _ hg.toExtends).bind out _
  | buffer xs out => exact (leaves_cells _ (s.cells.extends_alloc xs)).bind out _
  | bufferFilled length x out => exact (leaves_cells _ (s.cells.extends_alloc _)).bind out _
  | bufferOf out ha => exact (leaves_refl _ s).bind out _
  | @write _ a _ _ ha hw =>
    let _element := as.element
    have htouches := (Writing.inPlace_work as s _ _ _ hw).touches
    exact ⟨(htouches s.cells).framed fun c hc => ⟨a,ha,rfl,hc⟩,Heap.Framed.refl _ _⟩
  | @writeTruth _ _ m a hm ha =>
    have htouches := m.view.touches_mapInto (fun x => .ok (isTruthy as x)) (.elsewhere a)
    exact ⟨Heap.Framed.refl _ _,(htouches s.masks).framed fun c hc => ⟨m,hm,rfl,hc⟩⟩
  | @writeCell _ b cell x hb =>
    have htouches : (Update.write b cell x).Touches b (· = cell) :=
      Update.touches_write (P := (· = cell)) rfl x
    exact ⟨(htouches s.cells).framed fun c hc => ⟨hb,hc⟩,Heap.Framed.refl _ _⟩
  | drop name => exact ⟨Heap.Framed.refl _ _,Heap.Framed.refl _ _⟩
  | query asked => exact leaves_refl _ s

theorem GivesUp.leaves {step : Step α} (h : GivesUp as s step t) : step.Leaves s t := by
  cases h with
  | fresh out hw => exact leaves_cells _ (Fresh.builds_work as s _ _ hw s.cells).1

theorem run_leaves (as : Abilities α) (s : State α) (step : Step α) : step.Leaves s (step.run as s).2 := by
  rcases step.run_effect as s with he | he | hg
  · rw [he]
    exact leaves_refl step s
  · exact he.leaves
  · exact hg.leaves

end Step

/-- The step of the invariant: buffers only come, and the buffer of a new register is there. -/
theorem State.Grounded.bind {u : State α} {step : Step α} {out : Option String} {r : Register} (hs : s.Grounded)
    (hl : step.Leaves s (u.bind out r)) (hu : u.registers = s.registers) (hr : u.Names r) :
    (u.bind out r).Grounded := by
  intro entry he
  rcases mem_registers_bind he with hm | rfl
  · rw [hu] at hm
    exact (hs entry hm).grow hl.cells.size_le hl.masks.size_le
  · exact hr.grow (by simp) (by simp)

namespace Step

theorem Effect.grounded {step : Step α} (h : Effect as s step t) (hs : s.Grounded) : t.Grounded := by
  have hl := h.leaves
  cases h with
  | fresh out hw hr => exact hs.bind hl rfl (Fresh.gains_of_work hw hr).buffer_lt
  | freshMask out hb => exact hs.bind hl rfl (Heap.fst_alloc_lt _ _)
  | view out ha hv => exact hs.bind hl rfl ((View.buffer_of_take hv).trans_lt (hs.array ha).2)
  | viewMask out hm hv => exact hs.bind hl rfl ((View.buffer_of_take hv).trans_lt (hs.mask hm).2)
  | viewBuffer out hb hv => exact hs.bind hl rfl ((View.ofBuffer_eq_ok hv).1.trans_lt (hs.bufferNamed hb))
  | contiguous out ha hm =>
    let _element := as.element
    refine hs.bind hl rfl ?_
    obtain ⟨-,rfl,rfl⟩ | ⟨-,hg⟩ := Snapshot.gains_of_asContiguous hm
    · rw [(hs.array ha).1]
      exact (hs.array ha).2
    · exact hg.buffer_lt
  | buffer xs out => exact hs.bind hl rfl (Heap.fst_alloc_lt _ _)
  | bufferFilled length x out => exact hs.bind hl rfl (Heap.fst_alloc_lt _ _)
  | bufferOf out ha => exact hs.bind hl rfl (hs.array ha).2
  | write ha hw => exact fun entry he => (hs entry he).grow hl.cells.size_le hl.masks.size_le
  | writeTruth hm ha => exact fun entry he => (hs entry he).grow hl.cells.size_le hl.masks.size_le
  | writeCell cell x hb => exact fun entry he => (hs entry he).grow hl.cells.size_le hl.masks.size_le
  | drop name => exact fun entry he => hs entry (List.mem_filter.1 he).1
  | query asked => exact hs

theorem GivesUp.grounded {step : Step α} (h : GivesUp as s step t) (hs : s.Grounded) : t.Grounded := by
  have hl := h.leaves
  cases h with
  | fresh out hw => exact fun entry he => (hs entry he).grow hl.cells.size_le hl.masks.size_le

theorem run_grounded (step : Step α) (hs : s.Grounded) : (step.run as s).2.Grounded := by
  rcases step.run_effect as s with he | he | hg
  · rwa [he]
  · exact he.grounded hs
  · exact hg.grounded hs

theorem Effect.gains {made : Fresh α} {name : String} (h : Effect as s (.fresh made (some name)) t) (hs : s.Grounded) :
    ∃ v, t.array name = .ok ⟨t.cells,v⟩ ∧ s.cells.Gains v t.cells ∧
      (0 < as.element.width → ∃ b, made.make as s = .ok b ∧ t.cells.Holds v b) := by
  cases h with
  | fresh _ hw hr =>
    exact ⟨_,State.array_bind _ _ _,Fresh.gains_of_work hw hr,fun hpos => Fresh.holds_of_work hs hpos hw hr⟩

theorem Effect.gainsMask {made : FreshMask} {name : String} (h : Effect as s (.freshMask made (some name)) t) :
    ∃ v, t.mask name = .ok ⟨t.masks,v⟩ ∧ s.masks.Gains v t.masks := by
  cases h with
  | @freshMask _ b _ hb =>
    have hg := Heap.gains_place (FreshMask.ensures_make as s made b hb) s.masks
    exact ⟨_,State.mask_bind _ _ _,hg⟩

theorem Effect.looks {source name : String} {outlook : Outlook}
    (h : Effect as s (.view source outlook (some name)) t) :
    ∃ v w, s.array source = .ok ⟨s.cells,v⟩ ∧ t.array name = .ok ⟨t.cells,w⟩ ∧ w.buffer = v.buffer := by
  cases h with
  | @view _ a _ w _ ha hv =>
    obtain ⟨heap,v⟩ := a
    obtain rfl : heap = s.cells := (State.array_eq_ok ha).1
    exact ⟨v,w,ha,State.array_bind _ _ _,View.buffer_of_take hv⟩

theorem Effect.looksMask {source name : String} {outlook : Outlook}
    (h : Effect as s (.viewMask source outlook (some name)) t) :
    ∃ v w, s.mask source = .ok ⟨s.masks,v⟩ ∧ t.mask name = .ok ⟨t.masks,w⟩ ∧ w.buffer = v.buffer := by
  cases h with
  | @viewMask _ m _ w _ hm hv =>
    obtain ⟨heap,v⟩ := m
    obtain rfl : heap = s.masks := (State.mask_eq_ok hm).1
    exact ⟨v,w,hm,State.mask_bind _ _ _,View.buffer_of_take hv⟩

theorem Effect.viewsBuffer {source name : String} {dims : Shape} {strides : List Int} {offset : Nat}
    (h : Effect as s (.viewBuffer source dims strides offset (some name)) t) :
    ∃ b w, s.bufferNamed source = .ok b ∧ t.array name = .ok ⟨t.cells,w⟩ ∧ w.buffer = b := by
  cases h with
  | viewBuffer _ hb hv => exact ⟨_,_,hb,State.array_bind _ _ _,(View.ofBuffer_eq_ok hv).1⟩

theorem Effect.contiguous_buffer {source name : String} (h : Effect as s (.contiguous source (some name)) t)
    (hs : s.Grounded) : ∃ v w, s.array source = .ok ⟨s.cells,v⟩ ∧ t.array name = .ok ⟨t.cells,w⟩ ∧
      (w.buffer = v.buffer ↔ v.isContiguous = true) ∧ (v.isContiguous = false → s.cells.Gains w t.cells) := by
  cases h with
  | @contiguous _ a w cells _ ha hm =>
    let _element := as.element
    obtain ⟨heap,v⟩ := a
    obtain ⟨rfl,hlt⟩ : heap = s.cells ∧ v.buffer < s.cells.buffers.size := hs.array ha
    exact ⟨v,w,ha,State.array_bind _ _ _,Snapshot.buffer_of_asContiguous hlt hm⟩

end Step

def Reached (as : Abilities α) : List (Step α) → State α → Nat → Nat → Prop
  | [], _, _, _ => False
  | step :: steps, s, b, c => step.Reaches s b c ∨ Reached as steps (step.run as s).2 b c

def ReachedMask (as : Abilities α) : List (Step α) → State α → Nat → Nat → Prop
  | [], _, _, _ => False
  | step :: steps, s, b, c => step.ReachesMask s b c ∨ ReachedMask as steps (step.run as s).2 b c

theorem run_framed (as : Abilities α) (steps : List (Step α)) (s : State α) :
    s.cells.Framed (Reached as steps s) (run as steps s).2.cells ∧
      s.masks.Framed (ReachedMask as steps s) (run as steps s).2.masks := by
  induction steps generalizing s with
  | nil => exact ⟨Heap.Framed.refl _ _,Heap.Framed.refl _ _⟩
  | cons step steps ih =>
    have hstep := step.run_leaves as s
    have hrest := ih (step.run as s).2
    exact ⟨hstep.cells.trans hrest.1,hstep.masks.trans hrest.2⟩

theorem run_grounded (as : Abilities α) (steps : List (Step α)) (hs : s.Grounded) :
    (run as steps s).2.Grounded := by
  induction steps generalizing s with
  | nil => exact hs
  | cons step steps ih => exact ih (step.run_grounded hs)

theorem seesSame_of_run {steps : List (Step α)} {v : View} (hb : v.buffer < s.cells.buffers.size)
    (hr : ∀ c, ¬ Reached as steps s v.buffer c) : v.SeesSame s.cells (run as steps s).2.cells :=
  View.seesSame_of_cells_eq ((run_framed as steps s).1.cells_eq hb hr)

theorem seesSame_of_run_mask {steps : List (Step α)} {v : View} (hb : v.buffer < s.masks.buffers.size)
    (hr : ∀ c, ¬ ReachedMask as steps s v.buffer c) : v.SeesSame s.masks (run as steps s).2.masks :=
  View.seesSame_of_cells_eq ((run_framed as steps s).2.cells_eq hb hr)

/-- What calls do to the buffers of a state, and whose buffers the arrays are in that they return. -/
structure Owned (as : Abilities α) (s : State α) : Prop where
  /-- A write in place changes only what its destination addresses, whatever is written and wherever it stops. -/
  inPlace : ∀ {β : Type} [Element β] {v : View} {u : Update β Unit}, v.InPlace u → u.Touches v.buffer v.Addresses
  /-- Of a view that is inside its buffer, the cells that it addresses are those at its exact addresses. -/
  addresses : ∀ {v : View} {length : Nat}, v.Inside length → (length : Int) ≤ Address.maxSigned → ∀ cell : Nat,
    v.Addresses cell ↔ ∃ index, v.dims.Contains index ∧ v.address index = cell
  /-- A step that writes changes nothing else, and all other steps change nothing that is there. -/
  step : ∀ step : Step α, step.Leaves s (step.run as s).2
  run : ∀ steps, s.cells.Framed (Reached as steps s) (run as steps s).2.cells ∧
    s.masks.Framed (ReachedMask as steps s) (run as steps s).2.masks
  /-- What is made afresh has a buffer of its own, in which there is what is computed from the state. -/
  fresh : ∀ made name, Ensures (fun p => ∃ v, p.2.array name = .ok ⟨p.2.cells,v⟩ ∧ s.cells.Gains v p.2.cells ∧
    (0 < as.element.width → ∃ b, made.make as s = .ok b ∧ p.2.cells.Holds v b))
    ((Step.fresh made (some name)).attempt as s).1
  realizes : 0 < as.element.width → ∀ made : Fresh α, Fresh.Realizes s.cells (made.work as s) (made.make as s)
  freshMask : ∀ made name, Ensures (fun p => ∃ v, p.2.mask name = .ok ⟨p.2.masks,v⟩ ∧ s.masks.Gains v p.2.masks)
    ((Step.freshMask made (some name)).attempt as s).1
  makes : ∀ {δ : Type} [Element δ] {u : Update δ View}, u.Makes → ∀ h : Heap δ,
    h.Extends (u h).2 ∧ ∀ v, (u h).1 = .ok v → h.Gains v (u h).2
  /-- What is written to one buffer is not seen in another. -/
  apart : ∀ {β : Type} [Element β] {v w : View} {u : Update β Unit}, v.InPlace u → w.buffer ≠ v.buffer →
    ∀ h, w.SeesSame h (u h).2
  unseen : ∀ steps, ∀ v : View, v.buffer < s.cells.buffers.size → (∀ c, ¬ Reached as steps s v.buffer c) →
    v.SeesSame s.cells (Session.run as steps s).2.cells
  unseenMask : ∀ steps, ∀ v : View, v.buffer < s.masks.buffers.size →
    (∀ c, ¬ ReachedMask as steps s v.buffer c) → v.SeesSame s.masks (Session.run as steps s).2.masks
  /-- Another look at an array stays in its buffer. -/
  looks : ∀ {v w : View}, v.Looks w → w.buffer = v.buffer
  view : ∀ source outlook name, Ensures (fun p => ∃ v w, s.array source = .ok ⟨s.cells,v⟩ ∧
    p.2.array name = .ok ⟨p.2.cells,w⟩ ∧ w.buffer = v.buffer)
    ((Step.view source outlook (some name)).attempt as s).1
  viewMask : ∀ source outlook name, Ensures (fun p => ∃ v w, s.mask source = .ok ⟨s.masks,v⟩ ∧
    p.2.mask name = .ok ⟨p.2.masks,w⟩ ∧ w.buffer = v.buffer)
    ((Step.viewMask source outlook (some name)).attempt as s).1
  ofBuffer : ∀ {buffer length offset : Nat} {dims : Shape} {strides : List Int} {w : View},
    View.ofBuffer buffer length dims strides offset = .ok w → w.buffer = buffer
  viewBuffer : ∀ source dims strides offset name, Ensures (fun p => ∃ b w, s.bufferNamed source = .ok b ∧
    p.2.array name = .ok ⟨p.2.cells,w⟩ ∧ w.buffer = b)
    ((Step.viewBuffer source dims strides offset (some name)).attempt as s).1
  /-- A contiguous array is left in its buffer, and only such an array. -/
  asContiguous : ∀ {β : Type} [Element β] {a : Snapshot β} {w : View} {cells : Heap β},
    a.view.buffer < a.heap.buffers.size → a.asContiguous = .ok (w,cells) →
    (w.buffer = a.view.buffer ↔ a.view.isContiguous = true) ∧ (a.view.isContiguous = false → a.heap.Gains w cells)
  contiguous : ∀ source name, Ensures (fun p => ∃ v w, s.array source = .ok ⟨s.cells,v⟩ ∧
    p.2.array name = .ok ⟨p.2.cells,w⟩ ∧ (w.buffer = v.buffer ↔ v.isContiguous = true) ∧
    (v.isContiguous = false → s.cells.Gains w p.2.cells))
    ((Step.contiguous source (some name)).attempt as s).1

theorem owned_of_grounded (as : Abilities α) (hs : s.Grounded) : Owned as s where
  inPlace hu := hu.touches
  addresses hv hn _ := hv.addresses_iff hn
  step step := step.run_leaves as s
  run steps := run_framed as steps s
  fresh _ _ p hp := ((Step.attempt_effect as s _).1 p hp).gains hs
  realizes hw made := Fresh.realizes_work hs hw made
  freshMask _ _ p hp := ((Step.attempt_effect as s _).1 p hp).gainsMask
  makes hu := hu.builds
  apart hu hb h := hu.seesSame hb h
  unseen _ _ hb hr := seesSame_of_run hb hr
  unseenMask _ _ hb hr := seesSame_of_run_mask hb hr
  looks hl := hl.buffer_eq
  view _ _ _ p hp := ((Step.attempt_effect as s _).1 p hp).looks
  viewMask _ _ _ p hp := ((Step.attempt_effect as s _).1 p hp).looksMask
  ofBuffer hw := (View.ofBuffer_eq_ok hw).1
  viewBuffer _ _ _ _ _ p hp := ((Step.attempt_effect as s _).1 p hp).viewsBuffer
  asContiguous hb hm := Snapshot.buffer_of_asContiguous hb hm
  contiguous _ _ p hp := ((Step.attempt_effect as s _).1 p hp).contiguous_buffer hs

/-- A session leads to states in which every register names a buffer that is there, and of such states all this holds.
Whatever is written through a fresh array is therefore never seen in an older one, nor the other way round. -/
theorem run_owned (as : Abilities α) : (∀ steps : List (Step α), (run as steps State.initial).2.Grounded) ∧
    ∀ s : State α, s.Grounded → Owned as s := by
  have hinitial : (State.initial : State α).Grounded := fun entry he => absurd he (by simp [State.initial])
  exact ⟨fun steps => run_grounded as steps hinitial,fun s hs => owned_of_grounded as hs⟩

/-- The rows are folded into an array of which no cell is one of theirs, so whoever fills it is not seen through a view
of those. -/
theorem zigzags_owned : zigzags.Grounded ∧ ∃ p v,
    ((Step.fresh (.reduceAxis .max "rows" 0) (some "most")).attempt .ofBool zigzags).1 = .ok p ∧
      p.2.array "most" = .ok ⟨p.2.cells,v⟩ ∧ zigzags.cells.Gains v p.2.cells ∧
      (∃ b, Fresh.make .ofBool zigzags (.reduceAxis .max "rows" 0) = .ok b ∧ p.2.cells.Holds v b) ∧
      ∀ w : View, w.buffer = 0 → w.SeesSame p.2.cells (v.fill true p.2.cells).2 := by
  have hs : zigzags.Grounded := by simp [State.Grounded,State.Names,zigzags]
  have howned := (run_owned .ofBool).2 zigzags hs
  obtain ⟨p,hp⟩ : ∃ p, ((Step.fresh (.reduceAxis .max "rows" 0) (some "most")).attempt .ofBool zigzags).1 = .ok p :=
    ⟨_,rfl⟩
  obtain ⟨v,hv,hg,hh⟩ := howned.fresh (.reduceAxis .max "rows" 0) "most" p hp
  have hb : zigzags.cells.buffers.size ≤ v.buffer := hg.size_le_buffer
  have happart (w : View) (hw : w.buffer = 0) : w.SeesSame p.2.cells (v.fill true p.2.cells).2 :=
    howned.apart (.fill true) (by rw [hw]; exact Nat.ne_of_lt hb) p.2.cells
  exact ⟨hs,p,v,hp,hv,hg,hh (by decide),happart⟩

end Session

end Strided
