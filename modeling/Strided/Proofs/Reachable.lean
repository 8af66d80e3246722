import Strided.Proofs.Addresses
import Strided.Proofs.Bounds
import Strided.Proofs.Freshness

set_option autoImplicit false

/-!
Whole runs. Whatever operations have been applied, in whatever order, every array that is kept lies inside its
buffer. An operation is taken without the showing that a session does after it, so also arrays that cannot be shown
are covered.
-/
namespace Strided.Session

variable {α : Type} {as : Abilities α} {s t : State α}

namespace State

/-- An array or a mask that some register holds, with the length of its buffer. -/
inductive Keeps (s : State α) : View → Nat → Prop
  | array {name : String} {v : View} : (name,.array v) ∈ s.registers → Keeps s v (s.cells.length v.buffer)
  | mask {name : String} {v : View} : (name,.mask v) ∈ s.registers → Keeps s v (s.masks.length v.buffer)

def Addressable (s : State α) : Prop :=
  ∀ b, (s.cells.length b : Int) ≤ Address.maxSigned ∧ (s.masks.length b : Int) ≤ Address.maxSigned

def Grows (s t : State α) : Prop := ∀ b, s.cells.length b ≤ t.cells.length b ∧ s.masks.length b ≤ t.masks.length b

theorem Grows.refl (s : State α) : s.Grows s := fun _ => ⟨Nat.le_refl _,Nat.le_refl _⟩

theorem Grows.trans {u : State α} (h : s.Grows t) (h' : t.Grows u) : s.Grows u := fun b =>
  ⟨Nat.le_trans (h b).1 (h' b).1,Nat.le_trans (h b).2 (h' b).2⟩

theorem Grows.addressable (h : s.Grows t) (ht : t.Addressable) : s.Addressable := fun b =>
  ⟨Int.le_trans (Int.ofNat_le.2 (h b).1) (ht b).1,Int.le_trans (Int.ofNat_le.2 (h b).2) (ht b).2⟩

def Fits (s : State α) : Register → Prop
  | .array v => v.Inside (s.cells.length v.buffer)
  | .mask v => v.Inside (s.masks.length v.buffer)
  | .buffer _ => True

def Safe (s : State α) : Prop := ∀ entry ∈ s.registers, s.Fits entry.2

theorem Fits.grow {r : Register} (h : s.Fits r) (hg : s.Grows t) : t.Fits r := by
  cases r with
  | array v => exact View.Inside.mono h (hg v.buffer).1
  | mask v => exact View.Inside.mono h (hg v.buffer).2
  | buffer b => trivial

theorem mem_of_lookup {name : String} {r : Register} (h : s.lookup name = some r) : (name,r) ∈ s.registers := by
  obtain ⟨entry,he,rfl⟩ := Option.map_eq_some_iff.1 h
  obtain rfl : entry.1 = name := by simpa using List.find?_some he
  exact List.mem_of_find?_eq_some he

theorem array_eq_ok {name : String} {a : Snapshot α} (h : s.array name = .ok a) :
    a.heap = s.cells ∧ (name,.array a.view) ∈ s.registers := by
  unfold array at h
  split at h
  · rename_i v hv
    obtain rfl := Except.ok.inj h
    exact ⟨rfl,mem_of_lookup hv⟩
  · cases h

theorem mask_eq_ok {name : String} {a : Snapshot Bool} (h : s.mask name = .ok a) :
    a.heap = s.masks ∧ (name,.mask a.view) ∈ s.registers := by
  unfold mask at h
  split at h
  · rename_i v hv
    obtain rfl := Except.ok.inj h
    exact ⟨rfl,mem_of_lookup hv⟩
  · cases h

theorem mem_registers_bind {out : Option String} {r : Register} {entry : String × Register}
    (h : entry ∈ (s.bind out r).registers) : entry ∈ s.registers ∨ entry.2 = r := by
  cases out with
  | none => exact Or.inl h
  | some name =>
    rcases List.mem_append.1 h with h | h
    · exact Or.inl (List.mem_filter.1 h).1
    · exact Or.inr (by rw [List.mem_singleton.1 h])

theorem grows_bind (s : State α) (out : Option String) (r : Register) : s.Grows (s.bind out r) := by
  cases out with
  | none => exact Grows.refl s
  | some name => exact Grows.refl s

theorem grows_cells {cells : Heap α} (h : ∀ b, s.cells.length b ≤ cells.length b) :
    s.Grows { s with cells } :=
  fun b => ⟨h b,Nat.le_refl _⟩

theorem grows_masks {masks : Heap Bool} (h : ∀ b, s.masks.length b ≤ masks.length b) :
    s.Grows { s with masks } :=
  fun b => ⟨Nat.le_refl _,h b⟩

/-- The step of the invariant: buffers grow and a new register holds what it may. -/
theorem Safe.bind (hs : s.Safe) (hg : s.Grows t) (hr : t.registers = s.registers) {out : Option String}
    {r : Register} (h : t.Fits r) : (t.bind out r).Safe := by
  intro entry he
  have hb := t.grows_bind out r
  rcases mem_registers_bind he with hm | rfl
  · rw [hr] at hm
    exact ((hs entry hm).grow hg).grow hb
  · exact h.grow hb

end State

/-- What one operation does to the state. What an operation makes may be kept in a register. One that faults makes
nothing, but what a write has written before its fault stays written, and the buffers stay of an array that has been
underway. -/
inductive Move (as : Abilities α) (s : State α) : State α → Prop
  | fresh {made : Fresh α} {work : Update α View} {v : View} {cells : Heap α} (out : Option String) :
      made.work as s = .ok work → work s.cells = (.ok v,cells) →
      Move as s (({ s with cells } : State α).bind out (.array v))
  | underway {made : Fresh α} {work : Update α View} : made.work as s = .ok work →
      Move as s { s with cells := (work s.cells).2 }
  | freshMask {made : FreshMask} {b : Block Bool} (out : Option String) : made.make as s = .ok b →
      Move as s (({ s with masks := (s.masks.place b).2 } : State α).bind out (.mask (s.masks.place b).1))
  | look {name : String} {a : Snapshot α} {v : View} (out : Option String) : s.array name = .ok a → a.view.Looks v →
      Move as s (s.bind out (.array v))
  | lookMask {name : String} {a : Snapshot Bool} {v : View} (out : Option String) : s.mask name = .ok a →
      a.view.Looks v → Move as s (s.bind out (.mask v))
  | viewBuffer {name : String} {b offset : Nat} {dims : Shape} {strides : List Int} {v : View} (out : Option String) :
      s.bufferNamed name = .ok b → (∀ d ∈ dims, (d : Int) ≤ Address.maxSigned) →
      View.ofBuffer b (s.cells.length b) dims strides offset = .ok v → Move as s (s.bind out (.array v))
  | contiguous {name : String} {a : Snapshot α} {v : View} {cells : Heap α} (out : Option String) :
      s.array name = .ok a → @Snapshot.asContiguous α as.element a = .ok (v,cells) →
      Move as s (({ s with cells } : State α).bind out (.array v))
  | buffer (xs : List α) (out : Option String) :
      Move as s (({ s with cells := (s.cells.alloc xs).2 } : State α).bind out (.buffer (s.cells.alloc xs).1))
  | bufferOf {name : String} {a : Snapshot α} (out : Option String) : s.array name = .ok a →
      Move as s (s.bind out (.buffer a.view.buffer))
  | write {name : String} {a : Snapshot α} {writing : Writing α} {work : Update α Unit} : s.array name = .ok a →
      writing.work as s a.view = .ok work → Move as s { s with cells := (work s.cells).2 }
  | writeTruth {name source : String} {a : Snapshot α} {m : Snapshot Bool} : s.mask name = .ok m →
      s.array source = .ok a →
      Move as s { s with masks := (m.view.mapInto (fun x => .ok (isTruthy as x)) a s.masks).2 }
  | writeCell {name : String} {b : Nat} (cell : Nat) (x : α) : s.bufferNamed name = .ok b →
      Move as s { s with cells := (Update.write b cell x s.cells).2 }
  | drop (name : String) : Move as s (s.remove name)

/-- The states that operations lead to from the one in which nothing has been made. -/
inductive Reachable (as : Abilities α) : State α → Prop
  | initial : Reachable as State.initial
  | move {s t : State α} : Reachable as s → Move as s t → Reachable as t

theorem asContiguous_eq_ok [Element α] {a : Snapshot α} {v : View} {cells : Heap α}
    (h : a.asContiguous = .ok (v,cells)) :
    (v = a.view ∧ cells = a.heap) ∨ ∃ b : Block α, b.Filled ∧ v = (a.heap.place b).1 ∧ cells = (a.heap.place b).2 := by
  rcases Snapshot.asContiguous_cases h with ⟨-,h⟩ | ⟨-,b,-,hb,-,h⟩
  · exact Or.inl h
  · exact Or.inr ⟨b,hb,h⟩

theorem Move.grows (h : Move as s t) : s.Grows t := by
  cases h with
  | fresh out hw hr =>
    exact (State.grows_cells (Fresh.gains_of_work hw hr).length_le).trans (State.grows_bind _ _ _)
  | underway hw => exact State.grows_cells (Fresh.builds_work as s _ _ hw s.cells).1.length_le
  | freshMask out hm => exact (State.grows_masks (s.masks.length_le_alloc _)).trans (State.grows_bind _ _ _)
  | look out ha hl => exact s.grows_bind _ _
  | lookMask out ha hl => exact s.grows_bind _ _
  | viewBuffer out hb hd hv => exact s.grows_bind _ _
  | @contiguous _ a _ _ out ha hc =>
    let _element := as.element
    obtain ⟨hh,-⟩ := State.array_eq_ok ha
    refine (State.grows_cells fun b => ?_).trans (State.grows_bind _ _ _)
    obtain ⟨-,rfl⟩ | ⟨block,-,-,rfl⟩ := asContiguous_eq_ok hc
    · exact hh ▸ Nat.le_refl _
    · rw [← hh]
      exact a.heap.length_le_alloc block.data b
  | buffer xs out => exact (State.grows_cells (s.cells.length_le_alloc xs)).trans (State.grows_bind _ _ _)
  | bufferOf out hb => exact s.grows_bind _ _
  | write ha hw =>
    let _element := as.element
    have htouches := (Writing.inPlace_work as s _ _ _ hw).touches
    exact State.grows_cells fun b => Nat.le_of_eq ((htouches s.cells).length_eq b).symm
  | writeTruth hm ha =>
    exact State.grows_masks fun b => Nat.le_of_eq ((View.touches_mapInto _ _ _ s.masks).length_eq b).symm
  | @writeCell name buffer cell x hb =>
    have htouches : (Update.write buffer cell x).Touches buffer fun _ => True := Update.touches_write trivial x
    exact State.grows_cells fun b => Nat.le_of_eq ((htouches s.cells).length_eq b).symm
  | drop name => exact State.Grows.refl s

theorem Move.safe (h : Move as s t) (hs : s.Safe) (ht : t.Addressable) : t.Safe := by
  have hg := h.grows
  have hn := hg.addressable ht
  cases h with
  | @fresh made work v cells out hw hr =>
    have hg := Fresh.gains_of_work hw hr
    have hp := (State.grows_bind _ out _).addressable ht
    exact hs.bind (State.grows_cells hg.length_le) rfl (hg.inside (hp _).1)
  | underway hw => exact fun entry he => (hs entry he).grow hg
  | @freshMask made b out hm =>
    have hc := State.grows_masks (s.masks.length_le_alloc b.data)
    have hp := (State.grows_bind _ out _).addressable ht
    exact hs.bind hc rfl ((Heap.gains_place (FreshMask.ensures_make as s made b hm) s.masks).inside (hp _).2)
  | @look name a v out ha hl =>
    obtain ⟨-,hm⟩ := State.array_eq_ok ha
    have hv : a.view.Inside (s.cells.length a.view.buffer) := hs _ hm
    have hr := hl.reads hv (hn _).1
    refine hs.bind (State.Grows.refl s) rfl ?_
    show v.Inside (s.cells.length v.buffer)
    rw [hr.1]
    exact hr.inside hv
  | @lookMask name a v out ha hl =>
    obtain ⟨-,hm⟩ := State.mask_eq_ok ha
    have hv : a.view.Inside (s.masks.length a.view.buffer) := hs _ hm
    have hr := hl.reads hv (hn _).2
    refine hs.bind (State.Grows.refl s) rfl ?_
    show v.Inside (s.masks.length v.buffer)
    rw [hr.1]
    exact hr.inside hv
  | @viewBuffer name b offset dims strides v out hb hd hv =>
    obtain ⟨rfl,hi⟩ := View.inside_of_ofBuffer hd hv
    exact hs.bind (State.Grows.refl s) rfl hi
  | @contiguous name a v cells out ha hc =>
    let _element := as.element
    obtain ⟨hh,hm⟩ := State.array_eq_ok ha
    obtain ⟨rfl,rfl⟩ | ⟨b,hb,rfl,rfl⟩ := asContiguous_eq_ok hc
    · rw [hh] at ht ⊢
      exact hs.bind (State.Grows.refl s) rfl (hs _ hm)
    · rw [hh] at ht ⊢
      have hc := State.grows_cells (s.cells.length_le_alloc b.data)
      have hp := (State.grows_bind _ out _).addressable ht
      exact hs.bind hc rfl ((Heap.gains_place hb s.cells).inside (hp _).1)
  | buffer xs out => exact hs.bind (State.grows_cells (s.cells.length_le_alloc xs)) rfl trivial
  | bufferOf out hb => exact hs.bind (State.Grows.refl s) rfl trivial
  | write ha hw => exact fun entry he => (hs entry he).grow hg
  | writeTruth hm ha => exact fun entry he => (hs entry he).grow hg
  | writeCell cell x hb => exact fun entry he => (hs entry he).grow hg
  | drop name => exact fun entry he => hs entry (List.mem_filter.1 he).1

theorem lift_eq_ok {β : Type} {r : Result β} {x : β} (h : (liftM r : Attempt β) = .ok x) : r = .ok x := by
  cases r with
  | ok y => exact congrArg Except.ok (Except.ok.inj h)
  | error cause => cases h

theorem bindView_eq_ok [Element α] {v : View} {out : Option String} {p : Answer α × State α}
    (h : bindView s v out = .ok p) : p.2 = s.bind out (.array v) := by
  obtain ⟨_,_,h⟩ := bind_eq_ok.1 h
  rw [← Except.ok.inj h]

theorem bindMask_eq_ok {v : View} {out : Option String} {p : Answer α × State α} (h : bindMask s v out = .ok p) :
    p.2 = s.bind out (.mask v) := by
  obtain ⟨_,_,h⟩ := bind_eq_ok.1 h
  rw [← Except.ok.inj h]

namespace Step

/-- The state that a step leads to where it finishes. A write that has begun leads there even where it faults. -/
inductive Effect (as : Abilities α) (s : State α) : Step α → State α → Prop
  | fresh {made : Fresh α} {work : Update α View} {v : View} {cells : Heap α} (out : Option String) :
      made.work as s = .ok work → work s.cells = (.ok v,cells) →
      Effect as s (.fresh made out) (({ s with cells } : State α).bind out (.array v))
  | freshMask {made : FreshMask} {b : Block Bool} (out : Option String) : made.make as s = .ok b →
      Effect as s (.freshMask made out)
        (({ s with masks := (s.masks.place b).2 } : State α).bind out (.mask (s.masks.place b).1))
  | view {source : String} {a : Snapshot α} {outlook : Outlook} {v : View} (out : Option String) :
      s.array source = .ok a → outlook.take a.view = .ok v →
      Effect as s (.view source outlook out) (s.bind out (.array v))
  | viewMask {source : String} {m : Snapshot Bool} {outlook : Outlook} {v : View} (out : Option String) :
      s.mask source = .ok m → outlook.take m.view = .ok v →
      Effect as s (.viewMask source outlook out) (s.bind out (.mask v))
  | viewBuffer {source : String} {b offset : Nat} {dims : Shape} {strides : List Int} {v : View}
      (out : Option String) : s.bufferNamed source = .ok b →
      View.ofBuffer b (s.cells.length b) dims strides offset = .ok v →
      Effect as s (.viewBuffer source dims strides offset out) (s.bind out (.array v))
  | contiguous {source : String} {a : Snapshot α} {v : View} {cells : Heap α} (out : Option String) :
      s.array source = .ok a → @Snapshot.asContiguous α as.element a = .ok (v,cells) →
      Effect as s (.contiguous source out) (({ s with cells } : State α).bind out (.array v))
  | buffer (xs : List α) (out : Option String) :
      Effect as s (.buffer xs out)
        (({ s with cells := (s.cells.alloc xs).2 } : State α).bind out (.buffer (s.cells.alloc xs).1))
  | bufferFilled (length : Nat) (x : α) (out : Option String) :
      Effect as s (.bufferFilled length x out) (({ s with cells := (s.cells.alloc (List.replicate length x)).2 } :
        State α).bind out (.buffer (s.cells.alloc (List.replicate length x)).1))
  | bufferOf {source : String} {a : Snapshot α} (out : Option String) : s.array source = .ok a →
      Effect as s (.bufferOf source out) (s.bind out (.buffer a.view.buffer))
  | write {dest : String} {a : Snapshot α} {writing : Writing α} {work : Update α Unit} : s.array dest = .ok a →
      writing.work as s a.view = .ok work → Effect as s (.write dest writing) { s with cells := (work s.cells).2 }
  | writeTruth {dest source : String} {m : Snapshot Bool} {a : Snapshot α} : s.mask dest = .ok m →
      s.array source = .ok a → Effect as s (.writeTruth dest source)
        { s with masks := (m.view.mapInto (fun x => .ok (isTruthy as x)) a s.masks).2 }
  | writeCell {name : String} {b : Nat} (cell : Nat) (x : α) : s.bufferNamed name = .ok b →
      Effect as s (.writeCell name cell x) { s with cells := (Update.write b cell x s.cells).2 }
  | drop (name : String) : Effect as s (.drop name) (s.remove name)
  | query (asked : Query α) : Effect as s (.query asked) s

/-- The state that a step leaves which gives an array up that has been underway. -/
inductive GivesUp (as : Abilities α) (s : State α) : Step α → State α → Prop
  | fresh {made : Fresh α} {work : Update α View} (out : Option String) : made.work as s = .ok work →
      GivesUp as s (.fresh made out) { s with cells := (work s.cells).2 }

/-- The state after a step, whether it is the one that comes with an answer or the one that a fault leaves. -/
theorem attempt_effect (as : Abilities α) (s : State α) (step : Step α) :
    Ensures (fun p => Effect as s step p.2) (step.attempt as s).1 ∧
      ((step.attempt as s).2 = s ∨ Effect as s step (step.attempt as s).2 ∨ GivesUp as s step (step.attempt as s).2) := by
  let _element := as.element
  cases step with
  | fresh made out =>
    simp only [attempt]
    cases hw : made.work as s with
    | error o => exact ⟨ensures_error o,Or.inl rfl⟩
    | ok work =>
      refine ⟨ensures_bind fun v hv p hp => ?_,Or.inr (Or.inr (.fresh out hw))⟩
      rw [bindView_eq_ok hp]
      exact .fresh out hw (Prod.ext (lift_eq_ok hv) rfl)
  | freshMask made out =>
    refine ⟨ensures_bind fun b hb p hp => ?_,Or.inl rfl⟩
    rw [bindMask_eq_ok hp]
    exact .freshMask out hb
  | view a outlook out =>
    refine ⟨ensures_bind fun a ha => ensures_bind fun v hv p hp => ?_,Or.inl rfl⟩
    rw [bindView_eq_ok hp]
    exact .view out ha (lift_eq_ok hv)
  | viewMask mask outlook out =>
    refine ⟨ensures_bind fun a ha => ensures_bind fun v hv p hp => ?_,Or.inl rfl⟩
    rw [bindMask_eq_ok hp]
    exact .viewMask out ha (lift_eq_ok hv)
  | viewBuffer a dims strides offset out =>
    refine ⟨ensures_bind fun b hb => ensures_bind fun v hv p hp => ?_,Or.inl rfl⟩
    rw [bindView_eq_ok hp]
    exact .viewBuffer out hb (lift_eq_ok hv)
  | contiguous a out =>
    refine ⟨ensures_bind fun a ha => ensures_bind fun made hm p hp => ?_,Or.inl rfl⟩
    rw [bindView_eq_ok hp]
    exact .contiguous out ha (lift_eq_ok hm)
  | buffer data out => exact ⟨ensures_ok (.buffer data out),Or.inl rfl⟩
  | bufferFilled length x out => exact ⟨ensures_bind fun _ _ => ensures_ok (.bufferFilled length x out),Or.inl rfl⟩
  | bufferOf a out => exact ⟨ensures_bind fun a ha => ensures_ok (.bufferOf out ha),Or.inl rfl⟩
  | write dest writing =>
    simp only [attempt]
    split
    · exact ⟨ensures_error _,Or.inl rfl⟩
    · rename_i v work hw
      obtain ⟨d,hd,hw⟩ := bind_eq_ok.1 hw
      obtain ⟨work',hw',hw⟩ := bind_eq_ok.1 hw
      obtain ⟨rfl,rfl⟩ := Prod.mk.inj (Except.ok.inj hw)
      have he : Effect as s (.write dest writing) { s with cells := (work' s.cells).2 } := .write hd hw'
      exact ⟨ensures_bind fun _ _ => ensures_bind fun a _ => ensures_ok he,Or.inr (Or.inl he)⟩
  | writeTruth mask a =>
    simp only [attempt]
    split
    · exact ⟨ensures_error _,Or.inl rfl⟩
    · rename_i v source hw
      obtain ⟨m,hm,hw⟩ := bind_eq_ok.1 hw
      obtain ⟨a',ha,hw⟩ := bind_eq_ok.1 hw
      obtain ⟨rfl,rfl⟩ := Prod.mk.inj (Except.ok.inj hw)
      have he : Effect as s (.writeTruth mask a)
          { s with masks := (m.view.mapInto (fun x => .ok (isTruthy as x)) a' s.masks).2 } := .writeTruth hm ha
      exact ⟨ensures_bind fun _ _ => ensures_bind fun a _ => ensures_ok he,Or.inr (Or.inl he)⟩
  | writeCell a cell x =>
    simp only [attempt]
    cases hb : s.bufferNamed a with
    | error o => exact ⟨ensures_error o,Or.inl rfl⟩
    | ok b =>
      have he : Effect as s (.writeCell a cell x) { s with cells := (Update.write b cell x s.cells).2 } :=
        .writeCell cell x hb
      exact ⟨ensures_bind fun _ _ => ensures_ok he,Or.inr (Or.inl he)⟩
  | drop a => exact ⟨ensures_ok (.drop a),Or.inl rfl⟩
  | query asked => exact ⟨ensures_bind fun answer _ => ensures_ok (.query asked),Or.inl rfl⟩

theorem run_effect (as : Abilities α) (s : State α) (step : Step α) :
    (step.run as s).2 = s ∨ Effect as s step (step.run as s).2 ∨ GivesUp as s step (step.run as s).2 := by
  obtain ⟨h1,h2⟩ := step.attempt_effect as s
  unfold run
  split
  · rename_i answered t hr
    exact Or.inr (Or.inl (h1 answered (by rw [hr])))
  · rename_i o t hr
    rwa [hr] at h2

/-- A step that asks for a view of a buffer asks for extents that an address can count. -/
def Countable : Step α → Prop
  | .viewBuffer _ dims _ _ _ => ∀ d ∈ dims, (d : Int) ≤ Address.maxSigned
  | _ => True

theorem Effect.moves {step : Step α} (h : Effect as s step t) (hc : step.Countable) : t = s ∨ Move as s t := by
  cases h with
  | fresh out hw hr => exact Or.inr (.fresh out hw hr)
  | freshMask out hb => exact Or.inr (.freshMask out hb)
  | view out ha hv => exact Or.inr (.look out ha (.outlook hv))
  | viewMask out hm hv => exact Or.inr (.lookMask out hm (.outlook hv))
  | viewBuffer out hb hv => exact Or.inr (.viewBuffer out hb hc hv)
  | contiguous out ha hm => exact Or.inr (.contiguous out ha hm)
  | buffer xs out => exact Or.inr (.buffer xs out)
  | bufferFilled length x out => exact Or.inr (.buffer (List.replicate length x) out)
  | bufferOf out ha => exact Or.inr (.bufferOf out ha)
  | write ha hw => exact Or.inr (.write ha hw)
  | writeTruth hm ha => exact Or.inr (.writeTruth hm ha)
  | writeCell cell x hb => exact Or.inr (.writeCell cell x hb)
  | drop name => exact Or.inr (.drop name)
  | query asked => exact Or.inl rfl

theorem GivesUp.moves {step : Step α} (h : GivesUp as s step t) : Move as s t := by
  cases h with
  | fresh out hw => exact .underway hw

theorem run_moves (as : Abilities α) (s : State α) (step : Step α) (h : step.Countable) :
    (step.run as s).2 = s ∨ Move as s (step.run as s).2 := by
  rcases step.run_effect as s with he | he | hg
  · exact Or.inl he
  · exact he.moves h
  · exact Or.inr hg.moves

end Step

theorem Reachable.run {steps : List (Step α)} (h : Reachable as s) (hc : ∀ step ∈ steps, step.Countable) :
    Reachable as (run as steps s).2 := by
  induction steps generalizing s with
  | nil => exact h
  | cons step steps ih =>
    have hrest : ∀ step ∈ steps, step.Countable := fun step hm => hc step (by simp [hm])
    have hs : Reachable as (step.run as s).2 := by
      rcases step.run_moves as s (hc step (by simp)) with he | hm
      · rwa [he]
      · exact .move h hm
    exact ih hs hrest

/-- The invariant of a whole run. Buffers only grow, so a bound on them at its end holds all along. -/
theorem Reachable.safe (h : Reachable as s) (hs : s.Addressable) : s.Safe := by
  -- The bound on the buffers at the end is one on those of every state before.
  induction h with
  | initial => exact fun entry he => absurd he (by simp [State.initial])
  | move _ hm ih => exact hm.safe (ih (hm.grows.addressable hs)) hs

theorem State.Safe.inside (hs : s.Safe) {v : View} {length : Nat} (hv : s.Keeps v length) : v.Inside length := by
  cases hv with
  | array hm => exact hs _ hm
  | mask hm => exact hs _ hm

/-- Every array of every state that operations lead to has all its elements in its buffer, whatever is done to look
at it in other ways; and if it has no elements, nobody who looks at it sees any. -/
theorem Reachable.addresses_inside (h : Reachable as s) (hs : s.Addressable) {v w : View} {length : Nat}
    (hv : s.Keeps v length) (hw : Relation.ReflTransGen View.Looks v w) :
    w.buffer = v.buffer ∧ (∀ index, w.dims.Contains index → 0 ≤ w.address index ∧ w.address index < length) ∧
      (0 ∈ v.dims → 0 ∈ w.dims) := by
  have hn : (length : Int) ≤ Address.maxSigned := by
    cases hv with
    | array _ => exact (hs _).1
    | mask _ => exact (hs _).2
  have hi := (h.safe hs).inside hv
  have hr := View.reads_of_looks hw hi hn
  exact ⟨hr.1,hr.inside hi,hr.zero_mem⟩

def zigzags : State Bool where
  cells := ⟨#[#[true,false,true,true,false,true]]⟩
  masks := .empty
  registers := [("cells",.buffer 0),("rows",.array { buffer := 0, layout := ⟨[⟨2,1⟩,⟨3,-2⟩]⟩, offset := 4 }),
    ("bare",.array { buffer := 0, layout := ⟨[⟨0,1⟩,⟨3,-2⟩]⟩, offset := 0 })]

theorem zigzags_addresses_inside :
    Reachable .ofBool zigzags ∧ zigzags.Addressable ∧
      (∃ rows column : View, zigzags.Keeps rows 6 ∧ rows.slabAlong 1 2 = .ok column ∧ column.dims = [2] ∧
        ∀ i, i < 2 → 0 ≤ column.address [i] ∧ column.address [i] < 6) ∧
      ∃ bare column : View, zigzags.Keeps bare 6 ∧ bare.slabAlong 1 2 = .ok column ∧ 0 ∈ bare.dims ∧
        0 ∈ column.dims := by
  let rows : View := { buffer := 0, layout := ⟨[⟨2,1⟩,⟨3,-2⟩]⟩, offset := 4 }
  let bare : View := { buffer := 0, layout := ⟨[⟨0,1⟩,⟨3,-2⟩]⟩, offset := 0 }
  let s : State Bool := { zigzags with registers := [("cells",.buffer 0)] }
  let t : State Bool := { zigzags with registers := [("cells",.buffer 0),("rows",.array rows)] }
  have hs : Move .ofBool .initial s := .buffer [true,false,true,true,false,true] (some "cells")
  have hrows : View.ofBuffer 0 6 [2,3] [1,-2] 4 = .ok rows := by decide
  have ht : Move .ofBool s t := .viewBuffer (some "rows") (rfl : s.bufferNamed "cells" = .ok 0) (by decide) hrows
  have hbare : View.ofBuffer 0 6 [0,3] [1,-2] 0 = .ok bare := by decide
  have hz : Move .ofBool t zigzags :=
    .viewBuffer (some "bare") (rfl : t.bufferNamed "cells" = .ok 0) (by decide) hbare
  have hr : Reachable .ofBool zigzags := ((Reachable.initial.move hs).move ht).move hz
  have ha : zigzags.Addressable := by
    intro b
    cases b with
    | zero => decide
    | succ b => simp [zigzags,Heap.length,Heap.cells,Heap.empty,Address.maxSigned]
  have hkr : zigzags.Keeps rows 6 := .array (by decide : ("rows",.array rows) ∈ zigzags.registers)
  have hkb : zigzags.Keeps bare 6 := .array (by decide : ("bare",.array bare) ∈ zigzags.registers)
  have hcolumn : rows.slabAlong 1 2 = .ok { buffer := 0, layout := ⟨[⟨2,1⟩]⟩, offset := 0 } := by decide
  have hwild : bare.slabAlong 1 2 = .ok { buffer := 0, layout := ⟨[⟨0,1⟩]⟩, offset := 2^64-4 } := by decide
  have hlook {v w : View} (h : v.slabAlong 1 2 = .ok w) : Relation.ReflTransGen View.Looks v w := by
    have ho : (Outlook.slabAlong 1 2).take v = .ok w := h
    exact .single (.outlook ho)
  obtain ⟨-,hin,-⟩ := hr.addresses_inside ha hkr (hlook hcolumn)
  obtain ⟨-,-,hempty⟩ := hr.addresses_inside ha hkb (hlook hwild)
  exact ⟨hr,ha,⟨rows,_,hkr,hcolumn,rfl,fun i hi => hin [i] ⟨hi,trivial⟩⟩,
    bare,_,hkb,hwild,by decide,hempty (by decide)⟩

end Strided.Session
