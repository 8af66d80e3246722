import Strided.Proofs.Visited
import Strided.Session

set_option autoImplicit false

namespace Strided

variable {α β γ : Type}

namespace Heap

structure SameBut (buffer : Nat) (h h' : Heap α) : Prop where
  size_eq : h'.buffers.size = h.buffers.size
  length_eq : ∀ b, h'.length b = h.length b
  cells_eq : ∀ b, b ≠ buffer → h'.cells b = h.cells b

theorem SameBut.refl (buffer : Nat) (h : Heap α) : h.SameBut buffer h := ⟨rfl,fun _ => rfl,fun _ _ => rfl⟩

theorem SameBut.trans {buffer : Nat} {h h' h'' : Heap α} (h1 : h.SameBut buffer h') (h2 : h'.SameBut buffer h'') :
    h.SameBut buffer h'' where
  size_eq := h2.size_eq.trans h1.size_eq
  length_eq b := (h2.length_eq b).trans (h1.length_eq b)
  cells_eq b hb := (h2.cells_eq b hb).trans (h1.cells_eq b hb)

theorem cells_put (h : Heap α) (buffer cell : Nat) (x : α) (b : Nat) :
    (h.put buffer cell x).cells b = if b = buffer then (h.cells b).setIfInBounds cell x else h.cells b := by
  simp only [cells,put,Array.getElem?_modify]
  by_cases hb : b = buffer
  · subst hb
    cases hc : h.buffers[b]? <;> simp
  · simp [hb,Ne.symm hb]

theorem sameBut_put (h : Heap α) (buffer cell : Nat) (x : α) : h.SameBut buffer (h.put buffer cell x) where
  size_eq := by simp [put]
  length_eq b := by
    by_cases hb : b = buffer <;> simp [length,cells_put,hb]
  cells_eq b hb := by simp [cells_put,hb]

theorem getElem?_buffers (h : Heap α) (b : Nat) :
    h.buffers[b]? = if b < h.buffers.size then some (h.cells b) else none := by
  by_cases hb : b < h.buffers.size <;> simp [cells,hb]

theorem SameBut.eq_of_cells_eq {buffer : Nat} {h h' h'' : Heap α} (h1 : h.SameBut buffer h')
    (h2 : h.SameBut buffer h'') (hc : h'.cells buffer = h''.cells buffer) : h' = h'' := by
  have hb : h'.buffers = h''.buffers := by
    refine Array.ext_getElem? fun b => ?_
    have hcells : h'.cells b = h''.cells b := by
      by_cases hb : b = buffer
      · rw [hb,hc]
      · rw [h1.cells_eq b hb,h2.cells_eq b hb]
    rw [getElem?_buffers,getElem?_buffers,h1.size_eq,h2.size_eq,hcells]
  cases h'
  cases h''
  exact congrArg Heap.mk hb

/-- The second heap is the first one up to some cells of one buffer. -/
structure SameOutside (buffer : Nat) (P : Nat → Prop) (h h' : Heap α) : Prop extends h.SameBut buffer h' where
  cell_eq : ∀ c, ¬ P c → (h'.cells buffer)[c]? = (h.cells buffer)[c]?

theorem SameOutside.refl (buffer : Nat) (P : Nat → Prop) (h : Heap α) : h.SameOutside buffer P h :=
  ⟨SameBut.refl buffer h,fun _ _ => rfl⟩

theorem SameOutside.trans {buffer : Nat} {P : Nat → Prop} {h h' h'' : Heap α} (h1 : h.SameOutside buffer P h')
    (h2 : h'.SameOutside buffer P h'') : h.SameOutside buffer P h'' :=
  ⟨h1.toSameBut.trans h2.toSameBut,fun c hc => (h2.cell_eq c hc).trans (h1.cell_eq c hc)⟩

theorem sameOutside_put (h : Heap α) (buffer : Nat) {P : Nat → Prop} {cell : Nat} (hc : P cell) (x : α) :
    h.SameOutside buffer P (h.put buffer cell x) := by
  refine ⟨h.sameBut_put buffer cell x,fun c hn => ?_⟩
  rw [cells_put,if_pos rfl]
  exact Array.getElem?_setIfInBounds_ne fun he : cell = c => hn (he ▸ hc)

theorem cells_alloc (h : Heap α) (xs : List α) (b : Nat) :
    (h.alloc xs).2.cells b = if b = (h.alloc xs).1 then xs.toArray else h.cells b := by
  simp only [cells,alloc,Array.getElem?_push]
  by_cases hb : b = h.buffers.size <;> simp [hb]

theorem length_le_alloc (h : Heap α) (xs : List α) (b : Nat) : h.length b ≤ (h.alloc xs).2.length b := by
  rw [length,length,cells_alloc]
  by_cases hb : b = (h.alloc xs).1
  · have hn : h.cells b = #[] := by simp [hb,cells,alloc]
    simp [hn]
  · simp [hb]

theorem length_alloc (h : Heap α) (xs : List α) : (h.alloc xs).2.length (h.alloc xs).1 = xs.length := by
  simp [length,cells_alloc]

end Heap

namespace Update

/-- Nothing but such cells of one buffer is changed, and no length, whether or not there is a fault. -/
def Touches (buffer : Nat) (P : Nat → Prop) (u : Update α β) : Prop := ∀ h : Heap α, h.SameOutside buffer P (u h).2

variable {buffer : Nat} {P : Nat → Prop}

theorem touches_ofResult (r : Result β) : (ofResult (α := α) r).Touches buffer P := Heap.SameOutside.refl buffer P

theorem touches_read (source cell : Nat) : (read (α := α) source cell).Touches buffer P :=
  Heap.SameOutside.refl buffer P

theorem touches_write {cell : Nat} (hc : P cell) (x : α) : (write buffer cell x).Touches buffer P := by
  intro h
  unfold write
  by_cases hl : cell < h.length buffer
  · simp only [hl,↓reduceIte]
    exact h.sameOutside_put buffer hc x
  · simp only [hl,↓reduceIte]
    exact Heap.SameOutside.refl buffer P h

/-- A fault keeps what was written before it. -/
theorem bind_apply (u : Update α β) (f : β → Update α γ) (h : Heap α) :
    (u >>= f) h = match u h with
      | (.ok x,h') => f x h'
      | (.error cause,h') => (.error cause,h') := by
  show (ExceptT.bind u f) h = _
  simp only [ExceptT.bind,ExceptT.mk,ExceptT.bindCont,Bind.bind,StateT.bind]
  rcases u h with ⟨_ | _,_⟩ <;> rfl

theorem Touches.bind {u : Update α β} {f : β → Update α γ} (hu : u.Touches buffer P)
    (hf : ∀ x, (f x).Touches buffer P) : (u >>= f).Touches buffer P := by
  intro h
  have h1 := hu h
  rw [bind_apply]
  rcases hr : u h with ⟨_ | x,h'⟩
  · rwa [hr] at h1
  · rw [hr] at h1
    exact h1.trans (hf x h')

theorem touches_bind {r : Result β} {f : β → Update α γ} (h : ∀ x, r = .ok x → (f x).Touches buffer P) :
    (ofResult r >>= f).Touches buffer P := by
  intro heap
  rw [bind_apply]
  cases r with
  | error cause => exact Heap.SameOutside.refl buffer P heap
  | ok x => exact h x rfl heap

end Update

namespace View

open Update

variable {buffer : Nat} {P : Nat → Prop}

theorem touches_perform {s : Steps (Update α Unit)} (h : Steps.Forall (Touches buffer P) s) :
    Touches buffer P (perform s) := by
  induction s with
  | done => exact Heap.SameOutside.refl buffer P
  | fault cause => exact Heap.SameOutside.refl buffer P
  | next work rest ih =>
    intro heap
    have h1 := h.1 heap
    unfold perform
    rcases hr : work heap with ⟨_ | _,heap'⟩
    · rw [hr] at h1
      exact h1
    · rw [hr] at h1
      exact h1.trans (ih () h.2 heap')

theorem forall_eachCell {v : View} {work : Nat → Update α β}
    (h : ∀ cell, v.Addresses cell → (work cell).Touches buffer P) :
    Ensures (fun w => Steps.Forall (Touches buffer P) w.steps) (v.eachCell work) :=
  ensures_bind fun _ ho => ensures_ok ((forall_walk_offsets ho).map fun cell hc => ensures_ok (h cell hc))

theorem forall_reads {v : View} {f : α → Result β} :
    Ensures (fun w => Steps.Forall (Touches buffer P) w.steps) (v.reads f) :=
  forall_eachCell fun cell _ => (touches_read v.buffer cell).bind fun x => touches_ofResult (f x)

end View

theorem Operand.forall_reads {buffer : Nat} {P : Nat → Prop} (o : Operand α β) {f : β → Result γ} :
    Ensures (fun w => Steps.Forall (Update.Touches buffer P) w.steps) (o.reads f) := by
  cases o with
  | here v => exact View.forall_reads
  | elsewhere s =>
    exact ensures_bind fun w _ => ensures_ok ((Steps.forall_true _).map fun x _ =>
      ensures_ok (Update.touches_ofResult (f x)))

namespace View

open Update

variable {buffer : Nat} {P : Nat → Prop}

theorem forall_yields (w : Walk α) : Steps.Forall (Touches buffer P) (yields w).steps :=
  (Steps.forall_true _).map fun x _ => ensures_ok (touches_ofResult (.ok x))

variable (v : View)

theorem touches_assignEach {sources : Walk (Update α α)}
    (h : Steps.Forall (Touches v.buffer v.Addresses) sources.steps) :
    Touches v.buffer v.Addresses (v.assignEach sources) := by
  refine touches_bind fun size _ => ?_
  by_cases hn : sources.length = size
  · simp only [hn,ne_eq,not_true_eq_false,↓reduceIte]
    refine touches_bind fun o ho => touches_perform ?_
    exact (forall_walk_offsets ho).zipWith h fun cell source hc hs =>
      ensures_ok (hs.bind fun x => touches_write hc x)
  · simp only [hn,ne_eq,not_false_eq_true,↓reduceIte]
    exact touches_ofResult _

theorem touches_assign (xs : List α) : Touches v.buffer v.Addresses (v.assign xs) :=
  v.touches_assignEach (forall_yields _)

theorem touches_assign_of (xs : Heap α → Result (List α)) :
    Touches v.buffer v.Addresses ((fun h => (xs h,h) : Update α (List α)) >>= v.assign) :=
  Touches.bind (fun h => Heap.SameOutside.refl v.buffer v.Addresses h) v.touches_assign

theorem touches_fill (x : α) : Touches v.buffer v.Addresses (v.fill x) :=
  touches_bind fun w hw => touches_perform (forall_eachCell (fun _ hc => touches_write hc x) w hw)

theorem touches_set (index : List Nat) (x : α) : Touches v.buffer v.Addresses (v.set index x) :=
  touches_bind fun _ hc => touches_write (addresses_of_cellOf hc) x

theorem touches_setPromised (index : List Nat) (x : α) : Touches v.buffer v.Addresses (v.setPromised index x) :=
  v.touches_set index x

theorem touches_copyRun (source : View) {n : Nat} (hc : v.isContiguous = true) (hn : v.size = .ok n) :
    Touches (α := α) v.buffer v.Addresses (v.copyRun source n) := by
  have hvol : n = v.dims.volume := Shape.size_eq_volume hn
  have hle := Shape.le_maxUnsigned_of_size hn
  refine touches_perform (Steps.forall_tabulate fun i hi => ensures_ok ?_)
  refine touches_bind fun cell hcell => touches_bind fun origin _ =>
    (touches_read source.buffer origin).bind fun x => touches_write ?_ x
  unfold Address.addCount at hcell
  split at hcell
  · rename_i hmax
    obtain rfl := Except.ok.inj hcell
    rw [← Address.unsigned_natCast hmax]
    refine addresses_of_isContiguous (hvol ▸ hle) hc (r := i) (by omega) ?_
    rw [Int.natCast_add]
  · cases hcell

theorem touches_copyInto [Element α] (source : View) : Touches (α := α) v.buffer v.Addresses (v.copyInto source) := by
  refine touches_bind fun _ _ => ?_
  by_cases hb : v.sharesBuffer source = true
  · simp only [hb,↓reduceIte]
    exact v.touches_assign_of _
  · simp only [hb,Bool.false_eq_true,↓reduceIte]
    by_cases hc : (v.isContiguous && source.isContiguous) = true
    · simp only [hc,↓reduceIte]
      exact touches_bind fun size hn => v.touches_copyRun source (Bool.and_eq_true_iff.1 hc).1 hn
    · simp only [hc,Bool.false_eq_true,↓reduceIte]
      exact touches_bind fun sources hs => v.touches_assignEach (forall_reads sources hs)

theorem touches_mapInto [Element α] (f : β → Result α) (source : Operand α β) :
    Touches v.buffer v.Addresses (mapInto f v source) := by
  refine touches_bind fun _ _ => ?_
  by_cases hb : (source.aliases v && !(v.layout == source.view.layout && v.offset == source.view.offset)) = true
  · simp only [hb,↓reduceIte]
    exact v.touches_assign_of _
  · simp only [hb,Bool.false_eq_true,↓reduceIte]
    exact touches_bind fun sources hs => v.touches_assignEach (source.forall_reads sources hs)

theorem touches_zipMapInto [Element α] (f : β → γ → Result α) (left : Operand α β) (right : Operand α γ) :
    Touches v.buffer v.Addresses (zipMapInto f v left right) := by
  refine touches_bind fun x _ => touches_bind fun y _ => ?_
  by_cases hb : (left.aliases v || right.aliases v) = true
  · simp only [hb,↓reduceIte]
    exact v.touches_assign_of _
  · simp only [hb,Bool.false_eq_true,↓reduceIte]
    refine touches_bind fun lefts hl => touches_bind fun rights hr => v.touches_assignEach ?_
    exact (Operand.forall_reads _ lefts hl).zipWith (Operand.forall_reads _ rights hr) fun left right hleft hright =>
      ensures_ok (hleft.bind fun a => hright.bind fun b => touches_ofResult (f a b))

/-- The writes in place through a view, with any functions of the elements. -/
inductive InPlace [Element α] (v : View) : Update α Unit → Prop
  | set (index : List Nat) (x : α) : InPlace v (v.set index x)
  | setPromised (index : List Nat) (x : α) : InPlace v (v.setPromised index x)
  | fill (x : α) : InPlace v (v.fill x)
  | assign (xs : List α) : InPlace v (v.assign xs)
  | copyInto (source : View) : InPlace v (v.copyInto source)
  | mapInto {β : Type} (f : β → Result α) (source : Operand α β) : InPlace v (mapInto f v source)
  | zipMapInto {β γ : Type} (f : β → γ → Result α) (left : Operand α β) (right : Operand α γ) :
      InPlace v (zipMapInto f v left right)

theorem InPlace.touches [Element α] {v : View} {u : Update α Unit} (h : v.InPlace u) :
    u.Touches v.buffer v.Addresses := by
  cases h with
  | set index x => exact v.touches_set index x
  | setPromised index x => exact v.touches_setPromised index x
  | fill x => exact v.touches_fill x
  | assign xs => exact v.touches_assign xs
  | copyInto source => exact v.touches_copyInto source
  | mapInto f source => exact v.touches_mapInto f source
  | zipMapInto f left right => exact v.touches_zipMapInto f left right

end View

theorem Session.Writing.inPlace_work (as : Abilities α) (s : Session.State α) (dest : View)
    (writing : Session.Writing α) : Ensures (@View.InPlace α as.element dest) (writing.work as s dest) := by
  let _element := as.element
  cases writing with
  | element index x promised =>
    refine ensures_ok ?_
    cases promised with
    | true => exact .setPromised index x
    | false => exact .set index x
  | fill x => exact ensures_ok (.fill x)
  | values xs => exact ensures_ok (.assign xs)
  | copy a => exact ensures_bind fun a _ => ensures_ok (.copyInto a.view)
  | map f a => exact ensures_bind fun f _ => ensures_bind fun a _ => ensures_ok (.mapInto f (.here a.view))
  | zipMap g a b =>
    exact ensures_bind fun g _ => ensures_bind fun a _ => ensures_bind fun b _ =>
      ensures_ok (.zipMapInto g (.here a.view) (.here b.view))

end Strided
