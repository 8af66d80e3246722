import Strided.Proofs.Blocks
import Strided.Proofs.Full
import Strided.Session.Fresh

set_option autoImplicit false

namespace Strided

variable {α β γ δ : Type}

theorem Shape.length_visit (s : Shape) (n : Nat) : (s.visit n).length = n := by
  have h (n : Nat) (index : List Nat) (visited : List (List Nat)) :
      (s.visitOnto n index visited).length = visited.length+n := by
    induction n generalizing index visited with
    | zero => simp [visitOnto]
    | succ n ih => simp [visitOnto,ih,Nat.add_comm,Nat.add_left_comm]
  simpa [visit] using h n s.origin []

theorem View.inside_of_rowMajor {v : View} (hl : Layout.rowMajor v.dims = .ok v.layout) (ho : v.offset = 0)
    (hn : (v.dims.volume : Int) ≤ Address.maxSigned) : v.Inside v.dims.volume := by
  intro index hi
  -- Without an index there is nothing to show, and with one the volume is the number of values, hence in range.
  have h0 : 0 ∉ v.dims := fun hz => Shape.not_contains_of_mem hz index hi
  have hspan : (v.dims.span : Int) ≤ Address.maxSigned := by rwa [← Shape.volume_eq_span h0]
  have hp := Except.ok.inj ((Layout.rowMajor_eq_ok hspan).symm.trans hl)
  have ha : v.layout.distance index = v.dims.rank index := by
    rw [← hp]
    exact Layout.distanceAlong_packedAxes v.dims index
  have hr := Shape.rank_lt hi
  simp only [View.address,ho,ha]
  omega

namespace Block

/-- The layout is row-major and there is a value for every element. -/
def Filled (b : Block α) : Prop := Layout.rowMajor b.dims = .ok b.layout ∧ b.data.length = b.dims.volume

theorem filled_of_rowMajor {s : Shape} {b : Block α} (hl : Layout.rowMajor s = .ok b.layout)
    (hn : b.data.length = s.volume) : b.Filled := by
  have hd : b.dims = s := Layout.dims_of_rowMajor hl
  rw [Filled,hd]
  exact ⟨hl,hn⟩

theorem filled_ofVector (data : List α) : (ofVector data).Filled :=
  filled_of_rowMajor (s := [data.length]) rfl (by simp [ofVector,Shape.volume])

theorem filled_scalar (x : α) : (scalar x).Filled := filled_of_rowMajor (s := []) rfl rfl

theorem ensures_ofList (dims : Shape) (data : List α) : Ensures Filled (ofList dims data) := by
  refine ensures_bind fun layout hl => ensures_bind fun size hs => ?_
  have hsize := Shape.size_eq_volume hs
  rw [Layout.dims_of_rowMajor hl] at hsize
  by_cases hn : size = data.length
  · simp only [hn,↓reduceIte]
    exact ensures_ok (filled_of_rowMajor hl (by rw [← hsize,hn]))
  · simp only [hn,↓reduceIte,refuse]
    exact ensures_error _

theorem Filled.ensures_assign {b : Block α} (h : b.Filled) {w : Walk α} (hw : w.Full) :
    Ensures Filled (b.assign w) := by
  refine ensures_bind fun size hs => ?_
  have hsize := Shape.size_eq_volume hs
  by_cases hn : size = w.length
  · simp only [hn,↓reduceIte]
    refine ensures_bind fun data hd => ensures_ok ⟨h.1,?_⟩
    show data.length = b.dims.volume
    rw [hw.length_toList data hd,← hn,hsize]
    rfl
  · simp only [hn,↓reduceIte,refuse]
    exact ensures_error _

variable [Element α]

theorem ensures_filled (dims : Shape) (x : α) : Ensures Filled (filled dims x) := by
  refine ensures_bind fun layout hl => ensures_bind fun size hs => ensures_bind fun _ _ => ensures_ok ?_
  have hsize := Shape.size_eq_volume hs
  rw [Layout.dims_of_rowMajor hl] at hsize
  exact filled_of_rowMajor hl (by simp [hsize])

theorem ensures_ofFn (dims : Shape) (f : List Nat → Result α) : Ensures Filled (ofFn dims f) := by
  refine ensures_bind fun layout hl => ensures_bind fun size hs => ensures_bind fun _ _ => ensures_bind fun data hd =>
    ensures_ok ?_
  have hsize := Shape.size_eq_volume hs
  rw [Layout.dims_of_rowMajor hl] at hsize
  refine filled_of_rowMajor hl ?_
  rw [length_of_mapM_eq_ok hd,Shape.length_visit,hsize]

theorem ensures_stack {ι : Type} {dimsOf : ι → Shape} {walkOf : ι → Result (Walk α)} {itemDims : Shape}
    {items : List ι} (hw : ∀ item ∈ items, Ensures (fun w => w.Full ∧ w.length = (dimsOf item).volume) (walkOf item)) :
    Ensures Filled (stack dimsOf walkOf itemDims items) := by
  unfold stack
  cases hf : items.find? fun item => dimsOf item ≠ itemDims with
  | some bad => exact ensures_error _
  | none =>
    have hd (item : ι) (hi : item ∈ items) : dimsOf item = itemDims := by
      simpa using List.find?_eq_none.1 hf item hi
    refine ensures_bind fun itemSize _ => ensures_bind fun total _ => ensures_bind fun _ _ =>
      ensures_bind fun rows hrows => ensures_bind fun layout hl => ensures_ok (filled_of_rowMajor hl ?_)
    have hrow : ∀ row ∈ rows, row.length = itemDims.volume := by
      refine ensures_mapM (fun item hi => ensures_bind fun w hwalk => ?_) rows hrows
      obtain ⟨hfull,hlen⟩ := hw item hi w hwalk
      rw [← hd item hi,← hlen]
      exact hfull.length_toList
    rw [List.length_flatten,List.map_congr_left hrow,List.map_const']
    simp [length_of_mapM_eq_ok hrows,Shape.volume]

theorem ensures_stackBlocks {itemDims : Shape} {items : List (Block α)} (h : ∀ b ∈ items, b.Filled) :
    Ensures Filled (stackBlocks itemDims items) := by
  refine ensures_stack fun b hb => ensures_bind fun _ _ => ensures_ok ⟨Walk.full_ofList _,?_⟩
  rw [Walk.length_ofList,(h b hb).2]

end Block

namespace Snapshot

open Block (Filled)

theorem ensures_map [Element β] (f : α → Result β) (s : Snapshot α) : Ensures Filled (s.map f) :=
  ensures_bind fun _ _ => ensures_bind fun _ _ => Block.ensures_ofList _ _

theorem ensures_zipMap2 [Element γ] (f : α → β → Result γ) (s : Snapshot α) (t : Snapshot β) :
    Ensures Filled (s.zipMap2 f t) :=
  ensures_bind fun _ _ => ensures_bind fun _ _ => ensures_bind fun _ _ => ensures_bind fun _ _ =>
    ensures_bind fun _ _ => ensures_bind fun _ _ => Block.ensures_ofList _ _

theorem ensures_zipMap3 [Element δ] (f : α → β → γ → Result δ) (s : Snapshot α) (t : Snapshot β) (u : Snapshot γ) :
    Ensures Filled (s.zipMap3 f t u) :=
  ensures_bind fun _ _ => ensures_bind fun _ _ => ensures_bind fun _ _ => ensures_bind fun _ _ =>
    ensures_bind fun _ _ => ensures_bind fun _ _ => ensures_bind fun _ _ => ensures_bind fun _ _ =>
      ensures_bind fun _ _ => Block.ensures_ofList _ _

variable [Element α]

theorem ensures_deepCopy (s : Snapshot α) : Ensures Filled s.deepCopy :=
  ensures_bind fun data hd => ensures_bind fun _ hl =>
    ensures_ok (Block.filled_of_rowMajor hl (s.length_toList data hd))

theorem asContiguous_cases {s : Snapshot α} {v : View} {cells : Heap α} (h : s.asContiguous = .ok (v,cells)) :
    s.view.isContiguous = true ∧ v = s.view ∧ cells = s.heap ∨
      s.view.isContiguous = false ∧ ∃ b, s.deepCopy = .ok b ∧ b.Filled ∧ b.dims = s.dims ∧
        v = (s.heap.place b).1 ∧ cells = (s.heap.place b).2 := by
  unfold asContiguous at h
  by_cases hc : s.view.isContiguous = true
  · simp only [hc,↓reduceIte,Except.ok.injEq,Prod.mk.injEq] at h
    exact Or.inl ⟨hc,h.1.symm,h.2.symm⟩
  · simp only [hc,Bool.false_eq_true,↓reduceIte] at h
    obtain ⟨b,hb,h⟩ := bind_eq_ok.1 h
    have hp := Except.ok.inj h
    obtain ⟨_,-,hd⟩ := bind_eq_ok.1 hb
    obtain ⟨layout,hl,hd⟩ := bind_eq_ok.1 hd
    obtain rfl := Except.ok.inj hd
    have hdims : layout.dims = s.dims := Layout.dims_of_rowMajor hl
    exact Or.inr ⟨by simpa using hc,_,hb,s.ensures_deepCopy _ hb,hdims,by rw [hp],by rw [hp]⟩

theorem ensures_flatten (s : Snapshot α) : Ensures Filled s.flatten :=
  ensures_bind fun data _ => ensures_ok (Block.filled_ofVector data)

theorem ensures_stackShaped (h : Heap α) (itemDims : Shape) (items : List View) :
    Ensures Filled (stackShaped h itemDims items) :=
  Block.ensures_stack fun v _ => (Snapshot.mk h v).full_walk

theorem ensures_stack (h : Heap α) (items : List View) : Ensures Filled (stack h items) := by
  cases items with
  | nil => exact ensures_error _
  | cons first rest => exact ensures_stackShaped h first.dims (first :: rest)

theorem ensures_transposeAxes (s : Snapshot α) (perm : List Nat) : Ensures Filled (s.transposeAxes perm) := by
  refine ensures_bind fun _ _ => ensures_bind fun data _ => ?_
  by_cases he : data.isEmpty = true
  · simp only [he,↓reduceIte]
    exact Block.ensures_ofList _ _
  · simp only [he,Bool.false_eq_true,↓reduceIte]
    exact ensures_bind fun _ _ => ensures_bind fun _ _ => ensures_bind fun _ _ => Block.ensures_ofList _ _

theorem ensures_cumsum [Arithmetic α] (s : Snapshot α) : Ensures Filled s.cumsum :=
  ensures_bind fun _ _ => ensures_bind fun _ _ => ensures_bind fun _ _ => ensures_ok (Block.filled_ofVector _)

variable {h : Heap α} {f : α → α → Result α}

theorem ensures_foldStart (identity : Option α) (first : View) : Ensures Filled (foldStart h identity f first) := by
  cases identity with
  | none => exact (Snapshot.mk h first).ensures_deepCopy
  | some e =>
    refine ensures_bind fun b hb => ensures_bind fun w hw => ?_
    obtain ⟨hfull,-⟩ := (Snapshot.mk h first).full_walk w hw
    exact (Block.ensures_filled _ e b hb).ensures_assign (hfull.map (f e))

theorem ensures_foldPart {acc : Block α} (ha : acc.Filled) (slab : View) : Ensures Filled (foldPart h f acc slab) :=
  ensures_bind fun _ _ => ensures_bind fun _ _ => ensures_bind fun _ _ => ha.ensures_assign (Walk.full_ofList _)

theorem ensures_foldSlabs {operation : String} {identity : Option α} (axis : Nat) (v : View) :
    Ensures Filled (foldSlabs h operation identity f axis v) := by
  induction axis generalizing v with
  | zero =>
    rw [foldSlabs.eq_def]
    simp only
    by_cases h1 : v.rank = 1
    · simp only [h1,↓reduceIte]
      exact ensures_bind fun _ _ => ensures_bind fun x _ => ensures_ok (Block.filled_scalar x)
    · simp only [h1,↓reduceIte]
      cases v.slabs.steps with
      | done =>
        cases identity with
        | none => exact ensures_error _
        | some e => exact Block.ensures_filled _ e
      | fault cause => exact ensures_error cause
      | next first rest =>
        refine ensures_bind fun start hs => ?_
        have hstart := ensures_foldStart identity first start hs
        exact Steps.ensures_foldl (Steps.forall_true _) (fun b slab hb _ => ensures_foldPart hb slab) hstart
  | succ axis ih =>
    rw [foldSlabs]
    exact ensures_bind fun parts hparts =>
      Block.ensures_stackBlocks (Walk.forall_toList ((Steps.forall_true _).map fun slab _ => ih slab) parts hparts)

theorem ensures_foldAlong (operation : String) (identity : Option α) (f : α → α → Result α) (s : Snapshot α)
    (axis : Nat) : Ensures Filled (s.foldAlong operation identity f axis) := by
  unfold foldAlong
  cases s.dims[axis]? with
  | none => exact ensures_error _
  | some extent =>
    by_cases he : (identity.isNone && extent == 0) = true
    · simp only [he,↓reduceIte]
      exact ensures_error _
    · simp only [he,Bool.false_eq_true,↓reduceIte]
      exact ensures_foldSlabs axis s.view

theorem ensures_scanPart {itemDims : Shape} {parts : List (Block α)} (hp : ∀ b ∈ parts, b.Filled) (slab : View) :
    Ensures (fun parts => ∀ b ∈ parts, b.Filled) (scanPart h itemDims f parts slab) := by
  have hnext : Ensures Filled (scanNext h itemDims f parts slab) := by
    cases parts with
    | nil => exact (Snapshot.mk h slab).ensures_deepCopy
    | cons previous _ =>
      exact ensures_bind fun _ _ => ensures_bind fun _ _ => ensures_bind fun _ _ => Block.ensures_ofList _ _
  refine ensures_bind fun next hn => ensures_ok fun b hb => ?_
  rcases List.mem_cons.1 hb with rfl | hb
  · exact hnext b hn
  · exact hp b hb

theorem ensures_scanSlabs (axis : Nat) (v : View) : Ensures Filled (scanSlabs h f axis v) := by
  induction axis generalizing v with
  | zero =>
    rw [scanSlabs.eq_def]
    simp only
    by_cases h1 : v.rank = 1
    · simp only [h1,↓reduceIte]
      exact ensures_bind fun _ _ => ensures_bind fun data _ => ensures_ok (Block.filled_ofVector data)
    · simp only [h1,↓reduceIte]
      refine ensures_bind fun _ _ => ensures_bind fun parts hparts => Block.ensures_stackBlocks fun b hb => ?_
      have hp := Steps.ensures_foldl (Steps.forall_true _) (fun parts slab hp _ => ensures_scanPart hp slab)
        (by simp) parts hparts
      exact hp b (List.mem_reverse.1 hb)
  | succ axis ih =>
    rw [scanSlabs]
    exact ensures_bind fun parts hparts =>
      Block.ensures_stackBlocks (Walk.forall_toList ((Steps.forall_true _).map fun slab _ => ih slab) parts hparts)

theorem ensures_scanAxis (f : α → α → Result α) (s : Snapshot α) (axis : Nat) : Ensures Filled (s.scanAxis f axis) := by
  unfold scanAxis
  by_cases ha : axis < s.rank
  · simp only [ha,↓reduceIte]
    exact ensures_scanSlabs axis s.view
  · simp only [ha,↓reduceIte]
    exact ensures_error _

end Snapshot

theorem Range.ensures_values [Element α] [Arithmetic α] [Countable α] (memory : Capacity.Memory) (start stop step : α) :
    Ensures Block.Filled (values memory start stop step) := by
  unfold values
  by_cases hz : Countable.isZero step = true
  · simp only [hz,↓reduceIte]
    exact ensures_error _
  · simp only [hz,Bool.false_eq_true,↓reduceIte]
    refine ensures_bind fun n _ => ?_
    cases memory.reserves (Element.width α) n
    · simp only [Bool.not_false,↓reduceIte]
      exact ensures_error _
    · simp only [Bool.not_true,Bool.false_eq_true,↓reduceIte]
      exact ensures_bind fun data _ => ensures_ok (Block.filled_ofVector data)

theorem Range.ensures_linspace [Element α] [Floating α] (start stop : α) (n : Nat) (endpoint : Bool) :
    Ensures Block.Filled (linspace start stop n endpoint) := by
  unfold linspace
  by_cases hn : n = 0
  · simp only [hn,↓reduceIte]
    exact ensures_ok (Block.filled_ofVector [])
  · simp only [hn,↓reduceIte]
    exact ensures_bind fun _ _ => ensures_bind fun data _ => ensures_ok (Block.filled_ofVector data)

theorem Nested.ensures_toBlock [Element α] (n : Nat) (x : Nested α n) : Ensures Block.Filled (toBlock n x) :=
  ensures_bind fun _ _ => ensures_bind fun _ _ => ensures_bind fun _ _ => Block.ensures_ofList _ _

/-- The calls that make an array, with any functions of the caller. -/
inductive Block.Makes [Element δ] : Result (Block δ) → Prop
  | ofVector (data : List δ) : Makes (.ok (Block.ofVector data))
  | ofList (dims : Shape) (data : List δ) : Makes (Block.ofList dims data)
  | scalar (x : δ) : Makes (.ok (Block.scalar x))
  | filled (dims : Shape) (x : δ) : Makes (Block.filled dims x)
  | ofFn (dims : Shape) (f : List Nat → Result δ) : Makes (Block.ofFn dims f)
  | nested (n : Nat) (x : Nested δ n) : Makes (Nested.toBlock n x)
  | range [Arithmetic δ] [Range.Countable δ] (memory : Capacity.Memory) (start stop step : δ) :
      Makes (Range.values memory start stop step)
  | linspace [Floating δ] (start stop : δ) (n : Nat) (endpoint : Bool) : Makes (Range.linspace start stop n endpoint)
  | map {α : Type} (f : α → Result δ) (s : Snapshot α) : Makes (s.map f)
  | zipMap2 {α β : Type} (f : α → β → Result δ) (s : Snapshot α) (t : Snapshot β) : Makes (s.zipMap2 f t)
  | zipMap3 {α β γ : Type} (f : α → β → γ → Result δ) (s : Snapshot α) (t : Snapshot β) (u : Snapshot γ) :
      Makes (s.zipMap3 f t u)
  | deepCopy (s : Snapshot δ) : Makes s.deepCopy
  | flatten (s : Snapshot δ) : Makes s.flatten
  | transpose (s : Snapshot δ) : Makes s.transpose
  | transposeAxes (s : Snapshot δ) (perm : List Nat) : Makes (s.transposeAxes perm)
  | stack (h : Heap δ) (items : List View) : Makes (Snapshot.stack h items)
  | stackShaped (h : Heap δ) (dims : Shape) (items : List View) : Makes (Snapshot.stackShaped h dims items)
  | cumsum [Arithmetic δ] (s : Snapshot δ) : Makes s.cumsum
  | foldAlong (operation : String) (identity : Option δ) (f : δ → δ → Result δ) (s : Snapshot δ) (axis : Nat) :
      Makes (s.foldAlong operation identity f axis)
  | scanAxis (f : δ → δ → Result δ) (s : Snapshot δ) (axis : Nat) : Makes (s.scanAxis f axis)

theorem Block.Makes.ensures_filled [Element δ] {r : Result (Block δ)} (h : Makes r) : Ensures Block.Filled r := by
  cases h with
  | ofVector data => exact ensures_ok (Block.filled_ofVector data)
  | ofList dims data => exact Block.ensures_ofList dims data
  | scalar x => exact ensures_ok (Block.filled_scalar x)
  | filled dims x => exact Block.ensures_filled dims x
  | ofFn dims f => exact Block.ensures_ofFn dims f
  | nested n x => exact Nested.ensures_toBlock n x
  | range memory start stop step => exact Range.ensures_values memory start stop step
  | linspace start stop n endpoint => exact Range.ensures_linspace start stop n endpoint
  | map f s => exact s.ensures_map f
  | zipMap2 f s t => exact s.ensures_zipMap2 f t
  | zipMap3 f s t u => exact s.ensures_zipMap3 f t u
  | deepCopy s => exact s.ensures_deepCopy
  | flatten s => exact s.ensures_flatten
  | transpose s => exact s.ensures_transposeAxes _
  | transposeAxes s perm => exact s.ensures_transposeAxes perm
  | stack h items => exact Snapshot.ensures_stack h items
  | stackShaped h dims items => exact Snapshot.ensures_stackShaped h dims items
  | cumsum s => exact s.ensures_cumsum
  | foldAlong operation identity f s axis => exact s.ensures_foldAlong operation identity f axis
  | scanAxis f s axis => exact s.ensures_scanAxis f axis

namespace Session

theorem ensures_lift {P : β → Prop} {r : Result β} (h : Ensures P r) : Ensures P (liftM r : Attempt β) := by
  cases r with
  | ok x => exact ensures_ok (h x rfl)
  | error cause => exact ensures_error _

theorem Fresh.ensures_make (as : Abilities α) (s : State α) (made : Fresh α) :
    Ensures Block.Filled (made.make as s) := by
  let _element := as.element
  cases made with
  | vector data => exact ensures_ok (Block.filled_ofVector data)
  | scalar x => exact ensures_ok (Block.filled_scalar x)
  | listed dims data => exact ensures_lift (Block.ensures_ofList dims data)
  | affine dims coefficients => exact ensures_lift (Block.ensures_ofFn dims _)
  | nested n x => exact ensures_lift (Nested.ensures_toBlock n x)
  | filled dims filling => exact ensures_bind fun x _ => ensures_lift (Block.ensures_filled dims x)
  | filledLike a filling =>
    exact ensures_bind fun x _ => ensures_bind fun a _ => ensures_lift (Block.ensures_filled a.dims x)
  | filledLikeNested n sequence filling =>
    exact ensures_bind fun x _ => ensures_bind fun dims _ => ensures_lift (Block.ensures_filled dims x)
  | range start stop step =>
    exact ensures_bind fun _ _ => ensures_bind fun _ _ => ensures_lift (Range.ensures_values as.memory start stop step)
  | interval first last closed reversed =>
    exact ensures_bind fun _ _ => ensures_bind fun data _ => ensures_ok (Block.filled_ofVector data)
  | linspace start stop n endpoint =>
    exact ensures_bind fun _ _ => ensures_lift (Range.ensures_linspace start stop _ endpoint)
  | deepCopy a => exact ensures_bind fun a _ => ensures_lift a.ensures_deepCopy
  | flatten a => exact ensures_bind fun a _ => ensures_lift a.ensures_flatten
  | transpose a => exact ensures_bind fun a _ => ensures_lift (a.ensures_transposeAxes _)
  | transposeAxes a perm => exact ensures_bind fun a _ => ensures_lift (a.ensures_transposeAxes perm)
  | stack items => exact ensures_bind fun views _ => ensures_lift (Snapshot.ensures_stack s.cells views)
  | stackShaped dims items =>
    exact ensures_bind fun views _ => ensures_lift (Snapshot.ensures_stackShaped s.cells dims views)
  | unary f a => exact ensures_bind fun f _ => ensures_bind fun a _ => ensures_lift (a.ensures_map f)
  | withScalar g a x => exact ensures_bind fun g _ => ensures_bind fun a _ => ensures_lift (a.ensures_map _)
  | binary g a b =>
    exact ensures_bind fun g _ => ensures_bind fun a _ => ensures_bind fun b _ => ensures_lift (a.ensures_zipMap2 g b)
  | arithmetic op a b =>
    exact ensures_bind fun _ _ => ensures_bind fun a _ => ensures_bind fun b _ => ensures_lift (a.ensures_zipMap2 _ b)
  | maximum a b =>
    exact ensures_bind fun _ _ => ensures_bind fun a _ => ensures_bind fun b _ => ensures_lift (a.ensures_zipMap2 _ b)
  | minimum a b =>
    exact ensures_bind fun _ _ => ensures_bind fun a _ => ensures_bind fun b _ => ensures_lift (a.ensures_zipMap2 _ b)
  | ternary g a b c =>
    exact ensures_bind fun _ _ => ensures_bind fun a _ => ensures_bind fun b _ => ensures_bind fun c _ =>
      ensures_lift (a.ensures_zipMap3 _ b c)
  | select mask a b =>
    exact ensures_bind fun mask _ => ensures_bind fun a _ => ensures_bind fun b _ =>
      ensures_lift (mask.ensures_zipMap3 _ a b)
  | cumsum a => exact ensures_bind fun _ _ => ensures_bind fun a _ => ensures_lift a.ensures_cumsum
  | reduceAxis r a axis =>
    exact ensures_bind fun r _ => ensures_bind fun a _ => ensures_lift (Snapshot.ensures_foldAlong _ _ _ a axis)
  | reduceAxisWith g a axis =>
    exact ensures_bind fun g _ => ensures_bind fun a _ => ensures_lift (Snapshot.ensures_foldAlong _ _ g a axis)
  | foldAxis g a axis init =>
    exact ensures_bind fun g _ => ensures_bind fun a _ => ensures_lift (Snapshot.ensures_foldAlong _ _ g a axis)
  | scanAxis g a axis =>
    exact ensures_bind fun g _ => ensures_bind fun a _ => ensures_lift (Snapshot.ensures_scanAxis g a axis)
  | cumsumAxis a axis =>
    exact ensures_bind fun _ _ => ensures_bind fun a _ => ensures_lift (Snapshot.ensures_scanAxis _ a axis)
  | cumprodAxis a axis =>
    exact ensures_bind fun _ _ => ensures_bind fun a _ => ensures_lift (Snapshot.ensures_scanAxis _ a axis)

theorem FreshMask.ensures_make (as : Abilities α) (s : State α) (made : FreshMask) :
    Ensures Block.Filled (made.make as s) := by
  cases made with
  | listed dims data => exact ensures_lift (Block.ensures_ofList dims data)
  | compare test a b =>
    exact ensures_bind fun _ _ => ensures_bind fun a _ => ensures_bind fun b _ => ensures_lift (a.ensures_zipMap2 _ b)
  | truthy a => exact ensures_bind fun a _ => ensures_lift (a.ensures_map _)

end Session

end Strided
