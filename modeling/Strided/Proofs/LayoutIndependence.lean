import Strided.Proofs.Alike
import Strided.Proofs.Faults

set_option autoImplicit false

namespace Strided

variable {α β γ : Type}

def SameOutcome (P : Fault → Prop) (r r' : Result α) : Prop :=
  (∃ x, r = .ok x ∧ r' = .ok x) ∨ (∃ error, r = refuse error ∧ r' = refuse error) ∨
    ∃ cause, P cause ∧ r = .error cause ∧ r' = .error cause

theorem FaultsOnly.sameOutcome {P : Fault → Prop} {r r' : Result α} (h : FaultsOnly P r) (he : r = r') :
    SameOutcome P r r' := by
  subst he
  cases hr : r with
  | ok x => exact Or.inl ⟨x,rfl,rfl⟩
  | error cause =>
    rcases h cause hr with ⟨error,rfl⟩ | hc
    · exact Or.inr (Or.inl ⟨error,rfl,rfl⟩)
    · exact Or.inr (Or.inr ⟨cause,hc,rfl,rfl⟩)

namespace Snapshot

open Shape (joint Compatible)

/-- Two well-formed arrays with the same extents and the same element at each index; they may have different strides,
start at different cells and be in different buffers. -/
structure Twins (s s' : Snapshot α) : Prop where
  wellFormed : s.WellFormed
  wellFormed' : s'.WellFormed
  dims_eq : s.dims = s'.dims
  get_eq : ∀ index, s.dims.Contains index → s.get index = s'.get index

theorem Twins.alike [Element α] {s s' : Snapshot α} (h : Twins s s') : Alike s s' where
  sound := h.wellFormed.sound
  sound' := h.wellFormed'.sound
  dims_eq := h.dims_eq
  valueAt_eq index hi := by
    have hg := h.get_eq index hi
    rw [h.wellFormed.sound.get_eq hi,h.wellFormed'.sound.get_eq (by rwa [← h.dims_eq])] at hg
    exact Except.ok.inj hg

/-- The operations that copy an array of integers, or compute another array or a value of it, end alike for both. A
fault that is no refusal is one of the functions that are applied to the elements, or is there because there is no room
for the elements of all arrays that are joined. -/
structure SameResults {t : IntType} (s s' : Snapshot (Word t)) : Prop where
  toList : SameOutcome (fun _ => False) s.toList s'.toList
  indexed : SameOutcome (fun _ => False) (do let e ← s.elements; e.indexed s.heap)
    (do let e ← s'.elements; e.indexed s'.heap)
  flatten : SameOutcome (fun _ => False) s.flatten s'.flatten
  deepCopy : SameOutcome (fun _ => False) s.deepCopy s'.deepCopy
  transposeAxes (perm : List Nat) : SameOutcome (fun _ => False) (s.transposeAxes perm) (s'.transposeAxes perm)
  map {β : Type} [Element β] (f : Word t → Result β) : SameOutcome (FaultOf f) (s.map f) (s'.map f)
  zipMap2_left {β γ : Type} [Element β] [Element γ] (f : Word t → β → Result γ) (u : Snapshot β) (hu : u.WellFormed)
    (hb : Compatible s.dims u.dims → (joint s.dims u.dims).span ≤ 2^50) :
    SameOutcome (FaultOfTwo f) (s.zipMap2 f u) (s'.zipMap2 f u)
  zipMap2_right {β γ : Type} [Element β] [Element γ] (f : β → Word t → Result γ) (u : Snapshot β) (hu : u.WellFormed)
    (hb : Compatible u.dims s.dims → (joint u.dims s.dims).span ≤ 2^50) :
    SameOutcome (FaultOfTwo f) (u.zipMap2 f s) (u.zipMap2 f s')
  stack (views views' : List View) (hv : List.Forall₂ (fun v v' => Twins (s.through v) (s'.through v')) views views') :
    SameOutcome
      (fun cause => (cause = .abort .multiplyOverflow ∨ cause = .abort .capacityOverflow) ∧
        Oversized (Element.width (Word t)) views)
      (Snapshot.stack s.heap views) (Snapshot.stack s'.heap views')
  reduce {β : Type} (f : Word t → Result β) (g : β → β → Result β) (init : β) :
    SameOutcome (fun cause => FaultOf f cause ∨ FaultOfTwo g cause) (s.reduce f g init) (s'.reduce f g init)
  cumsum : SameOutcome (· = .abort .addOverflow) s.cumsum s'.cumsum
  foldAxis (init : Word t) (f : Word t → Word t → Result (Word t)) (axis : Nat) :
    SameOutcome (FaultOfTwo f) (s.foldAxis init f axis) (s'.foldAxis init f axis)
  reduceAxisWith (f : Word t → Word t → Result (Word t)) (axis : Nat) :
    SameOutcome (FaultOfTwo f) (s.reduceAxisWith f axis) (s'.reduceAxisWith f axis)
  scanAxis (f : Word t → Word t → Result (Word t)) (axis : Nat) :
    SameOutcome (FaultOfTwo f) (s.scanAxis f axis) (s'.scanAxis f axis)

/-- What is made of a well-formed array of integers depends on its extents and its elements only. -/
theorem Twins.sameResults {t : IntType} {s s' : Snapshot (Word t)} (h : Twins s s') : SameResults s s' := by
  have ha := h.alike
  have hs := ha.sound
  constructor
  case toList =>
    have hl : FaultsOnly (fun _ => False) s.toList := by
      rw [hs.toList_eq]
      exact faultsOnly_ok _
    exact hl.sameOutcome ha.toList_eq
  case indexed =>
    have hx : FaultsOnly (fun _ => False) (do let e ← s.elements; e.indexed s.heap) := by
      rw [hs.indexed_eq]
      exact faultsOnly_ok _
    exact hx.sameOutcome ha.indexed_eq
  case flatten =>
    have hf : FaultsOnly (fun _ => False) s.flatten := by
      rw [Snapshot.flatten,hs.toList_eq]
      exact faultsOnly_ok _
    exact hf.sameOutcome ha.flatten_eq
  case deepCopy => exact (hs.deepCopy.faultsOnly fun _ => faultsOnly_ok _).sameOutcome ha.deepCopy_eq
  case transposeAxes => exact fun perm => (hs.faultsOnly_transposeAxes perm).sameOutcome (ha.transposeAxes_eq perm)
  case map =>
    exact fun f => ((hs.tabulates_map f).faultsOnly fun _ => faultsOnly_of f _).sameOutcome (ha.map_eq f)
  case zipMap2_left =>
    intro β γ _ _ f u hu hb
    exact (hs.faultsOnly_zipMap2 hu.sound hb f).sameOutcome (ha.zipMap2_eq (.refl hu.sound) hb f)
  case zipMap2_right =>
    intro β γ _ _ f u hu hb
    exact (hu.sound.faultsOnly_zipMap2 hs hb f).sameOutcome ((Alike.refl hu.sound).zipMap2_eq ha hb f)
  case stack =>
    intro views views' hv
    have hviews : ∀ v ∈ views, (s.through v).Sound :=
      (List.forall₂_and_left views views').1 (hv.imp fun _ _ hx => ⟨hx.wellFormed.sound,hx⟩) |>.1
    exact (faultsOnly_stack hviews (Word.width_pos t)).sameOutcome (Alike.stack_eq (hv.imp fun _ _ hx => hx.alike))
  case reduce => exact fun f g init => (hs.faultsOnly_reduce f g init).sameOutcome (ha.reduce_eq f g init)
  case cumsum => exact hs.faultsOnly_cumsum.sameOutcome ha.cumsum_eq
  case foldAxis =>
    exact fun init f axis => (hs.faultsOnly_foldAlong _ _ f axis).sameOutcome (ha.foldAlong_eq _ _ axis)
  case reduceAxisWith =>
    exact fun f axis => (hs.faultsOnly_foldAlong _ _ f axis).sameOutcome (ha.foldAlong_eq _ _ axis)
  case scanAxis => exact fun f axis => (hs.faultsOnly_scanAxis f axis).sameOutcome (ha.scanAxis_eq axis)

def unrolled : Snapshot (Word ⟨true,.w8⟩) where
  heap := ⟨#[#[],([4,2,0,5,3,1].map (Word.ofInt _)).toArray]⟩
  view := { buffer := 1, layout := ⟨[⟨2,3⟩,⟨3,1⟩]⟩, offset := 0 }

theorem zigzag_sameResults : Twins zigzag unrolled ∧ SameResults zigzag unrolled ∧
    (∃ b, zigzag.scanAxis (fun x y => .ok (x.wrappingSub y)) 1 = .ok b ∧
      unrolled.scanAxis (fun x y => .ok (x.wrappingSub y)) 1 = .ok b) ∧
    ∃ b, zigzag.transposeAxes [1,0] = .ok b ∧ unrolled.transposeAxes [1,0] = .ok b := by
  have hg : ∀ index ∈ zigzag.dims.indices, zigzag.get index = unrolled.get index := by decide
  have h : Twins zigzag unrolled :=
    ⟨by decide,by decide,rfl,fun index hi => hg index (Shape.mem_indices.2 hi)⟩
  have hr := Twins.sameResults h
  refine ⟨h,hr,?_,?_⟩
  · rcases hr.scanAxis (fun x y => .ok (x.wrappingSub y)) 1 with hb | ⟨error,he,-⟩ | ⟨cause,⟨x,y,hc⟩,-⟩
    · exact hb
    · have hok : (zigzag.scanAxis (fun x y => .ok (x.wrappingSub y)) 1).isOk = true := by decide
      rw [he] at hok
      cases hok
    · cases hc
  · rcases hr.transposeAxes [1,0] with hb | ⟨error,he,-⟩ | ⟨cause,hc,-⟩
    · exact hb
    · have hok : (zigzag.transposeAxes [1,0]).isOk = true := by decide
      rw [he] at hok
      cases hok
    · exact hc.elim

def ElementOverflow (cause : Fault) : Prop :=
  cause ∈ [Fault.abort .addOverflow,.abort .subtractOverflow,.abort .multiplyOverflow,.abort .divideOverflow]

/-- One cell that is seen 2^50 times, behind `dark` others. -/
def lamp (dark : Nat) : Snapshot (Word ⟨true,.w64⟩) where
  heap := ⟨#[(List.replicate dark (Word.ofInt _ 0)++[Word.ofInt _ 1]).toArray]⟩
  view := { buffer := 0, layout := ⟨[⟨2^50,0⟩]⟩, offset := dark }

theorem dims_lamp (dark : Nat) : (lamp dark).view.dims = [2^50] := rfl

theorem address_lamp (dark : Nat) (index : List Nat) : (lamp dark).view.address index = dark := by
  have hd : (lamp dark).view.layout.distance index = 0 := by
    cases index with
    | nil => rfl
    | cons i index => cases index <;> simp [lamp,Layout.distance,Layout.distanceAlong]
  rw [View.address,hd,Int.add_zero]
  rfl

theorem wellFormed_lamp {dark : Nat} (h : dark ≤ 2^50) : (lamp dark).WellFormed where
  offset_le := h
  span_le := by rw [dims_lamp]; decide
  travel_le := by simp [lamp,Layout.travel]
  inside index _ := by
    have hl : (lamp dark).heap.length (lamp dark).view.buffer = dark+1 := by simp [lamp,Heap.length,Heap.cells]
    rw [address_lamp,hl]
    omega

theorem get_lamp {dark : Nat} (h : dark ≤ 2^50) {index : List Nat} (hi : (lamp dark).dims.Contains index) :
    (lamp dark).get index = .ok (Word.ofInt _ 1) := by
  have hcell : (lamp dark).view.cell index = dark := by
    have hc := (wellFormed_lamp h).cell_eq hi
    rw [address_lamp] at hc
    omega
  rw [(wellFormed_lamp h).sound.get_eq hi,valueAt,hcell]
  simp [lamp,Heap.cells]

theorem stack_lamp (dark : Nat) :
    Snapshot.stack (lamp dark).heap (List.replicate 1024 (lamp dark).view) = abort .capacityOverflow := by
  have hcons : List.replicate 1024 (lamp dark).view = (lamp dark).view :: List.replicate 1023 (lamp dark).view := rfl
  have hfind : (List.replicate 1024 (lamp dark).view).find? (fun v => v.dims ≠ [2^50]) = none :=
    List.find?_eq_none.2 fun v hv => by rw [List.eq_of_mem_replicate hv,dims_lamp]; decide
  have hsize : Shape.size [2^50] = .ok (2^50) := by decide
  have hcount : Address.mulCount 1024 (2^50) = .ok (2^60) := by decide
  have hroom : Capacity.reserve (Element.width (Word ⟨true,.w64⟩)) (2^60) = abort .capacityOverflow := by decide
  rw [hcons,Snapshot.stack,← hcons,stackShaped,Block.stack,dims_lamp,hfind]
  simp only [hsize,List.length_replicate,ok_bind,hcount,hroom]
  rfl

/-- Two arrays of 64-bit integers that are alike: 1024 of either have 2^60 elements together, which take one byte more
than a list may have. -/
theorem lamp_stack : Twins (lamp 0) (lamp 3) ∧
    Snapshot.stack (lamp 0).heap (List.replicate 1024 (lamp 0).view) = abort .capacityOverflow ∧
    ¬ SameOutcome ElementOverflow (Snapshot.stack (lamp 0).heap (List.replicate 1024 (lamp 0).view))
      (Snapshot.stack (lamp 3).heap (List.replicate 1024 (lamp 3).view)) := by
  refine ⟨⟨wellFormed_lamp (by decide),wellFormed_lamp (by decide),rfl,fun index hi => ?_⟩,stack_lamp 0,?_⟩
  · have hi' : (lamp 3).dims.Contains index := hi
    rw [get_lamp (by decide) hi,get_lamp (by decide) hi']
  · rw [stack_lamp,stack_lamp]
    rintro (⟨b,hb,-⟩ | ⟨error,he,-⟩ | ⟨cause,hc,he,-⟩)
    · cases hb
    · cases he
    · cases he
      simp [ElementOverflow] at hc

end Snapshot

end Strided
