import Strided.Proofs.AxisScan
import Strided.Proofs.Lifting
import Strided.Proofs.Transposed
import Strided.Snapshot.Elementwise

set_option autoImplicit false

namespace Strided

variable {α β γ : Type} {P : Fault → Prop}

/-- Without a result there is a refusal or a fault of the given kind. -/
def FaultsOnly (P : Fault → Prop) (r : Result α) : Prop :=
  ∀ cause, r = .error cause → (∃ error, cause = .refusal error) ∨ P cause

def FaultOf (f : α → Result β) (cause : Fault) : Prop := ∃ x, f x = .error cause

def FaultOfTwo (f : α → β → Result γ) (cause : Fault) : Prop := ∃ x y, f x y = .error cause

theorem faultsOnly_ok (x : α) : FaultsOnly P (.ok x : Result α) := nofun

theorem faultsOnly_refuse (error : ArrayError) : FaultsOnly P (refuse error : Result α) := by
  intro cause h
  exact Or.inl ⟨error,(Except.error.inj h).symm⟩

theorem faultsOnly_abort {cause : Abort} (h : P (.abort cause)) : FaultsOnly P (abort cause : Result α) := by
  intro cause' h'
  obtain rfl := Except.error.inj h'
  exact Or.inr h

theorem faultsOnly_of (f : α → Result β) (x : α) : FaultsOnly (FaultOf f) (f x) := fun _ h => Or.inr ⟨x,h⟩

theorem faultsOnly_of_two (f : α → β → Result γ) (x : α) (y : β) : FaultsOnly (FaultOfTwo f) (f x y) := fun _ h =>
  Or.inr ⟨x,y,h⟩

theorem FaultsOnly.mono {Q : Fault → Prop} {r : Result α} (h : FaultsOnly P r) (hq : ∀ cause, P cause → Q cause) :
    FaultsOnly Q r := fun cause hr => (h cause hr).imp_right (hq cause)

theorem FaultsOnly.bind {r : Result α} {f : α → Result β} (h : FaultsOnly P r) (hf : ∀ x, FaultsOnly P (f x)) :
    FaultsOnly P (r >>= f) := by
  intro cause hc
  rcases bind_eq_error.1 hc with hc | ⟨x,-,hc⟩
  · exact h cause hc
  · exact hf x cause hc

theorem faultsOnly_foldlM {f : β → α → Result β} (hf : ∀ b x, FaultsOnly P (f b x)) (xs : List α) (b : β) :
    FaultsOnly P (xs.foldlM f b) := by
  induction xs generalizing b with
  | nil => exact faultsOnly_ok b
  | cons x xs ih => exact (hf b x).bind ih

theorem Block.Tabulates.faultsOnly {s : Shape} {g : List Nat → Result α} {r : Result (Block α)} (h : Tabulates s g r)
    (hg : ∀ index, FaultsOnly P (g index)) : FaultsOnly P r := by
  rintro cause rfl
  obtain ⟨index,-,he⟩ := h
  exact hg index cause he

theorem Permutation.faultsOnly_validate (perm : List Nat) (rank : Nat) : FaultsOnly P (validate perm rank) := by
  rcases validate_cases perm rank with ⟨hv,-⟩ | ⟨hv,-⟩ | ⟨k,axis,hv,-⟩
  · exact hv ▸ faultsOnly_ok _
  · exact hv ▸ faultsOnly_refuse _
  · exact hv ▸ faultsOnly_refuse _

namespace Snapshot

open Block (Tabulates)
open Shape (joint Compatible)

variable [Element α] {s : Snapshot α}

theorem Sound.tabulates_map [Element β] (hs : s.Sound) (f : α → Result β) :
    Tabulates s.dims (fun index => f (s.valueAt index)) (s.map f) := by
  have hspan : s.dims.span ≤ 2^50 := hs.span_le
  have hl := Shape.volume_le_of_span_le hspan
  rw [map,hs.walk_eq,ok_bind,Walk.collect_eq_toList (by simpa using hl),Walk.toList_map_ofList,values,List.mapM_map]
  exact Block.tabulates_ofList hspan _

theorem Sound.faultsOnly_transposeAxes (hs : s.Sound) (perm : List Nat) : FaultsOnly P (s.transposeAxes perm) := by
  cases hp : Permutation.validate perm s.rank with
  | ok x => exact (hs.tabulates_transposeAxes hp).faultsOnly fun _ => faultsOnly_ok _
  | error cause =>
    have hc := Permutation.faultsOnly_validate (P := P) perm s.rank
    rw [hp] at hc
    rw [transposeAxes,hp]
    exact fun _ h => hc _ (by simpa using h)

theorem Sound.faultsOnly_zipMap2 [Element β] [Element γ] {u : Snapshot β} (hs : s.Sound) (hu : u.Sound)
    (hb : Compatible s.dims u.dims → (joint s.dims u.dims).span ≤ 2^50) (f : α → β → Result γ) :
    FaultsOnly (FaultOfTwo f) (s.zipMap2 f u) := by
  by_cases hc : Compatible s.dims u.dims
  · exact (hs.tabulates_zipMap2 hu hc (hb hc) f).faultsOnly fun _ => faultsOnly_of_two f _ _
  · rw [zipMap2_eq_refuse f hc]
    exact faultsOnly_refuse _

theorem Sound.faultsOnly_reduce (hs : s.Sound) (f : α → Result β) (g : β → β → Result β) (init : β) :
    FaultsOnly (fun cause => FaultOf f cause ∨ FaultOfTwo g cause) (s.reduce f g init) := by
  rw [reduce,hs.walk_eq,ok_bind,Walk.foldl,Walk.map,Walk.ofList,Steps.foldl_map,Steps.foldl_ofList]
  refine faultsOnly_foldlM (fun acc x => ?_) _ _
  exact ((faultsOnly_of f x).mono fun _ => Or.inl).bind fun y => (faultsOnly_of_two g acc y).mono fun _ => Or.inr

theorem Sound.faultsOnly_cumsum {t : IntType} {s : Snapshot (Word t)} (hs : s.Sound) :
    FaultsOnly (· = .abort .addOverflow) s.cumsum := by
  have hspan : s.dims.span ≤ 2^50 := hs.span_le
  have hl := Shape.volume_le_of_span_le hspan
  rw [cumsum,hs.walk_eq,ok_bind,Walk.room_width_eq_ok (by simpa using hl),ok_bind,Walk.foldl_ofList]
  refine (faultsOnly_foldlM (fun acc x => ?_) _ _).bind fun _ => faultsOnly_ok _
  exact FaultsOnly.bind (fun _ h => Or.inr (Word.add_eq_error h)) fun _ => faultsOnly_ok _

omit [Element α] in
theorem faultsOnly_foldRow (operation : String) (identity : Option α) (f : α → α → Result α) (xs : List α) :
    FaultsOnly (FaultOfTwo f) (foldRow operation identity f xs) := by
  cases identity with
  | some e =>
    rw [foldRow_some]
    exact faultsOnly_foldlM (faultsOnly_of_two f) _ _
  | none =>
    cases xs with
    | nil => exact faultsOnly_refuse _
    | cons x xs =>
      rw [foldRow_cons]
      exact faultsOnly_foldlM (faultsOnly_of_two f) _ _

theorem Sound.faultsOnly_foldAlong (hs : s.Sound) (operation : String) (identity : Option α) (f : α → α → Result α)
    (axis : Nat) : FaultsOnly (FaultOfTwo f) (s.foldAlong operation identity f axis) := by
  cases hd : s.dims[axis]? with
  | none =>
    rw [foldAlong,hd]
    exact faultsOnly_refuse _
  | some d =>
    by_cases he : identity = none → d ≠ 0
    · exact (hs.tabulates_foldAlong hd he).faultsOnly fun _ => faultsOnly_foldRow operation identity f _
    · obtain ⟨rfl,hz⟩ := Classical.not_imp.1 he
      rw [foldAlong,hd,Decidable.of_not_not hz]
      exact faultsOnly_refuse _

theorem Sound.faultsOnly_scanAxis (hs : s.Sound) (f : α → α → Result α) (axis : Nat) :
    FaultsOnly (FaultOfTwo f) (s.scanAxis f axis) := by
  by_cases ha : axis < s.rank
  · have ht : Tabulates s.dims (fun index => foldRow "scan" none f (s.rowUpTo axis index)) (s.scanAxis f axis) :=
      hs.tabulates_scanAxis ha
    exact ht.faultsOnly fun _ => faultsOnly_foldRow _ none f _
  · rw [scanAxis,if_neg ha]
    exact faultsOnly_refuse _

/-- Joined, the elements of the arrays take more bytes than one list is given room for. -/
def Oversized (width : Nat) (views : List View) : Prop :=
  ∃ first, views.head? = some first ∧ Capacity.maxBytes < width*(views.length*first.dims.volume)

/-- A list of arrays is joined unless the shapes differ or there is no room for so many elements. -/
theorem faultsOnly_stack {h : Heap α} {views : List View} (hs : ∀ v ∈ views, (Snapshot.mk h v).Sound)
    (hw : 0 < Element.width α) :
    FaultsOnly (fun cause => (cause = .abort .multiplyOverflow ∨ cause = .abort .capacityOverflow) ∧
      Oversized (Element.width α) views) (Snapshot.stack h views) := by
  cases views with
  | nil => exact faultsOnly_refuse _
  | cons first rest =>
    have hspan : first.dims.span ≤ 2^50 := (hs first (by simp)).span_le
    have hsize : Shape.size first.dims = .ok first.dims.volume := (hs first (by simp)).near.size_eq
    have hrows : (first :: rest).mapM (fun v => do (← (Snapshot.mk h v).walk).toList) =
        .ok ((first :: rest).map fun v => (Snapshot.mk h v).values) :=
      mapM_ok fun v hv => by rw [(hs v hv).walk_eq,ok_bind,Walk.toList_ofList]
    rw [Snapshot.stack,stackShaped,Block.stack]
    split
    · exact faultsOnly_refuse _
    · rw [hsize,ok_bind,hrows,Layout.rowMajor_cons_eq_packed _ hspan]
      generalize hn : (first :: rest).length*first.dims.volume = n
      have hover (hlt : Capacity.maxBytes < Element.width α*n) : Oversized (Element.width α) (first :: rest) :=
        ⟨first,rfl,by rwa [hn]⟩
      have hcount : Address.maxUnsigned < n → Capacity.maxBytes < Element.width α*n := fun hlt =>
        Nat.lt_of_lt_of_le (Nat.lt_trans (by decide) hlt) (Nat.le_mul_of_pos_left n hw)
      rw [Address.mulCount,hn]
      split
      · rw [ok_bind,Capacity.reserve]
        split
        · exact faultsOnly_ok _
        · exact faultsOnly_abort ⟨Or.inr rfl,hover (by omega)⟩
      · exact faultsOnly_abort ⟨Or.inl rfl,hover (hcount (by omega))⟩

end Snapshot

end Strided
