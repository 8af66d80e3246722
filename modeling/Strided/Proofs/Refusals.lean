import Strided.Proofs.InPlace
import Strided.Proofs.Lifting

set_option autoImplicit false

namespace Strided

variable {α β γ : Type}

namespace Update

/-- Without an error to be found the update goes through. Otherwise it is refused with that error, and every buffer is
as it was. -/
def Heeds (u : Update α β) (h : Heap α) : Option ArrayError → Prop
  | none => ∃ x, (u h).1 = .ok x
  | some error => u h = (refuse error,h)

theorem refuse_bind (error : ArrayError) (f : β → Update α Unit) (h : Heap α) :
    (ofResult (refuse error) >>= f) h = (refuse error,h) := by
  rw [refuse,ofResult_error_bind]
  rfl

end Update

namespace View

open Update

def indexError (v : View) (index : List Nat) : Option ArrayError :=
  if index.length ≠ v.rank then some (.rankMismatch index.length v.rank)
  else if v.dims.Contains index then none
  else some (.indexOutOfBounds index v.dims)

def countError (v : View) (n : Nat) : Option ArrayError :=
  if n = v.dims.volume then none else some (.lengthMismatch v.dims.volume n)

def shapeError (v w : View) : Option ArrayError :=
  if v.rank ≠ w.rank then some (.rankMismatch v.rank w.rank)
  else if v.dims ≠ w.dims then some (.shapeMismatch v.dims w.dims)
  else none

def stretchError (v left right : View) : Option ArrayError :=
  if ¬ left.dims.StretchesTo v.dims then some (.shapeMismatch left.dims v.dims)
  else if ¬ right.dims.StretchesTo v.dims then some (.shapeMismatch right.dims v.dims)
  else none

variable {h : Heap α} {dest source : View}

theorem cellOf_eq_refuse {v : View} {index : List Nat} {error : ArrayError} (he : v.indexError index = some error) :
    v.cellOf index = refuse error := by
  unfold indexError at he
  by_cases hl : index.length = v.rank
  · by_cases hi : v.dims.Contains index
    · simp [hl,hi] at he
    · have hany := Shape.any_eq_true_of_not_contains (by rw [hl,length_dims]) hi
      simp only [hl,ne_eq,not_true_eq_false,↓reduceIte,hi,Option.some.injEq] at he
      obtain rfl := he
      have ho : v.layout.checkedOffsetOf index = refuse (.indexOutOfBounds index v.layout.dims) :=
        (if_neg (not_not.2 hl)).trans (if_pos hany)
      rw [cellOf,ho]
      rfl
  · simp only [ne_eq,hl,not_false_eq_true,↓reduceIte,Option.some.injEq] at he
    obtain rfl := he
    have ho : v.layout.checkedOffsetOf index = refuse (.rankMismatch index.length v.layout.rank) := if_pos hl
    rw [cellOf,ho]
    rfl

theorem Near.set_heeds (hd : dest.Near (h.length dest.buffer)) (index : List Nat) (x : α) :
    (dest.set index x).Heeds h (dest.indexError index) := by
  cases he : dest.indexError index with
  | none =>
    have hi : dest.dims.Contains index := by
      unfold indexError at he
      split at he <;> simp_all
    exact ⟨(),by rw [hd.set_eq hi]⟩
  | some error =>
    show dest.set index x h = (refuse error,h)
    rw [set,cellOf_eq_refuse he]
    exact refuse_bind error _ h

theorem Sound.assign_heeds [Element α] (hd : dest.Sound (h.length dest.buffer)) (xs : List α) :
    (dest.assign xs).Heeds h (dest.countError xs.length) := by
  unfold countError
  by_cases hl : xs.length = dest.dims.volume
  · obtain ⟨x,rfl⟩ := Shape.exists_map_indices hl
    rw [if_pos hl]
    exact ⟨(),by rw [hd.assign_eq]⟩
  · rw [if_neg hl]
    show dest.assign xs h = (refuse _,h)
    have hlength : (yields (Walk.ofList xs)).length = xs.length := by
      rw [yields,Walk.map_ofList_ok,Walk.length_ofList,List.length_map]
    rw [assign,assignEach,hd.size_eq,ofResult_ok_bind,hlength,if_pos hl]
    rfl

theorem heeds_sameShape {k : Unit → Update α Unit}
    (hk : dest.dims = source.dims → ((ofResult (dest.sameShape source) >>= k) h).1 = .ok ()) :
    (ofResult (dest.sameShape source) >>= k).Heeds h (dest.shapeError source) := by
  have hs : dest.sameShape source = match dest.shapeError source with
      | none => .ok ()
      | some error => refuse error := by
    unfold sameShape shapeError
    split
    · rfl
    · split <;> rfl
  cases he : dest.shapeError source with
  | none =>
    rw [he] at hs
    exact ⟨(),hk (sameShape_eq_ok_iff.1 hs)⟩
  | some error =>
    rw [he] at hs
    rw [hs]
    exact refuse_bind error k h

theorem broadcastTo_eq_refuse {v : View} {target : Shape} (hn : ¬ v.dims.StretchesTo target) :
    v.broadcastTo target = refuse (.shapeMismatch v.dims target) := by
  have hl : v.layout.broadcastTo target = refuse (.shapeMismatch v.layout.dims target) := by
    have hnone : ¬ ∃ l, v.layout.broadcastTo target = .ok l := fun hl => hn (Layout.exists_broadcastTo_iff.1 hl)
    unfold Layout.broadcastTo at hnone ⊢
    split
    · rename_i axes ha
      exact absurd ⟨_,by rw [ha]⟩ hnone
    · rfl
  rw [broadcastTo,hl]
  rfl

theorem heeds_stretches {left right : View} {k : View → View → Update α Unit}
    (hk : ∀ v w, left.broadcastTo dest.dims = .ok v → right.broadcastTo dest.dims = .ok w → (k v w h).1 = .ok ()) :
    Heeds (do
      let v ← ofResult (left.broadcastTo dest.dims)
      let w ← ofResult (right.broadcastTo dest.dims)
      k v w) h (dest.stretchError left right) := by
  unfold stretchError
  by_cases hsl : left.dims.StretchesTo dest.dims
  · obtain ⟨v,hv⟩ := exists_broadcastTo_iff.2 hsl
    rw [if_neg (not_not.2 hsl),hv,ofResult_ok_bind]
    by_cases hsr : right.dims.StretchesTo dest.dims
    · obtain ⟨w,hw⟩ := exists_broadcastTo_iff.2 hsr
      rw [if_neg (not_not.2 hsr),hw,ofResult_ok_bind]
      exact ⟨(),hk v w hv hw⟩
    · rw [if_pos hsr,broadcastTo_eq_refuse hsr]
      exact refuse_bind _ _ h
  · rw [if_pos hsl,broadcastTo_eq_refuse hsl]
    exact refuse_bind _ _ h

theorem zipMapInto_heeds [Element α] [Element β] [Element γ] {left : Operand α β} {right : Operand α γ} {g : β → γ → α}
    (hd : dest.WellFormed (h.length dest.buffer)) (hl : (left.snapshot h).WellFormed)
    (hr : (right.snapshot h).WellFormed) :
    (zipMapInto (fun x y => .ok (g x y)) dest left right).Heeds h (dest.stretchError left.view right.view) := by
  refine heeds_stretches fun v w hv hw => ?_
  have hs := (zipMapInto_stores hd hl hr hv hw (g := g)).ok
  rwa [zipMapInto,hv,hw,ofResult_ok_bind,ofResult_ok_bind] at hs

theorem mapInto_heeds [Element α] [Element β] {other : Operand α β} {f : β → α}
    (hd : dest.WellFormed (h.length dest.buffer)) (hs : (other.snapshot h).WellFormed) :
    (mapInto (fun x => .ok (f x)) dest other).Heeds h (dest.shapeError other.view) := by
  refine heeds_sameShape fun he => ?_
  by_cases hne : other.aliases dest = true → dest ≠ other.view
  · exact (mapInto_stores hd hs.sound he hne).ok
  · have hself (f : α → α) : (mapInto (fun x => .ok (f x)) dest dest h).1 = .ok () :=
      congrArg Prod.fst (hd.mapInto_self f)
    obtain ⟨ha,hsame⟩ := Classical.not_imp.1 hne
    cases other with
    | elsewhere s => cases ha
    | here v =>
      obtain rfl : dest = v := not_not.1 hsame
      exact hself f

/-- Each write in place on well-formed arrays goes through, or it is refused because of the extents and has then
written nothing. An index must have the rank and lie inside, values must be as many as there are elements, a source must
have the same extents, and two sources that are zipped must stretch to them. -/
theorem inPlace_refusals [Element α] [Element β] [Element γ] {other : Operand α β} {left : Operand α β}
    {right : Operand α γ} (hd : dest.WellFormed (h.length dest.buffer)) (hs : (Snapshot.mk h source).WellFormed)
    (ho : (other.snapshot h).WellFormed) (hl : (left.snapshot h).WellFormed) (hr : (right.snapshot h).WellFormed) :
    (∀ index x, (dest.set index x).Heeds h (dest.indexError index)) ∧
      (dest.size = .ok dest.dims.volume ∧ ∀ xs, (dest.assign xs).Heeds h (dest.countError xs.length)) ∧
      (dest.copyInto source).Heeds h (dest.shapeError source) ∧
      (∀ f : β → α, (mapInto (fun x => .ok (f x)) dest other).Heeds h (dest.shapeError other.view)) ∧
      ∀ g : β → γ → α, (zipMapInto (fun x y => .ok (g x y)) dest left right).Heeds h
        (dest.stretchError left.view right.view) :=
  ⟨fun index x => hd.sound.set_heeds index x,⟨hd.sound.size_eq,hd.sound.assign_heeds⟩,
    heeds_sameShape fun he => (copyInto_stores hd hs he).ok,fun _ => mapInto_heeds hd ho,
    fun _ => zipMapInto_heeds hd hl hr⟩

theorem upper_refusals :
    upper.set [5] (Word.ofInt _ 7) Snapshot.zigzag.heap =
        (refuse (.indexOutOfBounds [5] [5]),Snapshot.zigzag.heap) ∧
      upper.assign [Word.ofInt _ 7] Snapshot.zigzag.heap =
        (refuse (.lengthMismatch 5 1),Snapshot.zigzag.heap) ∧
      mapInto (fun x => .ok (Word.wrappingNeg x)) upper Snapshot.zigzag.view Snapshot.zigzag.heap =
        (refuse (.rankMismatch 1 2),Snapshot.zigzag.heap) ∧
      zipMapInto (fun x y => .ok (Word.wrappingSub x y)) upper lower Snapshot.zigzag.view Snapshot.zigzag.heap =
        (refuse (.shapeMismatch [2,3] [5]),Snapshot.zigzag.heap) := by
  have hd : upper.WellFormed (Snapshot.zigzag.heap.length upper.buffer) := by decide
  have hl : (Snapshot.mk Snapshot.zigzag.heap lower).WellFormed := by decide
  have hz : Snapshot.zigzag.WellFormed := by decide
  obtain ⟨hset,⟨-,hassign⟩,-,hmap,hzip⟩ := @inPlace_refusals _ _ _ _ upper Snapshot.zigzag.view _ _ _
    (.here Snapshot.zigzag.view) (.here lower) (.here Snapshot.zigzag.view) hd hz hz hl hz
  exact ⟨hset [5] _,hassign [Word.ofInt _ 7],hmap Word.wrappingNeg,hzip Word.wrappingSub⟩

end View

end Strided
