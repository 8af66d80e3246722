import Strided.Proofs.CommonShape

set_option autoImplicit false

namespace Strided.Layout

namespace Stretches

variable {axes axes' axes'' : List Axis} {s t : Shape}

theorem refl (axes : List Axis) : Stretches axes (axes.map Axis.extent) axes := by
  induction axes with
  | nil => exact .fresh []
  | cons a axes ih => exact .keep a ih

theorem eq_of_fresh (h : Stretches (s.map (⟨·,0⟩)) t axes) : axes = t.map (⟨·,0⟩) := by
  induction s generalizing t axes with
  | nil =>
    cases h
    rfl
  | cons d s ih =>
    cases h with
    | keep _ h => rw [ih h]; rfl
    | still _ _ h => rw [ih h]; rfl

theorem trans (h : Stretches axes s axes') (h' : Stretches axes' t axes'') : Stretches axes t axes'' := by
  induction h generalizing t axes'' with
  | fresh s =>
    rw [eq_of_fresh h']
    exact .fresh t
  | keep a _ ih =>
    cases h' with
    | keep _ h' => exact .keep a (ih h')
    | still ha hd h' => exact .still ha hd (ih h')
  | still ha hd _ ih =>
    -- What was stretched once has another extent than 1, so it is kept from then on.
    cases h' with
    | keep _ h' => exact .still ha hd (ih h')
    | still hone _ _ => exact absurd hone hd

end Stretches

variable {l m n : Layout} {s t : Shape}

theorem broadcastTo_dims (l : Layout) : l.broadcastTo l.dims = .ok l := by
  rw [broadcastTo_eq_ok_iff,dims,← List.map_reverse]
  exact Stretches.refl _

theorem broadcastTo_trans (h : l.broadcastTo s = .ok m) (h' : m.broadcastTo t = .ok n) : l.broadcastTo t = .ok n := by
  rw [broadcastTo_eq_ok_iff] at h h' ⊢
  exact h.trans h'

/-- Whatever a layout is stretched to at once, it is also stretched to by way of any shape on the way there. -/
theorem broadcastTo_eq_of_stretchesTo (h : l.broadcastTo s = .ok m) (hst : s.StretchesTo t) :
    m.broadcastTo t = l.broadcastTo t := by
  obtain ⟨n,hn⟩ : ∃ n, m.broadcastTo t = .ok n := exists_broadcastTo_iff.2 (by rwa [dims_of_broadcastTo h])
  rw [hn,broadcastTo_trans h hn]

/-- A layout that is stretched to a shape and then further ends as the very layout, strides included, that stretching it
at once gives; and from there it is stretched further to exactly the shapes that the shape stretches to. Stretched to
its own extents, or once more to the shape it was stretched to, a layout stays what it is. -/
theorem broadcastTo_factors (l : Layout) :
    (∀ (s t : Shape) (m n : Layout), l.broadcastTo s = .ok m → m.broadcastTo t = .ok n →
      l.broadcastTo t = .ok n ∧ n.dims = t) ∧
    (∀ (s t : Shape) (m : Layout), l.broadcastTo s = .ok m →
      ((∃ n, m.broadcastTo t = .ok n) ↔ s.StretchesTo t) ∧ (s.StretchesTo t → m.broadcastTo t = l.broadcastTo t)) ∧
    l.broadcastTo l.dims = .ok l ∧
    ∀ (s : Shape) (m : Layout), l.broadcastTo s = .ok m → m.broadcastTo s = .ok m := by
  refine ⟨fun s t m n h h' => ⟨broadcastTo_trans h h',dims_of_broadcastTo h'⟩,fun s t m h => ⟨?_,?_⟩,
    broadcastTo_dims l,fun s m h => ?_⟩
  · rw [exists_broadcastTo_iff,dims_of_broadcastTo h]
  · exact broadcastTo_eq_of_stretchesTo h
  · have hm := broadcastTo_dims m
    rwa [dims_of_broadcastTo h] at hm

theorem ladder_factors :
    let l : Layout := ⟨[⟨1,7⟩,⟨3,-2⟩,⟨1,5⟩]⟩
    let m : Layout := ⟨[⟨1,7⟩,⟨3,-2⟩,⟨4,0⟩]⟩
    let n : Layout := ⟨[⟨2,0⟩,⟨0,0⟩,⟨3,-2⟩,⟨4,0⟩]⟩
    l.broadcastTo [1,3,4] = .ok m ∧ m.broadcastTo [2,0,3,4] = .ok n ∧ l.broadcastTo [2,0,3,4] = .ok n ∧
      m.broadcastTo [1,3,4] = .ok m ∧ Shape.StretchesTo [1,3,4] [2,0,3,4] := by
  intro l m n
  have h : l.broadcastTo [1,3,4] = .ok m := by decide
  have h' : m.broadcastTo [2,0,3,4] = .ok n := by decide
  obtain ⟨htrans,hfurther,-,hagain⟩ := broadcastTo_factors l
  exact ⟨h,h',(htrans _ _ _ _ h h').1,hagain _ _ h,(hfurther _ _ _ h).1.1 ⟨n,h'⟩⟩

end Strided.Layout
