import Strided.Proofs.Reindexing

set_option autoImplicit false

namespace Strided

namespace Shape

/-- The extent of the axis that is `k` axes further out than the innermost one, and 1 where there is no such axis. -/
def extent (s : Shape) (k : Nat) : Nat := (s.reverse[k]?).getD 1

def Agree (d e : Nat) : Prop := d = e ∨ d = 1 ∨ e = 1

instance (d e : Nat) : Decidable (Agree d e) := inferInstanceAs (Decidable (_ ∨ _ ∨ _))

def wider (d e : Nat) : Nat := if d = 1 then e else d

theorem agree_wider_iff {d e f : Nat} (h : Agree d e) : Agree (wider d e) f ↔ Agree d f ∧ Agree e f := by
  simp only [Agree,wider] at h ⊢
  split <;> omega

def Compatible (s t : Shape) : Prop := ∀ k, Agree (s.extent k) (t.extent k)

/-- The shape that two compatible shapes have together; what it is for others does not matter. -/
def joint (s t : Shape) : Shape :=
  ((List.range (max s.length t.length)).map fun k => wider (s.extent k) (t.extent k)).reverse

def StretchesTo (s t : Shape) : Prop := s.length ≤ t.length ∧ ∀ k, s.extent k = t.extent k ∨ s.extent k = 1

variable {s t u : Shape}

theorem extent_of_length_le {k : Nat} (h : s.length ≤ k) : s.extent k = 1 := by simp [extent,h]

instance : Decidable (Compatible s t) :=
  decidable_of_iff (∀ k < max s.length t.length, Agree (s.extent k) (t.extent k)) (by
    refine ⟨fun h k => ?_,fun h k _ => h k⟩
    by_cases hk : k < max s.length t.length
    · exact h k hk
    · exact Or.inr (Or.inl (extent_of_length_le (by omega))))

instance : Decidable (StretchesTo s t) :=
  decidable_of_iff (s.length ≤ t.length ∧ ∀ k < t.length, s.extent k = t.extent k ∨ s.extent k = 1) (by
    refine and_congr_right fun hl => ⟨fun h k => ?_,fun h k _ => h k⟩
    by_cases hk : k < t.length
    · exact h k hk
    · exact Or.inr (extent_of_length_le (by omega)))

theorem broadcastExtent_eq {d e : Nat} : broadcastExtent d e = if Agree d e then some (wider d e) else none := by
  simp only [broadcastExtent,Agree,wider]
  split_ifs <;> grind

theorem broadcastReversed_eq_some {s t : Shape} (h : ∀ k : Nat, Agree ((s[k]?).getD 1) ((t[k]?).getD 1)) :
    broadcastReversed s t =
      some ((List.range (max s.length t.length)).map fun k => wider ((s[k]?).getD 1) ((t[k]?).getD 1)) := by
  induction s generalizing t with
  | nil =>
    rw [broadcastReversed,Option.some.injEq]
    refine List.ext_getElem (by simp) fun k hk _ => ?_
    simp [wider,hk]
  | cons d s ih =>
    cases t with
    | nil =>
      rw [broadcastReversed,Option.some.injEq]
      refine List.ext_getElem (by simp) fun k hk _ => ?_
      simp only [List.length_cons] at hk
      simp +contextual [wider,hk]
    | cons e t =>
      have hd : Agree d e := h 0
      simp [broadcastReversed,broadcastExtent_eq,hd,ih fun k => h (k+1),Nat.succ_max_succ,List.range_succ_eq_map]

theorem agree_of_broadcastReversed {s t u : Shape} (h : broadcastReversed s t = some u) (k : Nat) :
    Agree ((s[k]?).getD 1) ((t[k]?).getD 1) := by
  induction s generalizing t u k with
  | nil => simp [Agree]
  | cons d s ih =>
    cases t with
    | nil => simp [Agree]
    | cons e t =>
      simp only [broadcastReversed,broadcastExtent_eq,Option.bind_eq_bind,Option.bind_eq_some_iff] at h
      obtain ⟨extent,hd,rest,hrest,-⟩ := h
      cases k with
      | zero => simpa using (Option.ite_none_right_eq_some.1 hd).1
      | succ k => simpa using ih hrest k

theorem broadcast_eq_ok (h : Compatible s t) : broadcast s t = .ok (joint s t) := by
  rw [broadcast,broadcastReversed_eq_some h]
  simp [joint,extent]

theorem broadcast_eq_refuse (h : ¬ Compatible s t) : broadcast s t = refuse (.shapeMismatch s t) := by
  rw [broadcast]
  cases hr : broadcastReversed s.reverse t.reverse with
  | none => rfl
  | some u => exact absurd (agree_of_broadcastReversed hr) h

@[simp] theorem length_joint (s t : Shape) : (joint s t).length = max s.length t.length := by simp [joint]

theorem extent_joint (s t : Shape) (k : Nat) : (joint s t).extent k = wider (s.extent k) (t.extent k) := by
  by_cases hk : k < max s.length t.length
  · rw [extent,joint,List.reverse_reverse]
    simp [hk]
  · rw [extent_of_length_le (by rw [length_joint]; omega),extent_of_length_le (s := s) (by omega),
      extent_of_length_le (s := t) (by omega)]
    rfl

/-- What is compatible with two compatible shapes is compatible with their joint shape, and nothing else is. -/
theorem Compatible.joint_iff (h : Compatible s t) : Compatible (joint s t) u ↔ Compatible s u ∧ Compatible t u := by
  simp only [Compatible,extent_joint,agree_wider_iff (h _),forall_and]

theorem stretchesTo_joint_left (s t : Shape) : s.StretchesTo (joint s t) := by
  refine ⟨by rw [length_joint]; exact Nat.le_max_left _ _,fun k => ?_⟩
  rw [extent_joint,wider]
  split <;> simp_all

theorem Compatible.stretchesTo_joint (h : Compatible s t) : t.StretchesTo (joint s t) := by
  refine ⟨by rw [length_joint]; exact Nat.le_max_right _ _,fun k => ?_⟩
  have hk := h k
  simp only [Agree,extent_joint,wider] at hk ⊢
  split <;> omega

theorem StretchesTo.trans (h : s.StretchesTo t) (h' : t.StretchesTo u) : s.StretchesTo u := by
  refine ⟨Nat.le_trans h.1 h'.1,fun k => ?_⟩
  have hk := h.2 k
  have hk' := h'.2 k
  omega

end Shape

namespace Layout

theorem exists_stretches_iff {axes : List Axis} {target : Shape} :
    (∃ axes', Stretches axes target axes') ↔ axes.length ≤ target.length ∧ ∀ k : Nat,
      ((axes.map Axis.extent)[k]?).getD 1 = (target[k]?).getD 1 ∨ ((axes.map Axis.extent)[k]?).getD 1 = 1 := by
  constructor
  · rintro ⟨axes',h⟩
    refine ⟨h.length_le,fun k => ?_⟩
    induction h generalizing k with
    | fresh target => simp
    | keep a _ ih =>
      cases k with
      | zero => simp
      | succ k => simpa using ih k
    | still ha _ _ ih =>
      cases k with
      | zero => simp [ha]
      | succ k => simpa using ih k
  · rintro ⟨hl,h⟩
    induction axes generalizing target with
    | nil => exact ⟨_,.fresh target⟩
    | cons a axes ih =>
      cases target with
      | nil => simp at hl
      | cons d target =>
        obtain ⟨axes',hs⟩ := ih (by simpa using hl) fun k => by simpa using h (k+1)
        have ha : a.extent = d ∨ a.extent = 1 := by simpa using h 0
        by_cases he : a.extent = d
        · subst he
          exact ⟨_,.keep a hs⟩
        · have h1 : a.extent = 1 := by omega
          exact ⟨_,.still h1 (by omega) hs⟩

theorem exists_broadcastTo_iff {l : Layout} {target : Shape} :
    (∃ l', l.broadcastTo target = .ok l') ↔ l.dims.StretchesTo target := by
  have h : (∃ l', l.broadcastTo target = .ok l') ↔ ∃ axes, Stretches l.axes.reverse target.reverse axes := by
    refine ⟨fun ⟨l',hl⟩ => ⟨_,broadcastTo_eq_ok_iff.1 hl⟩,fun ⟨axes,ha⟩ => ⟨⟨axes.reverse⟩,?_⟩⟩
    exact broadcastTo_eq_ok_iff.2 (by rwa [List.reverse_reverse])
  rw [h,exists_stretches_iff]
  simp [Shape.StretchesTo,Shape.extent,dims]

end Layout

end Strided
