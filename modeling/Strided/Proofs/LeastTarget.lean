import Strided.Proofs.CommonShape

set_option autoImplicit false

namespace Strided

namespace Shape

variable {s t u : Shape}

theorem ext_extent (hl : s.length = t.length) (h : ∀ k, s.extent k = t.extent k) : s = t := by
  refine List.reverse_injective (List.ext_getElem (by simpa using hl) fun k hs ht => ?_)
  have hk := h k
  rwa [extent,extent,List.getElem?_eq_getElem hs,List.getElem?_eq_getElem ht] at hk

theorem agree_comm {d e : Nat} : Agree d e ↔ Agree e d := by
  simp only [Agree]
  omega

theorem wider_comm {d e : Nat} (h : Agree d e) : wider d e = wider e d := by
  simp only [Agree] at h
  simp only [wider]
  split_ifs <;> omega

theorem wider_assoc (d e f : Nat) : wider (wider d e) f = wider d (wider e f) := by
  simp only [wider]
  split_ifs <;> rfl

theorem compatible_comm : Compatible s t ↔ Compatible t s := forall_congr' fun _ => agree_comm

theorem Compatible.joint_comm (h : Compatible s t) : joint s t = joint t s :=
  ext_extent (by simp [Nat.max_comm]) fun k => by rw [extent_joint,extent_joint,wider_comm (h k)]

theorem joint_assoc (s t u : Shape) : joint (joint s t) u = joint s (joint t u) :=
  ext_extent (by simp [Nat.max_assoc]) fun k => by simp only [extent_joint,wider_assoc]

theorem toOption_broadcast (s t : Shape) : (broadcast s t).toOption = if Compatible s t then some (joint s t) else none := by
  by_cases h : Compatible s t
  · rw [broadcast_eq_ok h,if_pos h]
    rfl
  · rw [broadcast_eq_refuse h,if_neg h]
    rfl

theorem toOption_broadcast_comm (s t : Shape) : (broadcast s t).toOption = (broadcast t s).toOption := by
  simp only [toOption_broadcast]
  by_cases h : Compatible s t
  · rw [if_pos h,if_pos (compatible_comm.1 h),h.joint_comm]
  · rw [if_neg h,if_neg (mt compatible_comm.1 h)]

/-- Three shapes have a joint shape if any two of them have one. -/
theorem toOption_broadcast_left (s t u : Shape) :
    ((broadcast s t).toOption.bind fun w => (broadcast w u).toOption) =
      if Compatible s t ∧ Compatible s u ∧ Compatible t u then some (joint (joint s t) u) else none := by
  rw [toOption_broadcast]
  by_cases h : Compatible s t
  · rw [if_pos h,Option.bind_some,toOption_broadcast]
    simp only [h.joint_iff,h,true_and]
  · rw [if_neg h,if_neg fun hc => h hc.1]
    rfl

theorem toOption_broadcast_right (s t u : Shape) :
    ((broadcast t u).toOption.bind fun w => (broadcast s w).toOption) =
      if Compatible s t ∧ Compatible s u ∧ Compatible t u then some (joint s (joint t u)) else none := by
  rw [toOption_broadcast]
  by_cases h : Compatible t u
  · rw [if_pos h,Option.bind_some,toOption_broadcast]
    simp only [compatible_comm (s := s),h.joint_iff,h,and_true]
  · rw [if_neg h,if_neg fun hc => h hc.2.2]
    rfl

theorem StretchesTo.compatible (hs : s.StretchesTo u) (ht : t.StretchesTo u) : Compatible s t := fun k => by
  have hsk := hs.2 k
  have htk := ht.2 k
  simp only [Agree]
  omega

theorem StretchesTo.joint (hs : s.StretchesTo u) (ht : t.StretchesTo u) : (joint s t).StretchesTo u := by
  refine ⟨by rw [length_joint]; exact Nat.max_le.2 ⟨hs.1,ht.1⟩,fun k => ?_⟩
  have hsk := hs.2 k
  have htk := ht.2 k
  rw [extent_joint,wider]
  split <;> omega

theorem stretchesTo_and_iff :
    s.StretchesTo u ∧ t.StretchesTo u ↔ Compatible s t ∧ (Shape.joint s t).StretchesTo u := by
  constructor
  · rintro ⟨hs,ht⟩
    exact ⟨hs.compatible ht,hs.joint ht⟩
  · rintro ⟨hc,h⟩
    exact ⟨(stretchesTo_joint_left s t).trans h,hc.stretchesTo_joint.trans h⟩

theorem broadcast_eq_ok_iff : broadcast s t = .ok u ↔ Compatible s t ∧ u = joint s t := by
  by_cases h : Compatible s t
  · simp [broadcast_eq_ok h,h,eq_comm]
  · simp [broadcast_eq_refuse h,h,refuse]

end Shape

namespace Layout

def Broadcasts (l : Layout) (target : Shape) : Prop := ∃ l', l.broadcastTo target = .ok l'

theorem broadcasts_iff {l : Layout} {target : Shape} : l.Broadcasts target ↔ l.dims.StretchesTo target :=
  exists_broadcastTo_iff

theorem exists_dims_eq (s : Shape) : ∃ l : Layout, l.dims = s := ⟨⟨s.map (⟨·,0⟩)⟩,by simp [dims,Function.comp_def]⟩

/-- Broadcasting two shapes is commutative and, as a partial operation, associative, and it refuses what it does not
broadcast. Two layouts both stretch to a target exactly if their shapes are broadcast to a shape of which some layout
stretches to the target, and then every layout of it does; in particular both stretch to the shape that theirs are
broadcast to. -/
theorem broadcast_leastTarget (s t u : Shape) :
    (s.broadcast t).toOption = (t.broadcast s).toOption ∧
    ((s.broadcast t).toOption.bind fun w => (w.broadcast u).toOption) =
      ((t.broadcast u).toOption.bind fun w => (s.broadcast w).toOption) ∧
    ((∃ w, s.broadcast t = .ok w) ∨ s.broadcast t = refuse (.shapeMismatch s t)) ∧
    ∀ (l m : Layout) (target : Shape), l.dims = s → m.dims = t →
      (l.Broadcasts target ∧ m.Broadcasts target ↔
        ∃ w, s.broadcast t = .ok w ∧ ∃ n : Layout, n.dims = w ∧ n.Broadcasts target) ∧
      (l.Broadcasts target ∧ m.Broadcasts target ↔
        ∃ w, s.broadcast t = .ok w ∧ ∀ n : Layout, n.dims = w → n.Broadcasts target) ∧
      (s.broadcast t = .ok target → l.Broadcasts target ∧ m.Broadcasts target) := by
  refine ⟨Shape.toOption_broadcast_comm s t,?_,?_,?_⟩
  · rw [Shape.toOption_broadcast_left,Shape.toOption_broadcast_right,Shape.joint_assoc]
  · by_cases h : Shape.Compatible s t
    · exact Or.inl ⟨_,Shape.broadcast_eq_ok h⟩
    · exact Or.inr (Shape.broadcast_eq_refuse h)
  · rintro l m target rfl rfl
    simp only [broadcasts_iff,Shape.stretchesTo_and_iff,Shape.broadcast_eq_ok_iff]
    refine ⟨⟨?_,?_⟩,⟨?_,?_⟩,?_⟩
    · rintro ⟨hc,h⟩
      obtain ⟨n,hn⟩ := exists_dims_eq (Shape.joint l.dims m.dims)
      exact ⟨_,⟨hc,rfl⟩,n,hn,by rwa [hn]⟩
    · rintro ⟨w,⟨hc,rfl⟩,n,hn,h⟩
      exact ⟨hc,by rwa [hn] at h⟩
    · rintro ⟨hc,h⟩
      exact ⟨_,⟨hc,rfl⟩,fun n hn => by rwa [hn]⟩
    · rintro ⟨w,⟨hc,rfl⟩,h⟩
      obtain ⟨n,hn⟩ := exists_dims_eq (Shape.joint l.dims m.dims)
      exact ⟨hc,by simpa only [hn] using h n hn⟩
    · rintro ⟨hc,rfl⟩
      exact ⟨hc,Nat.le_refl _,fun _ => Or.inl rfl⟩

theorem rows_leastTarget :
    Shape.broadcast [3,1] [4] = .ok [3,4] ∧ Layout.Broadcasts ⟨[⟨3,-2⟩,⟨1,7⟩]⟩ [3,4] ∧
      Layout.Broadcasts ⟨[⟨4,1⟩]⟩ [3,4] ∧ Layout.Broadcasts ⟨[⟨4,1⟩]⟩ [2,3,4] := by
  have h : Shape.broadcast [3,1] [4] = .ok [3,4] := by decide
  obtain ⟨-,-,-,hl⟩ := broadcast_leastTarget [3,1] [4] [2,1,1]
  obtain ⟨-,-,hboth⟩ := hl ⟨[⟨3,-2⟩,⟨1,7⟩]⟩ ⟨[⟨4,1⟩]⟩ [3,4] rfl rfl
  obtain ⟨hiff,-,-⟩ := hl ⟨[⟨3,-2⟩,⟨1,7⟩]⟩ ⟨[⟨4,1⟩]⟩ [2,3,4] rfl rfl
  have hrows : Layout.Broadcasts ⟨[⟨3,4⟩,⟨4,1⟩]⟩ [2,3,4] := broadcasts_iff.2 (by decide)
  exact ⟨h,(hboth h).1,(hboth h).2,(hiff.2 ⟨_,h,_,rfl,hrows⟩).2⟩

end Layout

end Strided
