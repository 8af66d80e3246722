import Mathlib.Tactic.SplitIfs
import Strided.Proofs.Bounds

set_option autoImplicit false

/-!
The check of a view against its buffer is exact. The two ends that it computes are addresses of the view, each at a
corner of the index box; and where it refuses a sum or a product because that leaves the signed range, two corners of
the box are further apart than any buffer is long, or one of them is beyond every buffer.
-/
namespace Strided

namespace Layout

/-- What the check goes through without a refusal: the low end plus a distance and the high end plus another stay in the
signed range, and so does the way between the two. -/
def Reach.Holds (r : Reach) (below above : Int) : Prop :=
  Address.minSigned ≤ r.low+below ∧ r.high+above ≤ Address.maxSigned ∧ above-below ≤ Address.maxSigned

def Reach.IsSigned (r : Reach) : Prop := Address.IsSigned r.low ∧ Address.IsSigned r.high

theorem Reach.extend_eq (r : Reach) {a : Axis} {n : Nat} {travel : Int} (hn : a.extent = n+1) (h1 : 1 < a.extent)
    (hs : (a.extent : Int) ≤ Address.maxSigned) (ht : n*a.stride = travel) :
    r.extend a =
      if Address.IsSigned travel then
        if 0 ≤ travel then
          if Address.IsSigned (r.high+travel) then .ok ⟨r.low,r.high+travel⟩ else refuse .offsetOverflow
        else if Address.IsSigned (r.low+travel) then .ok ⟨r.low+travel,r.high⟩ else refuse .offsetOverflow
      else refuse .offsetOverflow := by
  have hl : (a.extent : Int)-1 = n := by omega
  have hsub : Address.sub (Address.signed a.extent) 1 = .ok (n : Int) := by
    rw [Address.signed_of_le hs,Address.sub_eq_ok (by rw [hl]; exact Address.isSigned_natCast (by omega)),hl]
  rw [Reach.extend,if_neg (by omega),hsub,ok_bind,checkedMul,Int.mul_comm,ht]
  by_cases hm : Address.IsSigned travel
  · simp only [hm,↓reduceIte,ok_bind,checkedAdd]
    split_ifs <;> rfl
  · simp only [hm,↓reduceIte]
    rfl

theorem Reach.extend_cases {r : Reach} {a : Axis} (h0 : 0 < a.extent) (hs : (a.extent : Int) ≤ Address.maxSigned)
    (hr : r.IsSigned) :
    ∃ i j : Nat, i < a.extent ∧ j < a.extent ∧ i*a.stride ≤ 0 ∧ 0 ≤ j*a.stride ∧
      (r.extend a = .ok ⟨r.low+i*a.stride,r.high+j*a.stride⟩ ∧
          (Reach.mk (r.low+i*a.stride) (r.high+j*a.stride)).IsSigned ∨
        r.extend a = refuse .offsetOverflow ∧ ¬ r.Holds (i*a.stride) (j*a.stride)) := by
  by_cases h1 : a.extent ≤ 1
  · refine ⟨0,0,h0,h0,by simp,by simp,Or.inl ?_⟩
    simpa [Reach.extend,h1] using hr
  · obtain ⟨n,hn⟩ : ∃ n, a.extent = n+1 := ⟨a.extent-1,by omega⟩
    obtain ⟨travel,ht⟩ : ∃ travel, (n : Int)*a.stride = travel := ⟨_,rfl⟩
    rw [r.extend_eq hn (by omega) hs ht]
    by_cases hp : 0 ≤ travel
    · refine ⟨0,n,h0,by omega,by simp,by omega,?_⟩
      simp only [ht,hp,↓reduceIte,Int.natCast_zero,Int.zero_mul,Int.add_zero]
      split_ifs with hm hend
      · exact Or.inl ⟨rfl,hr.1,hend⟩
      all_goals
        refine Or.inr ⟨rfl,?_⟩
        simp only [Reach.IsSigned,Reach.Holds,Address.IsSigned,Address.minSigned,Address.maxSigned] at *
        omega
    · refine ⟨n,0,by omega,h0,by omega,by simp,?_⟩
      simp only [ht,hp,↓reduceIte,Int.natCast_zero,Int.zero_mul,Int.add_zero]
      split_ifs with hm hend
      · exact Or.inl ⟨rfl,hend,hr.2⟩
      all_goals
        refine Or.inr ⟨rfl,?_⟩
        simp only [Reach.IsSigned,Reach.Holds,Address.IsSigned,Address.minSigned,Address.maxSigned] at *
        omega

/-- The ends are addresses at two corners of the index box, or two corners are too far apart. -/
theorem foldlM_extend_cases {axes : List Axis} {r : Reach} (h0 : 0 ∉ axes.map Axis.extent)
    (hs : ∀ a ∈ axes, (a.extent : Int) ≤ Address.maxSigned) (hr : r.IsSigned) :
    ∃ low high, Shape.Contains (axes.map Axis.extent) low ∧ Shape.Contains (axes.map Axis.extent) high ∧
      (axes.foldlM Reach.extend r = .ok ⟨r.low+distanceAlong axes low,r.high+distanceAlong axes high⟩ ∨
        axes.foldlM Reach.extend r = refuse .offsetOverflow ∧
          ¬ r.Holds (distanceAlong axes low) (distanceAlong axes high)) := by
  induction axes generalizing r with
  | nil => exact ⟨[],[],trivial,trivial,Or.inl (by simp [distanceAlong])⟩
  | cons a axes ih =>
    simp only [List.map_cons,List.mem_cons,not_or] at h0
    obtain ⟨i,j,hi,hj,hi0,hj0,⟨hok,hsigned⟩ | ⟨hrefuse,hfar⟩⟩ :=
      Reach.extend_cases (Nat.pos_of_ne_zero (Ne.symm h0.1)) (hs a (by simp)) hr
    · obtain ⟨low,high,hlow,hhigh,hrest⟩ := ih h0.2 (fun b hb => hs b (by simp [hb])) hsigned
      refine ⟨i :: low,j :: high,⟨hi,hlow⟩,⟨hj,hhigh⟩,?_⟩
      rw [List.foldlM_cons,hok,ok_bind]
      simp only [distanceAlong,← Int.add_assoc]
      rcases hrest with hinner | ⟨hrefuse,hfar⟩
      · exact Or.inl hinner
      · refine Or.inr ⟨hrefuse,fun h => hfar ?_⟩
        -- What is too far apart along the inner axes is only further apart along all of them.
        simp only [Reach.Holds] at h ⊢
        omega
    · have horigin := distanceAlong_origin axes
      have hc := Shape.contains_origin h0.2
      refine ⟨i :: _,j :: _,⟨hi,hc⟩,⟨hj,hc⟩,Or.inr ?_⟩
      rw [List.foldlM_cons,hrefuse]
      exact ⟨rfl,by simpa only [distanceAlong,horigin,Int.add_zero] using hfar⟩

theorem checkBounds_cases {l : Layout} {length : Nat} (hl : (length : Int) ≤ Address.maxSigned)
    (hs : ∀ a ∈ l.axes, (a.extent : Int) ≤ Address.maxSigned) (offset : Nat) :
    l.checkBounds length offset = .ok () ∨
      (l.checkBounds length offset = refuse .offsetOverflow ∨ l.checkBounds length offset = refuse (.outOfBuffer length)) ∧
        ¬ ∀ index, l.dims.Contains index → 0 ≤ offset+l.distance index ∧ offset+l.distance index < length := by
  by_cases h0 : 0 ∈ l.dims
  · exact Or.inl (if_pos ((isEmpty_iff l).2 h0))
  have hne : ¬ l.isEmpty = true := mt (isEmpty_iff l).1 h0
  rw [checkBounds,if_neg hne]
  by_cases ho : Address.maxSigned < (offset : Int)
  · refine Or.inr ⟨Or.inl (if_pos ho),fun h => ?_⟩
    have hfirst := h _ (Shape.contains_origin h0)
    rw [distance,dims,distanceAlong_origin] at hfirst
    omega
  rw [if_neg ho]
  have hsigned : Address.IsSigned offset := Address.isSigned_natCast (by omega)
  obtain ⟨low,high,hlow,hhigh,hok | ⟨hrefuse,hfar⟩⟩ := foldlM_extend_cases (r := ⟨offset,offset⟩) h0 hs ⟨hsigned,hsigned⟩
  · rw [hok,ok_bind]
    by_cases hb : offset+distanceAlong l.axes low < 0 ∨ length ≤ Address.unsigned (offset+distanceAlong l.axes high)
    · refine Or.inr ⟨Or.inr (if_pos hb),fun h => ?_⟩
      have h1 := h low hlow
      have h2 := h high hhigh
      rw [distance] at h1 h2
      have hu := Address.unsigned_of_nonneg h2.1 (by omega)
      omega
    · exact Or.inl (if_neg hb)
  · refine Or.inr ⟨Or.inl (by rw [hrefuse]; rfl),fun h => hfar ?_⟩
    have h1 := h low hlow
    have h2 := h high hhigh
    rw [distance] at h1 h2
    simp only [Reach.Holds,Address.minSigned]
    omega

end Layout

namespace View

variable {buffer length : Nat} {dims : Shape} {strides : List Int}

theorem exists_parts (buffer : Nat) (h : dims.length = strides.length) (offset : Nat) :
    ∃ v : View, v.buffer = buffer ∧ v.offset = offset ∧ v.dims = dims ∧ v.layout.strides = strides :=
  ⟨{ buffer, layout := ⟨List.zipWith Axis.mk dims strides⟩, offset },rfl,rfl,Layout.axes_of_ofStrides (if_pos h)⟩

theorem ofBuffer_parts (v : View) (length : Nat) :
    ofBuffer v.buffer length v.dims v.layout.strides v.offset =
      (v.layout.checkBounds length v.offset >>= fun _ => .ok v) := by
  have hl : Layout.ofStrides v.dims v.layout.strides = .ok v.layout := by
    simp [Layout.ofStrides,dims,Layout.dims,Layout.strides,List.zipWith_map]
  rw [ofBuffer,hl,ok_bind]

/-- Parts whose extents fit signed words make a view exactly if it has no elements or every one of them in the buffer.
All others are refused, because a sum leaves the signed range or because the buffer is left. -/
theorem ofBuffer_exact (hlen : (length : Int) ≤ Address.maxSigned) (hd : ∀ d ∈ dims, (d : Int) ≤ Address.maxSigned)
    (hr : dims.length = strides.length) (offset : Nat) :
    ∃ v : View, (v.buffer = buffer ∧ v.offset = offset ∧ v.dims = dims ∧ v.layout.strides = strides) ∧
      (ofBuffer buffer length dims strides offset = .ok v ↔
        0 ∈ dims ∨ ∀ index, dims.Contains index → 0 ≤ v.address index ∧ v.address index < length) ∧
      (ofBuffer buffer length dims strides offset = .ok v ∨
        ofBuffer buffer length dims strides offset = refuse .offsetOverflow ∨
        ofBuffer buffer length dims strides offset = refuse (.outOfBuffer length)) := by
  obtain ⟨v,rfl,rfl,rfl,rfl⟩ := exists_parts buffer hr offset
  have hs : ∀ a ∈ v.layout.axes, (a.extent : Int) ≤ Address.maxSigned := fun a ha => hd _ (List.mem_map_of_mem ha)
  refine ⟨v,⟨rfl,rfl,rfl,rfl⟩,⟨fun h => Or.inr (inside_of_ofBuffer hd h).2,fun h => ?_⟩,?_⟩
  · have hin : v.Inside length := h.elim (fun h0 index hi => (Shape.not_contains_of_mem h0 index hi).elim) id
    rcases Layout.checkBounds_cases hlen hs v.offset with hok | ⟨-,hout⟩
    · rw [ofBuffer_parts,hok,ok_bind]
    · exact absurd hin hout
  · rw [ofBuffer_parts]
    rcases Layout.checkBounds_cases hlen hs v.offset with hok | ⟨hf | hb,-⟩
    · exact Or.inl (by rw [hok,ok_bind])
    · exact Or.inr (Or.inl (by rw [hf]; rfl))
    · exact Or.inr (Or.inr (by rw [hb]; rfl))

theorem brickwork_exact :
    ∃ v, ofBuffer 0 6 [2,3] [-1,2] 1 = .ok v ∧
      ∀ i j, i < 2 → j < 3 → 0 ≤ v.address [i,j] ∧ v.address [i,j] < 6 := by
  obtain ⟨v,-,hinside,hends⟩ := @ofBuffer_exact 0 6 [2,3] [-1,2] (by decide) (by decide) rfl 1
  have hok : ofBuffer 0 6 [2,3] [-1,2] 1 = .ok v := hends.resolve_right (by decide)
  exact ⟨v,hok,fun i j hi hj => (hinside.1 hok).resolve_left (by decide) [i,j] ⟨hi,hj,trivial⟩⟩

end View

end Strided
