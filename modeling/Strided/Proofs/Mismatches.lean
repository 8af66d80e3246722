import Strided.Proofs.Addresses
import Strided.Proofs.Counting

set_option autoImplicit false

namespace Strided

theorem Block.ofList_eq_ite {α : Type} (dims : Shape) (data : List α) :
    ofList dims data =
      if dims.InRange then
        if dims.volume = data.length then .ok { layout := ⟨Layout.steppedAxes dims⟩, data }
        else refuse (.lengthMismatch dims.volume data.length)
      else abort .multiplyOverflow :=
  Layout.rowMajor_bind_size dims _

namespace View

theorem reshape_eq_ite {v : View} (hc : v.isContiguous = true) (dims : Shape) :
    v.reshape dims =
      if dims.InRange ∧ v.dims.Countable then
        if dims.volume = v.dims.volume then .ok { v with layout := ⟨Layout.steppedAxes dims⟩ }
        else refuse (.shapeMismatch v.dims dims)
      else abort .multiplyOverflow := by
  have hsize : v.size = if v.dims.Countable then .ok v.dims.volume else abort .multiplyOverflow :=
    Shape.size_eq v.dims
  rw [reshape,Layout.rowMajor_bind_size,hsize]
  by_cases hd : dims.InRange
  · by_cases hv : v.dims.Countable
    · simp only [hd,hv,hc,and_self,↓reduceIte,ok_bind,ne_eq,ite_not]
    · simp only [hd,hv,and_false,↓reduceIte]
      rfl
  · simp only [hd,false_and,↓reduceIte]

theorem Inside.inRange {v : View} {length : Nat} (hv : v.Inside length) (hn : (length : Int) ≤ Address.maxSigned)
    (hc : v.isContiguous = true) (h0 : 0 ∉ v.dims) {dims : Shape} (hd : dims.volume = v.dims.volume) : dims.InRange := by
  obtain ⟨hle,-⟩ := hv.distance_eq_rank hn h0 hc
  have hp : v.dims.volume ≠ 0 := mt (Shape.volume_eq_zero_iff _).1 h0
  exact Shape.inRange_of_volume_pos (by omega) (by omega)

/-- Values are taken for a shape, and a contiguous view under other extents, where there is one for each element, and
otherwise they are refused with both numbers or both shapes, provided that the strides and the sizes are in range, and
abort if they are not. They are in range where the product of the extents other than 0 is a signed word, and where there
are values and one for each element. -/
theorem shapes_answered {α : Type} (dims : Shape) (data : List α) {v : View} (hc : v.isContiguous = true) :
    (dims.InRange →
      (dims.volume = data.length → ∃ b, Block.ofList dims data = .ok b ∧ b.dims = dims ∧ b.data = data) ∧
      (dims.volume ≠ data.length →
        Block.ofList dims data = refuse (.lengthMismatch dims.volume data.length))) ∧
    (¬ dims.InRange → Block.ofList dims data = abort .multiplyOverflow) ∧
    (dims.InRange ∧ v.dims.Countable →
      (dims.volume = v.dims.volume →
        ∃ w, v.reshape dims = .ok w ∧ w.dims = dims ∧ w.buffer = v.buffer ∧ w.offset = v.offset) ∧
      (dims.volume ≠ v.dims.volume → v.reshape dims = refuse (.shapeMismatch v.dims dims))) ∧
    (¬ (dims.InRange ∧ v.dims.Countable) → v.reshape dims = abort .multiplyOverflow) ∧
    ((dims.span : Int) ≤ Address.maxSigned → dims.InRange) ∧
    (0 < data.length → (data.length : Int) ≤ Address.maxSigned → dims.volume = data.length → dims.InRange) ∧
    ∀ length : Nat, (length : Int) ≤ Address.maxSigned → v.Inside length → 0 ∉ v.dims →
      v.dims.Countable ∧ (dims.volume = v.dims.volume → dims.InRange) := by
  have hd : Layout.dims ⟨Layout.steppedAxes dims⟩ = dims := Layout.map_extent_steppedAxes dims
  rw [Block.ofList_eq_ite,reshape_eq_ite hc]
  refine ⟨fun hr => ?_,fun hr => if_neg hr,fun hr => ?_,fun hr => if_neg hr,Shape.inRange_of_span_le,
    fun hp hl hv => ?_,fun _ hl hv h0 => ?_⟩
  · rw [if_pos hr]
    exact ⟨fun hv => ⟨_,if_pos hv,hd,rfl⟩,fun hv => if_neg hv⟩
  · rw [if_pos hr]
    exact ⟨fun hv => ⟨_,if_pos hv,hd,rfl,rfl⟩,fun hv => if_neg hv⟩
  · exact Shape.inRange_of_volume_pos (by omega) (by omega)
  · exact ⟨(hv.inRange hl hc h0 rfl).2,hv.inRange hl hc h0⟩

def tray : View := { buffer := 0, layout := ⟨[⟨2,2⟩,⟨2,1⟩]⟩, offset := 0 }

theorem tray_shapes_answered : tray.isContiguous = true ∧
    (∃ w, tray.reshape [4] = .ok w ∧ w.dims = [4]) ∧ tray.reshape [3] = refuse (.shapeMismatch [2,2] [3]) ∧
    Block.ofList [3] [true] = refuse (.lengthMismatch 3 1) := by
  have hc : tray.isContiguous = true := by decide
  obtain ⟨-,-,hfit,-⟩ := shapes_answered [4] [true] hc
  obtain ⟨hlist,-,hmiss,-⟩ := shapes_answered [3] [true] hc
  obtain ⟨w,hw,hd,-⟩ := (hfit (by decide)).1 (by decide)
  exact ⟨hc,⟨w,hw,hd⟩,(hmiss (by decide)).2 (by decide),(hlist (by decide)).2 (by decide)⟩

/-- The first shape has no elements and the second one has 2^63; both abort where there are no values. -/
theorem vast_shapes_abort :
    let empty : View := { buffer := 0, layout := ⟨[⟨0,1⟩]⟩, offset := 0 }
    empty.isContiguous = true ∧ empty.Inside 0 ∧
    Shape.volume [2^40,2^40,0] = 0 ∧ Block.ofList [2^40,2^40,0] ([] : List Bool) = abort .multiplyOverflow ∧
    empty.reshape [2^40,2^40,0] = abort .multiplyOverflow ∧
    Shape.volume [1,2^32,2^31] ≠ 0 ∧ Block.ofList [1,2^32,2^31] ([] : List Bool) = abort .multiplyOverflow ∧
    empty.reshape [1,2^32,2^31] = abort .multiplyOverflow := by
  have hlist (s : Shape) (hs : ¬ s.InRange) : Block.ofList s ([] : List Bool) = abort .multiplyOverflow := by
    rw [Block.ofList_eq_ite,if_neg hs]
  have hview (s : Shape) (hs : ¬ s.InRange) :
      View.reshape { buffer := 0, layout := ⟨[⟨0,1⟩]⟩, offset := 0 } s = abort .multiplyOverflow := by
    rw [reshape_eq_ite (by decide),if_neg fun h => hs h.1]
  exact ⟨by decide,by decide,by decide,hlist _ (by decide),hview _ (by decide),by decide,hlist _ (by decide),
    hview _ (by decide)⟩

end View

end Strided
