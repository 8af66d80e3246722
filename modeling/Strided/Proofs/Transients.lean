import Strided.Proofs.Addresses
import Strided.Proofs.Bounds

set_option autoImplicit false

/-!
What the address arithmetic goes through for a view that the check of the bounds accepts. Every element can be reached.
But the check passes over the axes of extent 1 and over all axes of an empty view. A walk steps along an axis of extent
1 to step back at once, and a slab of an empty view is given a start like any other; both may leave the signed range.
-/
namespace Strided.View

variable {buffer length offset : Nat} {dims : Shape} {strides : List Int} {v : View}

theorem not_inside_of_wrapped (hl : length ≤ Address.maxUnsigned) (h0 : 0 ∉ v.dims)
    (h : v.layout.checkBounds length v.offset = .ok ()) {a : Axis} (ha : a ∈ v.layout.axes)
    (he : Address.maxSigned < (a.extent : Int)) (hn : a.extent ≤ Address.maxUnsigned) (hs : a.stride ≠ 0) :
    ¬ v.Inside length := by
  intro hv
  obtain ⟨ho,reach,hr,hlow,-⟩ := Layout.checkBounds_eq_ok h h0
  obtain ⟨hbig,hup⟩ := Layout.foldlM_extend_wrapped hr ha he hn
  obtain ⟨axis,hk⟩ := List.mem_iff_getElem?.1 ha
  obtain ⟨-,hge,hlt⟩ := hv.natAbs_lt hk (i := a.extent-1) (by omega) h0
  simp only [Address.maxSigned,Address.maxUnsigned] at hl ho
  have hc : ((a.extent-1 : Nat) : Int) = a.extent-1 := by omega
  rw [hc] at hge hlt
  rcases Int.lt_or_gt_of_ne hs with hneg | hpos
  · -- Going down, the last coordinate lies further below the start than any start lies above 0.
    have hdown : ((a.extent : Int)-1)*a.stride ≤ ((a.extent : Int)-1)*(-1) :=
      Int.mul_le_mul_of_nonneg_left (by omega) (by omega)
    omega
  · -- Going up, the start has been checked to leave room below it for what is missing to a whole turn of addresses.
    have hroom := hup hpos
    have hturn : a.stride*((a.extent : Int)-2^64-1) = ((a.extent : Int)-1)*a.stride-a.stride*2^64 := by
      rw [show (a.extent : Int)-2^64-1 = (a.extent : Int)-1-2^64 by omega,Int.mul_sub,Int.mul_comm]
    simp only [hturn] at hroom
    omega

/-- An accepted view without an extent 0 is inside its buffer exactly if each of its axes stands still or has an extent
that fits a signed word. -/
theorem inside_iff_of_ofBuffer (hl : length ≤ Address.maxUnsigned) (hd : ∀ d ∈ dims, d ≤ Address.maxUnsigned)
    (h : ofBuffer buffer length dims strides offset = .ok v) (h0 : 0 ∉ dims) :
    (v.buffer = buffer ∧ v.offset = offset ∧ v.dims = dims ∧ v.layout.strides = strides) ∧
      ((∀ index, dims.Contains index → 0 ≤ v.address index ∧ v.address index < length) ↔
        ∀ a ∈ v.layout.axes, a.stride = 0 ∨ (a.extent : Int) ≤ Address.maxSigned) := by
  obtain ⟨rfl,rfl,rfl,rfl,hc⟩ := ofBuffer_eq_ok h
  refine ⟨⟨rfl,rfl,rfl,rfl⟩,fun hv a ha => ?_,inside_of_checkBounds hc⟩
  by_cases hs : a.stride = 0
  · exact Or.inl hs
  · refine Or.inr (Int.not_lt.1 fun he => ?_)
    exact not_inside_of_wrapped hl h0 hc ha he (hd _ (List.mem_map_of_mem ha)) hs hv

theorem stretched_rows_inside :
    ∃ v, ofBuffer 0 2 [2^64-1,2] [0,-1] 1 = .ok v ∧
      ∀ i j, i < 2^64-1 → j < 2 → 0 ≤ v.address [i,j] ∧ v.address [i,j] < 2 := by
  have h : ofBuffer 0 2 [2^64-1,2] [0,-1] 1 = .ok { buffer := 0, layout := ⟨[⟨2^64-1,0⟩,⟨2,-1⟩]⟩, offset := 1 } := by
    decide
  obtain ⟨-,hin⟩ := inside_iff_of_ofBuffer (by decide) (by decide) h (by decide)
  exact ⟨_,h,fun i j hi hj => hin.2 (by decide) [i,j] ⟨hi,hj,trivial⟩⟩

theorem wrapped_view_outside :
    ∃ v, ofBuffer 0 3 [2^64-1] [-1] 0 = .ok v ∧ 0 ∉ v.dims ∧ v.dims.Contains [1] ∧ v.address [1] = -1 :=
  ⟨{ buffer := 0, layout := ⟨[⟨2^64-1,-1⟩]⟩, offset := 0 },by decide,by decide,by decide,by decide⟩

end Strided.View

namespace Strided

open Steps (Answers)

namespace Layout

theorem exists_corners {axes : List Axis} (h0 : 0 ∉ axes.map Axis.extent) :
    ∃ low high, Shape.Contains (axes.map Axis.extent) low ∧ Shape.Contains (axes.map Axis.extent) high ∧
      distanceAlong axes low+swing axes = distanceAlong axes high := by
  induction axes with
  | nil => exact ⟨[],[],trivial,trivial,rfl⟩
  | cons a axes ih =>
    simp only [List.map_cons,List.mem_cons,not_or] at h0
    obtain ⟨low,high,hl,hh,hd⟩ := ih h0.2
    have hpos : 0 < a.extent := Nat.pos_of_ne_zero (Ne.symm h0.1)
    have hlast : a.extent-1 < a.extent := by omega
    rcases Int.natAbs_eq a.stride with hs | hs
    · refine ⟨0 :: low,(a.extent-1) :: high,⟨hpos,hl⟩,⟨hlast,hh⟩,?_⟩
      have hm : ((a.extent-1 : Nat) : Int)*a.stride = ((a.stride.natAbs*(a.extent-1) : Nat) : Int) := by
        rw [Int.natCast_mul,Int.mul_comm,← hs]
      simp only [distanceAlong,swing,hm]
      omega
    · refine ⟨(a.extent-1) :: low,0 :: high,⟨hlast,hl⟩,⟨hpos,hh⟩,?_⟩
      have hm : ((a.extent-1 : Nat) : Int)*a.stride = -((a.stride.natAbs*(a.extent-1) : Nat) : Int) := by
        rw [Int.natCast_mul,Int.mul_comm,← Int.neg_mul,← hs]
      simp only [distanceAlong,swing,hm]
      omega

end Layout

namespace Offsets

/-- The place where the odometer jams, by itself: an index of the outer axes, an axis of extent 1, and the last index of
the inner axes. -/
theorem jammed_iff {axes : List Axis} {index : List Nat} {base : Int}
    (h : Shape.Contains (axes.map Axis.extent) index) :
    Jammed axes index base ↔ ∃ outer a inner i j, axes = outer++a::inner ∧ index = i++0::j ∧
      Shape.Contains (outer.map Axis.extent) i ∧
      Shape.rank (inner.map Axis.extent) j+1 = Shape.volume (inner.map Axis.extent) ∧ a.extent = 1 ∧
      ¬ Address.IsSigned (base+Layout.distanceAlong outer i+a.stride) := by
  induction axes generalizing index base with
  | nil => cases index <;> simp [Jammed]
  | cons a axes ih =>
    cases index with
    | nil => exact h.elim
    | cons k index =>
      rw [Jammed,ih h.2]
      constructor
      · rintro (⟨outer,b,inner,i,j,rfl,rfl,hi,hj,hb,hs⟩ | ⟨hj,ha,hs⟩)
        · refine ⟨a :: outer,b,inner,k :: i,j,rfl,rfl,⟨h.1,hi⟩,hj,hb,?_⟩
          rwa [Layout.distanceAlong,← Int.add_assoc]
        · have hk : k = 0 := by have := h.1; omega
          exact ⟨[],a,axes,[],index,rfl,by rw [hk]; rfl,trivial,hj,ha,by simpa [Layout.distanceAlong] using hs⟩
      · rintro ⟨outer,b,inner,i,j,haxes,hindex,hi,hj,hb,hs⟩
        cases outer with
        | nil =>
          obtain ⟨rfl,rfl⟩ := List.cons.inj haxes
          cases i with
          | nil =>
            obtain ⟨rfl,rfl⟩ := List.cons.inj hindex
            exact Or.inr ⟨hj,hb,by simpa [Layout.distanceAlong] using hs⟩
          | cons _ _ => exact hi.elim
        | cons c outer =>
          obtain ⟨rfl,rfl⟩ := List.cons.inj haxes
          cases i with
          | nil => exact hi.elim
          | cons l i =>
            obtain ⟨rfl,rfl⟩ := List.cons.inj hindex
            refine Or.inl ⟨outer,b,inner,i,j,rfl,rfl,hi.2,hj,hb,?_⟩
            rwa [Layout.distanceAlong,← Int.add_assoc] at hs

theorem exists_jammed_iff {axes : List Axis} {base : Int} (h0 : 0 ∉ axes.map Axis.extent) :
    (∃ index, Shape.Contains (axes.map Axis.extent) index ∧
      Shape.rank (axes.map Axis.extent) index+1 < Shape.volume (axes.map Axis.extent) ∧ Jammed axes index base) ↔
    ∃ outer a inner i, axes = outer++a::inner ∧ a.extent = 1 ∧ Shape.Contains (outer.map Axis.extent) i ∧
      Shape.rank (outer.map Axis.extent) i+1 < Shape.volume (outer.map Axis.extent) ∧
      ¬ Address.IsSigned (base+Layout.distanceAlong outer i+a.stride) := by
  have hlast {outer inner : List Axis} {a : Axis} (ha : a.extent = 1) {i j : List Nat}
      (hi : Shape.Contains (outer.map Axis.extent) i)
      (hj : Shape.rank (inner.map Axis.extent) j+1 = Shape.volume (inner.map Axis.extent)) :
      Shape.rank ((outer++a::inner).map Axis.extent) (i++0::j)+1 < Shape.volume ((outer++a::inner).map Axis.extent) ↔
        Shape.rank (outer.map Axis.extent) i+1 < Shape.volume (outer.map Axis.extent) := by
    rw [List.map_append,Shape.rank_append hi,Shape.volume_append,List.map_cons,Shape.volume,Shape.rank,ha,Nat.one_mul,
      Nat.zero_mul,Nat.zero_add,Nat.add_assoc,hj,← Nat.succ_mul]
    exact Nat.mul_lt_mul_right (by omega)
  constructor
  · rintro ⟨index,hi,hr,hj⟩
    obtain ⟨outer,a,inner,i,j,rfl,rfl,hi,hj,ha,hs⟩ := (jammed_iff hi).1 hj
    exact ⟨outer,a,inner,i,rfl,ha,hi,(hlast ha hi hj).1 hr,hs⟩
  · rintro ⟨outer,a,inner,i,rfl,ha,hi,hr,hs⟩
    have hz : 0 ∉ inner.map Axis.extent := fun hz => h0 (by simp at hz ⊢; exact Or.inr (Or.inr hz))
    have hv : 0 < Shape.volume (inner.map Axis.extent) :=
      Nat.pos_of_ne_zero fun hv => hz ((Shape.volume_eq_zero_iff _).1 hv)
    obtain ⟨j,hj,hrank⟩ := Shape.exists_rank_eq (Nat.sub_lt hv Nat.one_pos)
    have hc : Shape.Contains ((outer++a::inner).map Axis.extent) (i++0::j) := by
      rw [List.map_append,List.map_cons]
      exact hi.append ⟨by omega,hj⟩
    have hj' : Shape.rank (inner.map Axis.extent) j+1 = Shape.volume (inner.map Axis.extent) := by omega
    exact ⟨i++0::j,hc,(hlast ha hi hj').2 hr,(jammed_iff hc).2 ⟨outer,a,inner,i,j,rfl,rfl,hi,hj',ha,hs⟩⟩

end Offsets

namespace View

variable {v : View} {length : Nat}

/-- A walk over the cells of a view that is not contiguous comes to an axis of extent 1 whose step leads out of the
signed range, at an index of the axes outside of it that is not their last. -/
def Jams (v : View) : Prop :=
  v.isContiguous = false ∧ ∃ outer a inner index, v.layout.axes = outer++a::inner ∧ a.extent = 1 ∧
    Shape.Contains (outer.map Axis.extent) index ∧
    Shape.rank (outer.map Axis.extent) index+1 < Shape.volume (outer.map Axis.extent) ∧
    ¬ Address.IsSigned (v.offset+Layout.distanceAlong outer index+a.stride)

theorem Inside.near (hv : v.Inside length) (hl : length ≤ 2^50) (hs : v.dims.span ≤ 2^50) (h0 : 0 ∉ v.dims) :
    v.start = v.offset ∧ v.Near length := by
  have hz : 0 ∉ v.layout.axes.map Axis.extent := h0
  obtain ⟨low,high,hlow,hhigh,hd⟩ := Layout.exists_corners hz
  have hfirst := hv _ (Shape.contains_origin h0)
  have h1 := hv low hlow
  have h2 := hv high hhigh
  simp only [address,Layout.distance] at hfirst h1 h2
  have ho : Layout.distanceAlong v.layout.axes v.dims.origin = 0 := Layout.distanceAlong_origin v.layout.axes
  have hstart : v.start = v.offset := Address.signed_of_le_two_pow (by omega)
  refine ⟨hstart,hs,by omega,fun index hi => ?_⟩
  rw [hstart]
  exact hv index hi

theorem exists_jammed_iff_jams (h0 : 0 ∉ v.dims) (hstart : v.start = v.offset) (hc : v.isContiguous = false) :
    (∃ index, v.dims.Contains index ∧ v.dims.rank index+1 < v.dims.volume ∧
      Offsets.Jammed v.layout.axes index v.start) ↔ v.Jams := by
  rw [hstart,Jams]
  exact (Offsets.exists_jammed_iff h0).trans ⟨fun h => ⟨hc,h⟩,And.right⟩

theorem drains_of_zero_mem (h0 : 0 ∈ v.dims) (hs : v.dims.span ≤ 2^50) : v.Drains ∧ ¬ v.Jams := by
  have hv : v.dims.volume = 0 := (Shape.volume_eq_zero_iff _).2 h0
  have hc : v.isContiguous = true := by rw [isContiguous,Layout.isContiguous,(Layout.isEmpty_iff _).2 h0,Bool.true_or]
  have hsize : v.size = .ok 0 := by
    rw [← hv]
    exact Shape.size_eq_ok (Nat.le_trans hs (by decide))
  exact ⟨drains_of_size_eq_zero hsize,fun hj => Bool.noConfusion (hc.symm.trans hj.1)⟩

theorem exists_slabAlong_iff {axis i : Nat} {a : Axis} (ha : v.layout.axes[axis]? = some a) (hi : i < a.extent)
    (he : a.extent ≤ 2^50) :
    (∃ w, v.slabAlong axis i = .ok w) ↔
      Address.IsSigned (i*a.stride) ∧ Address.IsSigned (v.start+i*a.stride) := by
  rw [slabAlong_eq_slabAt ha hi]
  simp only [slabAt,ha,Option.map_some,Option.getD_some]
  rw [Address.signed_of_le_two_pow (by omega)]
  constructor
  · rintro ⟨w,hw⟩
    obtain ⟨distance,hm,hw⟩ := bind_eq_ok.1 hw
    obtain ⟨hsigned,rfl⟩ := Address.mul_eq_ok_iff.1 hm
    obtain ⟨offset,hp,-⟩ := bind_eq_ok.1 hw
    obtain ⟨position,hp,-⟩ := bind_eq_ok.1 hp
    exact ⟨hsigned,(Address.add_eq_ok_iff.1 hp).1⟩
  · rintro ⟨hm,hp⟩
    rw [start] at hp
    rw [Address.mul_eq_ok hm,ok_bind,cellAt,Address.add_eq_ok hp,ok_bind,ok_bind]
    exact ⟨_,rfl⟩

end View

namespace Snapshot

variable {α : Type} [Element α] {s : Snapshot α}

def Traversed (s : Snapshot α) : Prop :=
  (∃ o cells, s.view.offsets = .ok o ∧ Answers Offsets.next? cells o ∧ o.toList = .ok cells ∧
    cells.map Int.ofNat = s.dims.indices.map s.view.address) ∧
  ∃ xs, s.toList = .ok xs ∧ s.dims.indices.mapM s.get = .ok xs

theorem traversed_of_drains (hd : s.view.Drains) (hs : s.dims.span ≤ 2^50)
    (ha : ∀ index, s.dims.Contains index → (s.view.cell index : Int) = s.view.address index)
    (hr : ∀ index, s.dims.Contains index → s.heap.read s.view.buffer (s.view.cell index) = .ok (s.valueAt index))
    (hg : ∀ index, s.dims.Contains index → s.get index = .ok (s.valueAt index)) : s.Traversed := by
  obtain ⟨e,he,hl,hea⟩ := elements_answers hd hr
  obtain ⟨o,ho,hrem,hoa⟩ := hd
  have hvalues := mapM_ok fun index hi => hg index (Shape.mem_indices.1 hi)
  refine ⟨⟨o,_,ho,hoa,?_,?_⟩,s.values,toList_eq hs (walk_eq he hl hea),hvalues⟩
  · rw [Offsets.toList,Offsets.walk,hrem,← Shape.length_indices,← List.length_map s.view.cell,
      Walk.unfold_eq_ofList hoa,Walk.toList_ofList]
  · rw [List.map_map]
    exact List.map_congr_left fun index hi => ha index (Shape.mem_indices.1 hi)

theorem traversed_of_zero_mem (h0 : 0 ∈ s.dims) (hs : s.dims.span ≤ 2^50) : s.Traversed := by
  have hnone (index : List Nat) (hi : s.dims.Contains index) : False := Shape.not_contains_of_mem h0 index hi
  exact traversed_of_drains (View.drains_of_zero_mem h0 hs).1 hs (fun index hi => (hnone index hi).elim)
    (fun index hi => (hnone index hi).elim) fun index hi => (hnone index hi).elim

section Near

variable (h : s.Near) (h0 : 0 ∉ s.dims) (hstart : s.view.start = s.view.offset)
  (hs : ∀ a ∈ s.view.layout.axes, Address.IsSigned a.stride)

include h h0 hstart hs

theorem Near.traversed (hj : ¬ s.view.Jams) : s.Traversed := by
  have hv : s.view.Near (s.heap.length s.view.buffer) := h
  have hdrains : s.view.Drains := hv.drains hs fun hc index hi hr hjam =>
    hj ((View.exists_jammed_iff_jams h0 hstart hc).1 ⟨index,hi,hr,hjam⟩)
  refine traversed_of_drains hdrains hv.span_le (fun index hi => ?_) (fun _ => h.read_eq) fun _ => h.get_eq
  rw [View.cell,Int.toNat_of_nonneg (hv.inside index hi).1,hstart]
  rfl

theorem Near.abort_of_jams (hj : s.view.Jams) :
    (∃ o, s.view.offsets = .ok o ∧ o.toList = abort .addOverflow) ∧ s.toList = abort .addOverflow := by
  obtain ⟨index,hi,hl,hjam⟩ := (View.exists_jammed_iff_jams h0 hstart hj.1).2 hj
  obtain ⟨o,ho,-,hrem,-,hat⟩ := View.Near.exists_offsets h
  obtain ⟨n,hn,hb⟩ := (hat hj.1).breaks h hs hi hl hjam (Nat.zero_le _)
  rw [List.drop_zero] at hb
  have hlen : ((s.dims.indices.take n).map s.view.cell).length < o.remaining := by
    rw [List.length_map,List.length_take]
    omega
  refine ⟨⟨o,ho,Walk.toList_unfold_of_breaks hb hlen⟩,?_⟩
  -- Up to there the odometer has answered with cells of indices only, and these can be read.
  have hread := read_of_mem fun index hi => h.read_eq (Shape.mem_indices.1 (List.mem_of_mem_take (i := n) hi))
  have hm : Steps.Breaks (Elements.next? · s.heap) (.abort .addOverflow) _ (Elements.mk s.view.buffer o) :=
    hb.map (fun o ho => by simp [Elements.next?,ho]) (fun o cell t x ho hx => by simp [Elements.next?,ho,hx]) hread
  have hroom : o.remaining ≤ 2^50 := by
    rw [hrem]
    exact Shape.volume_le_of_span_le (View.Near.span_le h)
  rw [toList,walk,elements,ho,ok_bind,ok_bind,ok_bind,Walk.collect_eq_toList hroom]
  exact Walk.toList_unfold_of_breaks hm (by rwa [List.length_map])

end Near

/-- A view that the check of the bounds accepts. A traversal goes through unless it jams on an axis of extent 1, and
then it aborts; every element can be read by its index; and a slab can be taken unless there are no elements and the
start that is computed for it leaves the signed range. -/
theorem transients_of_ofBuffer {dims : Shape} {strides : List Int} {offset : Nat}
    (hl : s.heap.length s.view.buffer ≤ 2^50) (hd : dims.span ≤ 2^50) (hs : ∀ x ∈ strides, Address.IsSigned x)
    (h : View.ofBuffer s.view.buffer (s.heap.length s.view.buffer) dims strides offset = .ok s.view) :
    (¬ s.view.Jams → s.Traversed) ∧
      (s.view.Jams →
        (∃ o, s.view.offsets = .ok o ∧ o.toList = abort .addOverflow) ∧ s.toList = abort .addOverflow) ∧
      (∀ index, s.dims.Contains index → ∃ x, s.get index = .ok x ∧ s.getPromised index = .ok x) ∧
      ∀ (axis i : Nat) (a : Axis), s.view.layout.axes[axis]? = some a → i < a.extent →
        ((∃ w, s.view.slabAlong axis i = .ok w) ↔ 0 ∉ s.dims ∨
          Address.IsSigned (i*a.stride) ∧ Address.IsSigned (s.view.start+i*a.stride)) := by
  obtain ⟨-,rfl,rfl,rfl,hc⟩ := View.ofBuffer_eq_ok h
  have hextent {axis : Nat} {a : Axis} (ha : s.view.layout.axes[axis]? = some a) : a.extent ≤ 2^50 := by
    have hx : s.view.dims[axis]? = some a.extent := by simp [View.dims,Layout.dims,ha]
    exact Nat.le_trans (Shape.extent_le_span_of_getElem? hx) hd
  -- Of an empty view nothing is checked, but there is nothing to walk either; only its slabs are computed all the same.
  by_cases h0 : 0 ∈ s.dims
  · refine ⟨fun _ => traversed_of_zero_mem h0 hd,fun hj => absurd hj (View.drains_of_zero_mem h0 hd).2,
      fun index hi => (Shape.not_contains_of_mem h0 index hi).elim,fun axis i a ha hi => ?_⟩
    rw [View.exists_slabAlong_iff ha hi (hextent ha)]
    simp [h0]
  · have hsigned : ∀ a ∈ s.view.layout.axes, Address.IsSigned a.stride := fun a ha => hs _ (List.mem_map_of_mem ha)
    have hinside := View.inside_of_checkBounds hc fun a ha => by
      obtain ⟨axis,hk⟩ := List.mem_iff_getElem?.1 ha
      have := hextent hk
      exact Or.inr (by simp only [Address.maxSigned]; omega)
    obtain ⟨hstart,hv⟩ := hinside.near hl hd h0
    have hnear : s.Near := hv
    refine ⟨hnear.traversed h0 hstart hsigned,hnear.abort_of_jams h0 hstart hsigned,fun index hi => ?_,
      fun axis i a ha hi => ⟨fun _ => Or.inl h0,fun _ => ⟨_,hv.slabAlong_eq ha hi⟩⟩⟩
    refine ⟨_,hnear.get_eq hi,?_⟩
    rw [getPromised,hnear.get_eq hi]
    rfl

def stubs : Snapshot Bool where
  heap := ⟨#[#[true,false,true,true]]⟩
  view := { buffer := 0, layout := ⟨[⟨2,2⟩,⟨1,2^63-1⟩]⟩, offset := 1 }

theorem stubs_transients :
    View.ofBuffer 0 4 [2,1] [2,2^63-1] 1 = .ok stubs.view ∧ stubs.view.Jams ∧ stubs.toList = abort .addOverflow ∧
      stubs.get [1,0] = .ok true ∧ ∃ row, stubs.view.slabAlong 0 1 = .ok row := by
  have h : View.ofBuffer 0 4 [2,1] [2,2^63-1] 1 = .ok stubs.view := by decide
  have hj : stubs.view.Jams :=
    ⟨by decide,[⟨2,2⟩],⟨1,2^63-1⟩,[],[0],rfl,rfl,by decide,by decide,by decide⟩
  obtain ⟨-,hjam,-,hslab⟩ := transients_of_ofBuffer (s := stubs) (by decide) (by decide) (by decide) h
  exact ⟨h,hj,(hjam hj).2,by decide,(hslab 0 1 ⟨2,2⟩ rfl (by decide)).2 (Or.inl (by decide))⟩

/-- A walk that is not contiguous, and a slab of nothing. -/
theorem accepted_views_abort :
    (∃ v o, View.ofBuffer 0 4 [2,1] [2,2^63-1] 1 = .ok v ∧ v.offsets = .ok o ∧ o.toList = abort .addOverflow) ∧
      ∃ v, View.ofBuffer 0 1 [0,3] [1,2^62] 0 = .ok v ∧ v.slabAlong 1 2 = abort .multiplyOverflow :=
  ⟨⟨stubs.view,_,by decide,rfl,by decide⟩,
    { buffer := 0, layout := ⟨[⟨0,1⟩,⟨3,2^62⟩]⟩, offset := 0 },by decide,by decide⟩

end Snapshot

end Strided
