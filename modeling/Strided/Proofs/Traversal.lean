import Strided.Proofs.Walk
import Strided.Proofs.WellFormed

set_option autoImplicit false

/-!
The walk over the cells of a view visits the indices in row-major order, each once. A contiguous walk stands, after
as many steps as the rank of an index, that many cells behind the start; the odometer stands at the index itself.
For a sound view no step of either aborts.
-/
namespace Strided

open Steps (Answers)

namespace Offsets

theorem currentIndex_eq {o : Offsets} {s : Shape} {index : List Nat} (ha : o.axes.map Axis.extent = s)
    (hc : o.contiguous = true) (hi : s.Contains index) (hr : s.rank index ≤ Address.maxUnsigned)
    (hp : o.position = o.start+s.rank index) : o.currentIndex = index := by
  have hd : o.position-o.start = (s.rank index : Int) := by omega
  rw [currentIndex,if_pos hc,hd,Address.unsigned_natCast hr,ha,Shape.digits_rank hi]

theorem answers_of_contiguous {o : Offsets} {p : Int} {n : Nat} (hc : o.contiguous = true) (hp : o.position = p)
    (hn : o.remaining = n) (hlow : Address.minSigned ≤ p) (hhigh : p+n ≤ Address.maxSigned) :
    Answers next? ((List.range n).map fun k : Nat => Address.unsigned (p+k)) o := by
  induction n generalizing o p with
  | zero =>
    show next? o = .ok none
    simp only [next?,hn]
  | succ n ih =>
    have ha := Address.add_eq_ok (x := p) (y := 1) ⟨by omega,by omega⟩
    have hr := ih (o := { o with position := p+1, remaining := n }) (p := p+1) hc rfl rfl (by omega) (by omega)
    have hk (k : Nat) : p+((k+1 : Nat) : Int) = p+1+k := by omega
    simp only [List.range_succ_eq_map,List.map_cons,List.map_map,Function.comp_def,Nat.succ_eq_add_one,hk]
    refine ⟨_,?_,hr⟩
    simp only [next?,hn,hc,hp,↓reduceIte,ha,ok_bind,Int.natCast_zero,Int.add_zero]

/-- The odometer jams where the inner axes wrap and an axis of extent 1 then steps out of the signed range, though it
would take its step back at once. -/
def Jammed : List Axis → List Nat → Int → Prop
  | a :: axes, i :: index, base =>
    Jammed axes index (base+i*a.stride) ∨
      (Shape.rank (axes.map Axis.extent) index+1 = Shape.volume (axes.map Axis.extent) ∧ a.extent = 1 ∧
        ¬ Address.IsSigned (base+a.stride))
  | _, _, _ => False

theorem not_jammed {axes : List Axis} {index : List Nat} {base : Int}
    (h : Shape.Contains (axes.map Axis.extent) index) (hs : ∀ a ∈ axes, a.stride.natAbs*max a.extent 1 ≤ 2^51)
    (hb : base.natAbs+Layout.swing axes ≤ 2^51) : ¬ Jammed axes index base := by
  induction axes generalizing index base with
  | nil => cases index <;> exact id
  | cons a axes ih =>
    cases index with
    | nil => exact h.elim
    | cons i index =>
      have hi := Layout.natAbs_mul_le h.1 a.stride
      have ha := hs a (by simp)
      have hle : a.stride.natAbs ≤ a.stride.natAbs*max a.extent 1 := Nat.le_mul_of_pos_right _ (by omega)
      simp only [Layout.swing] at hb
      rintro (hj | ⟨-,-,hj⟩)
      · exact ih h.2 (fun b hb => hs b (by simp [hb])) (by omega) hj
      · exact hj (Address.isSigned_of_natAbs_le (by omega))

section Turn

variable {axes : List Axis} {index : List Nat} {base : Int}

/-- One turn of the odometer leads from the cell of an index to the cell of the next one: what the inner axes had
added up is taken back when they wrap. -/
theorem turn_eq_ok (h : Shape.Contains (axes.map Axis.extent) index) (he : ∀ a ∈ axes, a.extent ≤ 2^50)
    (hs : ∀ a ∈ axes, Address.IsSigned a.stride) (hb : base.natAbs+Layout.swing axes ≤ 2^51)
    (hj : ¬ Jammed axes index base) :
    turn axes index (base+Layout.distanceAlong axes index) =
      .ok ((Shape.advance (axes.map Axis.extent) index).1,(Shape.advance (axes.map Axis.extent) index).2,
        base+Layout.distanceAlong axes (Shape.advance (axes.map Axis.extent) index).2) := by
  induction axes generalizing index base with
  | nil => cases index <;> simp [turn,Shape.advance,Layout.distanceAlong]
  | cons a axes ih =>
    cases index with
    | nil => exact h.elim
    | cons i index =>
      have hi : i < a.extent := h.1
      have hn := Layout.natAbs_mul_le hi a.stride
      have hea := he a (by simp)
      simp only [Layout.swing] at hb
      simp only [Jammed,not_or] at hj
      have hbi : (base+i*a.stride).natAbs+Layout.swing axes ≤ 2^51 := by omega
      have hr := ih h.2 (fun b hb => he b (by simp [hb])) (fun b hb => hs b (by simp [hb])) hbi hj.1
      rw [Layout.distanceAlong,← Int.add_assoc,turn,hr,ok_bind]
      rcases Shape.advance_spec h.2 with ⟨hw,ha⟩ | ⟨next,ha,-,-⟩
      · simp only [List.map_cons,Shape.advance,ha,↓reduceIte,Layout.distanceAlong_origin,Int.add_zero]
        -- The inner axes have wrapped. An axis that has somewhere to go has no long way to any of its coordinates, nor
        -- one step past the last; an axis of extent 1 may step anywhere.
        have hstep : Address.IsSigned (base+i*a.stride+a.stride) ∧ Address.IsSigned (a.stride*(a.extent : Int)) := by
          by_cases h1 : a.extent = 1
          · have hz : i = 0 := by omega
            have hsa : Address.IsSigned (base+a.stride) := Decidable.of_not_not fun hn => hj.2 ⟨hw,h1,hn⟩
            simpa [hz,h1] using ⟨hsa,hs a (by simp)⟩
          · have hm := Nat.mul_le_mul_left a.stride.natAbs (show a.extent ≤ 2*(a.extent-1) by omega)
            have hp : a.stride.natAbs ≤ a.stride.natAbs*(a.extent-1) := Nat.le_mul_of_pos_right _ (by omega)
            have he : (a.stride*(a.extent : Int)).natAbs = a.stride.natAbs*a.extent := by
              rw [Int.natAbs_mul,Int.natAbs_natCast]
            rw [Nat.mul_left_comm] at hm
            exact ⟨Address.isSigned_of_natAbs_le (by omega),Address.isSigned_of_natAbs_le (by omega)⟩
        rw [Address.add_eq_ok hstep.1,ok_bind]
        -- Either this axis moves on by its stride, or it wraps too and gives back what it had added up, the stride once
        -- for each coordinate.
        by_cases hd : i+1 < a.extent
        · simp only [hd,↓reduceIte,Layout.distanceAlong,Layout.distanceAlong_origin,Int.add_zero,
            Int.natCast_add,Int.add_mul,Int.natCast_one,Int.one_mul,Int.add_assoc]
        · have hd' : a.extent = i+1 := by omega
          have hx : base+i*a.stride+a.stride-a.stride*(a.extent : Int) = base := by
            rw [hd',Int.natCast_add,Int.mul_add,Int.mul_comm a.stride i]
            omega
          simp only [hd,↓reduceIte]
          rw [Address.signed_of_le_two_pow (by omega),Address.mul_eq_ok hstep.2,ok_bind,
            Address.sub_eq_ok (Address.isSigned_of_natAbs_le (by omega)),ok_bind,hx]
          simp [Layout.distanceAlong,Layout.distanceAlong_origin]
      · simp [Shape.advance,ha,Layout.distanceAlong,Int.add_assoc]

theorem turn_eq_error (h : Shape.Contains (axes.map Axis.extent) index) (he : ∀ a ∈ axes, a.extent ≤ 2^50)
    (hs : ∀ a ∈ axes, Address.IsSigned a.stride) (hb : base.natAbs+Layout.swing axes ≤ 2^51)
    (hj : Jammed axes index base) :
    turn axes index (base+Layout.distanceAlong axes index) = abort .addOverflow := by
  induction axes generalizing index base with
  | nil => cases index <;> exact hj.elim
  | cons a axes ih =>
    cases index with
    | nil => exact h.elim
    | cons i index =>
      have hi := Layout.natAbs_mul_le h.1 a.stride
      simp only [Layout.swing] at hb
      have hbi : (base+i*a.stride).natAbs+Layout.swing axes ≤ 2^51 := by omega
      rw [Layout.distanceAlong,← Int.add_assoc,turn]
      by_cases hin : Jammed axes index (base+i*a.stride)
      · rw [ih h.2 (fun b hb => he b (by simp [hb])) (fun b hb => hs b (by simp [hb])) hbi hin]
        rfl
      · obtain ⟨hw,h1,hn⟩ := hj.resolve_left hin
        have hz : i = 0 := by have := h.1; omega
        rw [turn_eq_ok h.2 (fun b hb => he b (by simp [hb])) (fun b hb => hs b (by simp [hb])) hbi hin,ok_bind]
        rcases Shape.advance_spec h.2 with ⟨-,ha⟩ | ⟨next,-,hc,hr⟩
        · simp only [ha,↓reduceIte,Layout.distanceAlong_origin,Int.add_zero,hz,Int.natCast_zero,Int.zero_mul]
          rw [Address.add,if_neg hn]
          rfl
        · have := Shape.rank_lt hc
          omega

end Turn

section Odometer

variable {v : View} {length : Nat}

/-- The odometer at the index of rank `r`, with all indices from there on still to come. -/
structure At (v : View) (o : Offsets) (r : Nat) : Prop where
  contiguous : o.contiguous = false
  axes : o.axes = v.layout.axes
  index : v.dims.indices[r]? = some o.index
  position : o.position = v.start+v.layout.distance o.index
  remaining : r+o.remaining = v.dims.volume

theorem At.drop_eq {o : Offsets} {r : Nat} (h : At v o r) :
    v.dims.indices.drop r = o.index :: v.dims.indices.drop (r+1) := by
  obtain ⟨hlt,hg⟩ := List.getElem?_eq_some_iff.1 h.index
  rw [List.drop_eq_getElem_cons hlt,hg]

/-- The odometer answers with the cell it stands at. After the last element it is not turned, so its wrap is never
seen. -/
theorem At.next?_eq (hv : v.Near length) (hs : ∀ a ∈ v.layout.axes, Address.IsSigned a.stride) {o : Offsets} {r : Nat}
    (h : At v o r) :
    v.dims.Contains o.index ∧
      ((r+1 = v.dims.volume ∧ ∃ t, o.next? = .ok (some (v.cell o.index,t)) ∧ t.next? = .ok none) ∨
        (r+1 < v.dims.volume ∧ Jammed v.layout.axes o.index v.start ∧ o.next? = abort .addOverflow) ∨
        (r+1 < v.dims.volume ∧ ¬ Jammed v.layout.axes o.index v.start ∧
          ∃ t, o.next? = .ok (some (v.cell o.index,t)) ∧ At v t (r+1))) := by
  have hi := Shape.mem_indices.1 (List.mem_of_getElem? h.index)
  have hlt := (List.getElem?_eq_some_iff.1 h.index).1
  have hu : Address.unsigned o.position = v.cell o.index := by rw [h.position,hv.unsigned_eq hi]
  have hm := h.remaining
  rw [Shape.length_indices] at hlt
  obtain ⟨n,hn⟩ : ∃ n, o.remaining = n+1 := ⟨o.remaining-1,by omega⟩
  refine ⟨hi,?_⟩
  cases n with
  | zero =>
    refine Or.inl ⟨by omega,{ o with remaining := 0 },?_,rfl⟩
    simp [next?,hn,h.contiguous,hu]
  | succ n =>
    refine Or.inr ?_
    by_cases hj : Jammed v.layout.axes o.index v.start
    · refine Or.inl ⟨by omega,hj,?_⟩
      have ht : turn o.axes o.index o.position = abort .addOverflow := by
        rw [h.axes,h.position]
        exact turn_eq_error hi hv.extent_le hs hv.swing_le hj
      simp [next?,hn,h.contiguous,ht,abort]
    · refine Or.inr ⟨by omega,hj,?_⟩
      rcases Shape.advance_spec hi with ⟨hw,-⟩ | ⟨next,hadv,hcn,hrn⟩
      · rw [Shape.rank_of_getElem? h.index] at hw
        omega
      · have hx := Shape.getElem?_indices hcn
        rw [hrn,Shape.rank_of_getElem? h.index] at hx
        have ht : turn o.axes o.index o.position = .ok (false,next,v.start+v.layout.distance next) := by
          rw [h.axes,h.position,Layout.distance,turn_eq_ok hi hv.extent_le hs hv.swing_le hj]
          rw [View.dims,Layout.dims] at hadv
          rw [hadv]
          rfl
        refine ⟨{ o with index := next, position := v.start+v.layout.distance next, remaining := n+1 },?_,
          ⟨h.contiguous,h.axes,hx,rfl,by simp only; omega⟩⟩
        simp [next?,hn,h.contiguous,hu,ht]

theorem At.answers (hv : v.Near length) (hs : ∀ a ∈ v.layout.axes, Address.IsSigned a.stride)
    (hj : ∀ index, v.dims.Contains index → v.dims.rank index+1 < v.dims.volume → ¬ Jammed v.layout.axes index v.start)
    {o : Offsets} {r : Nat} (h : At v o r) : Answers next? ((v.dims.indices.drop r).map v.cell) o := by
  -- The rank and what remains always make up the volume, so the walk never turns past the last index.
  induction hn : o.remaining generalizing o r with
  | zero =>
    have hlt := (List.getElem?_eq_some_iff.1 h.index).1
    have := h.remaining
    rw [Shape.length_indices] at hlt
    omega
  | succ n ih =>
    rw [h.drop_eq,List.map_cons]
    obtain ⟨hi,⟨hl,t,ht,hnone⟩ | ⟨hl,hjam,-⟩ | ⟨-,-,t,ht,hat⟩⟩ := h.next?_eq hv hs
    · have hl : v.dims.indices.drop (r+1) = [] := List.drop_eq_nil_of_le (by simp; omega)
      rw [hl]
      exact ⟨t,ht,hnone⟩
    · rw [← Shape.rank_of_getElem? h.index] at hl
      exact absurd hjam (hj _ hi hl)
    · have hrem := h.remaining
      have hrem' := hat.remaining
      exact ⟨t,ht,ih hat (by omega)⟩

/-- Before an index where it jams and that is not the last, the odometer has answered with cells of indices only. -/
theorem At.breaks (hv : v.Near length) (hs : ∀ a ∈ v.layout.axes, Address.IsSigned a.stride) {index : List Nat}
    (hi : v.dims.Contains index) (hl : v.dims.rank index+1 < v.dims.volume) (hj : Jammed v.layout.axes index v.start)
    {o : Offsets} {r : Nat} (h : At v o r) (hr : r ≤ v.dims.rank index) :
    ∃ n, n < o.remaining ∧
      Steps.Breaks next? (.abort .addOverflow) (((v.dims.indices.drop r).take n).map v.cell) o := by
  induction hn : o.remaining generalizing o r with
  | zero =>
    have := h.remaining
    omega
  | succ m ih =>
    obtain ⟨ho,⟨hlast,-⟩ | ⟨-,-,hstop⟩ | ⟨-,hfree,t,ht,hat⟩⟩ := h.next?_eq hv hs
    · omega
    · exact ⟨0,by omega,hstop⟩
    · have hne : r ≠ v.dims.rank index := by
        intro he
        have hx := Shape.getElem?_indices hi
        rw [← he,h.index] at hx
        obtain rfl := Option.some.inj hx
        exact hfree hj
      have hrem := h.remaining
      have hrem' := hat.remaining
      obtain ⟨n,hlt,hb⟩ := ih hat (by omega) (by omega)
      refine ⟨n+1,by omega,?_⟩
      rw [h.drop_eq,List.take_succ_cons,List.map_cons]
      exact ⟨t,ht,hb⟩

end Odometer

theorem skip_of_answers {cells : List Nat} {o : Offsets} (h : Answers next? cells o) :
    (∀ r cell, cells[r]? = some cell → ∃ t u, o.skip r = .ok t ∧ t.next? = .ok (some (cell,u)) ∧ o.skip (r+1) = .ok u) ∧
      ∃ last, last.next? = .ok none ∧ ∀ m, cells.length ≤ m → o.skip m = .ok last := by
  induction cells generalizing o with
  | nil =>
    have hn : o.next? = .ok none := h
    refine ⟨fun r cell hr => by simp at hr,o,hn,fun m _ => ?_⟩
    cases m with
    | zero => rfl
    | succ m => simp [skip,hn]
  | cons cell cells ih =>
    obtain ⟨t,ht,hc⟩ := h
    obtain ⟨hr,last,hl,hm⟩ := ih hc
    have hs (m : Nat) : o.skip (m+1) = t.skip m := by simp [skip,ht]
    refine ⟨fun r x hx => ?_,last,hl,fun m hlen => ?_⟩
    · cases r with
      | zero =>
        have hx : cell = x := by simpa using hx
        exact ⟨o,t,rfl,by rw [ht,hx],hs 0⟩
      | succ r =>
        obtain ⟨u,w,hu,hw,hw'⟩ := hr r x (by simpa using hx)
        exact ⟨u,w,by rw [hs,hu],hw,by rw [hs,hw']⟩
    · cases m with
      | zero => simp at hlen
      | succ m => rw [hs,hm m (by simpa using hlen)]

end Offsets

namespace View

variable {v : View} {length : Nat}

theorem Near.distance_eq_rank (h : v.Near length) (hc : v.isContiguous = true) {index : List Nat}
    (hi : v.dims.Contains index) : v.layout.distance index = v.dims.rank index := by
  have h0 : 0 ∉ v.dims := fun hz => Shape.not_contains_of_mem hz index hi
  have he : v.layout.isEmpty = false := Bool.eq_false_iff.2 fun hz => h0 ((Layout.isEmpty_iff _).1 hz)
  rw [isContiguous,Layout.isContiguous,he,Bool.false_or] at hc
  have hv : (v.dims.volume : Int) ≤ Address.maxSigned := by
    have := Nat.le_trans v.dims.volume_le_span h.span_le
    simp only [Address.maxSigned]
    omega
  exact Layout.distanceAlong_eq_rank h0 hv hc hi

/-- The walk over the cells of a view answers with the cells of all indices in row-major order. -/
def Drains (v : View) : Prop :=
  ∃ o, v.offsets = .ok o ∧ o.remaining = v.dims.volume ∧ Answers Offsets.next? (v.dims.indices.map v.cell) o

theorem drains_of_size_eq_zero (h : v.size = .ok 0) : v.Drains := by
  have hv : v.dims.volume = 0 := (Shape.size_eq_volume h).symm
  have hi : v.dims.indices = [] := List.eq_nil_of_length_eq_zero (by rw [Shape.length_indices,hv])
  refine ⟨{
    axes := v.layout.axes
    index := v.dims.origin
    start := v.start
    position := v.start
    remaining := 0
    contiguous := v.isContiguous },?_,hv.symm,?_⟩
  · rw [offsets,Offsets.ofLayout,← size,h]
    rfl
  · rw [hi]
    exact rfl

theorem Near.offsets_eq (h : v.Near length) :
    v.offsets = .ok {
      axes := v.layout.axes
      index := v.dims.origin
      start := v.start
      position := v.start
      remaining := v.dims.volume
      contiguous := v.isContiguous } := by
  rw [offsets,Offsets.ofLayout,← size,h.size_eq]
  rfl

theorem Near.exists_offsets (h : v.Near length) :
    ∃ o, v.offsets = .ok o ∧ o.position = v.start ∧ o.remaining = v.dims.volume ∧ o.contiguous = v.isContiguous ∧
      (v.isContiguous = false → Offsets.At v o 0) := by
  refine ⟨_,h.offsets_eq,by simp only,by simp only,by simp only,fun hc => ?_⟩
  have h0 : 0 ∉ v.dims := fun hz => by
    rw [isContiguous,Layout.isContiguous,(Layout.isEmpty_iff _).2 hz] at hc
    simp at hc
  have hx := Shape.getElem?_indices (Shape.contains_origin h0)
  have hz : v.layout.distance v.dims.origin = 0 := Layout.distanceAlong_origin v.layout.axes
  rw [Shape.rank_origin] at hx
  exact ⟨hc,rfl,hx,by rw [hz,Int.add_zero],Nat.zero_add _⟩

theorem Near.drains (h : v.Near length) (hs : ∀ a ∈ v.layout.axes, Address.IsSigned a.stride)
    (hj : v.isContiguous = false → ∀ index, v.dims.Contains index → v.dims.rank index+1 < v.dims.volume →
      ¬ Offsets.Jammed v.layout.axes index v.start) : v.Drains := by
  have hsw := h.swing_le
  have hn := Nat.le_trans v.dims.volume_le_span h.span_le
  obtain ⟨o,ho,hp,hr,hoc,hat⟩ := h.exists_offsets
  refine ⟨o,ho,hr,?_⟩
  by_cases hc : v.isContiguous = true
  · have hcells : v.dims.indices.map v.cell =
        (List.range v.dims.volume).map fun k : Nat => Address.unsigned (v.start+k) := by
      have hcell : ∀ index ∈ v.dims.indices, v.cell index = Address.unsigned (v.start+(v.dims.rank index : Nat)) := by
        intro index hi
        have hi := Shape.mem_indices.1 hi
        rw [← h.unsigned_eq hi,h.distance_eq_rank hc hi]
      rw [List.map_congr_left hcell,← Shape.map_rank_indices,List.map_map,Function.comp_def]
    rw [hcells]
    exact Offsets.answers_of_contiguous (by rw [hoc,hc]) hp hr (by simp only [Address.minSigned]; omega)
      (by simp only [Address.maxSigned]; omega)
  · have hc : v.isContiguous = false := by simpa using hc
    exact (hat hc).answers h hs (hj hc)

theorem Sound.isSigned_stride (h : v.Sound length) : ∀ a ∈ v.layout.axes, Address.IsSigned a.stride := by
  intro a ha
  have hle : a.stride.natAbs ≤ a.stride.natAbs*max a.extent 1 := Nat.le_mul_of_pos_right _ (by omega)
  have hs := h.step_le a ha
  exact Address.isSigned_of_natAbs_le (by omega)

theorem Sound.offsets_answers (h : v.Sound length) : v.Drains :=
  h.drains h.isSigned_stride fun _ _ hi _ => Offsets.not_jammed hi h.step_le h.swing_le

theorem Drains.walk_offsets (h : v.Drains) :
    ∃ o, v.offsets = .ok o ∧ o.walk = Walk.ofList (v.dims.indices.map v.cell) := by
  obtain ⟨o,ho,hr,ha⟩ := h
  refine ⟨o,ho,?_⟩
  rw [Offsets.walk,← Walk.unfold_eq_ofList ha,hr]
  simp

end View

end Strided
