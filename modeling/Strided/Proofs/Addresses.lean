import Mathlib.Data.List.InsertIdx
import Mathlib.Logic.Relation
import Strided.Proofs.Reindexing
import Strided.Proofs.Slabs
import Strided.Session.Fresh

set_option autoImplicit false

namespace Strided

namespace Layout

/-- Wherever an index of the second axes leads, some index of the first axes leads. -/
def Subsumes (axes axes' : List Axis) : Prop :=
  ∀ index, Shape.Contains (axes'.map Axis.extent) index →
    ∃ index', Shape.Contains (axes.map Axis.extent) index' ∧ distanceAlong axes index' = distanceAlong axes' index

theorem subsumes_of_permuted {l l' : Layout} {perm : List Nat} (h : l.permuted perm = .ok l') :
    Subsumes l.axes l'.axes := fun _ hi => ⟨_,distance_permuted h hi⟩

theorem subsumes_of_broadcastTo {l l' : Layout} {target : Shape} (h : l.broadcastTo target = .ok l') :
    Subsumes l.axes l'.axes := fun _ hi => ⟨_,distance_broadcastTo h hi⟩

end Layout

namespace View

/-- Both views are of one buffer, and every element of the second lies where the first has one. -/
def Reads (v w : View) : Prop :=
  w.buffer = v.buffer ∧
    ∀ index, w.dims.Contains index → ∃ index', v.dims.Contains index' ∧ v.address index' = w.address index

theorem Reads.refl (v : View) : v.Reads v := ⟨rfl,fun index hi => ⟨index,hi,rfl⟩⟩

theorem Reads.inside {v w : View} (h : v.Reads w) {length : Nat} (hv : v.Inside length) : w.Inside length := by
  intro index hi
  obtain ⟨index',hi',ha⟩ := h.2 index hi
  rw [← ha]
  exact hv index' hi'

theorem Reads.zero_mem {v w : View} (h : v.Reads w) (hz : 0 ∈ v.dims) : 0 ∈ w.dims := by
  by_cases hw : 0 ∈ w.dims
  · exact hw
  · obtain ⟨index,hi,-⟩ := h.2 _ (Shape.contains_origin hw)
    exact absurd hi (Shape.not_contains_of_mem hz index)

theorem Inside.mono {v : View} {m n : Nat} (h : v.Inside m) (hmn : m ≤ n) : v.Inside n := fun index hi =>
  ⟨(h index hi).1,Int.lt_of_lt_of_le (h index hi).2 (Int.ofNat_le.2 hmn)⟩

theorem reads_of_subsumes {v : View} {l : Layout} (h : Layout.Subsumes v.layout.axes l.axes) :
    v.Reads { v with layout := l } := by
  refine ⟨rfl,fun index hi => ?_⟩
  obtain ⟨index',hi',hd⟩ := h index hi
  exact ⟨index',hi',by simp only [address,Layout.distance,hd]⟩

theorem Inside.natAbs_lt {v : View} {length : Nat} (hv : v.Inside length) {axis i : Nat} {a : Axis}
    (ha : v.layout.axes[axis]? = some a) (hi : i < a.extent) (h0 : 0 ∉ v.dims) :
    v.offset < length ∧ 0 ≤ v.offset+i*a.stride ∧ v.offset+i*a.stride < length := by
  have hd : v.dims[axis]? = some a.extent := by simp [dims,Layout.dims,ha]
  have he : 0 ∉ v.dims.eraseIdx axis := fun hz => h0 (List.mem_of_mem_eraseIdx hz)
  have ho := Shape.contains_origin he
  have hl : (Shape.origin (v.dims.eraseIdx axis)).length+1 = v.layout.axes.length := by
    have hlt := (List.getElem?_eq_some_iff.1 ha).1
    have hr : v.dims.length = v.layout.axes.length := length_dims v
    rw [ho.length_eq,List.length_eraseIdx_of_lt (by omega)]
    omega
  have hz : Layout.distanceAlong (v.layout.axes.eraseIdx axis) (Shape.origin (v.dims.eraseIdx axis)) = 0 := by
    rw [dims,← Layout.dims_dropAxis]
    exact Layout.distanceAlong_origin (v.layout.axes.eraseIdx axis)
  have hstart := hv _ (Shape.contains_origin h0)
  have hcoordinate := hv _ (Shape.Contains.insertIdx hd ho hi)
  rw [address,Layout.distance,Layout.distanceAlong_insertIdx ha hl,hz] at hcoordinate
  rw [address,Layout.distance,dims,Layout.dims,Layout.distanceAlong_origin] at hstart
  omega

/-- The start of a slab is where its coordinate lies: on the way there nothing wraps. -/
theorem reads_slabAt {v w : View} {length axis i : Nat} {a : Axis} (hv : v.Inside length)
    (hn : (length : Int) ≤ Address.maxSigned) (ha : v.layout.axes[axis]? = some a) (hi : i < a.extent)
    (h : v.slabAt axis i = .ok w) : v.Reads w := by
  simp only [slabAt,ha,Option.map_some,Option.getD_some] at h
  obtain ⟨distance,hd,h⟩ := bind_eq_ok.1 h
  obtain ⟨offset,ho,h⟩ := bind_eq_ok.1 h
  obtain ⟨position,hp,ho⟩ := bind_eq_ok.1 ho
  obtain ⟨-,hd⟩ := Address.mul_eq_ok_iff.1 hd
  obtain ⟨-,hp⟩ := Address.add_eq_ok_iff.1 hp
  have ho := Except.ok.inj ho
  have h := Except.ok.inj h
  subst h
  refine ⟨rfl,fun index hx => ?_⟩
  have hx : Shape.Contains (v.dims.eraseIdx axis) index := by
    rw [dims,← Layout.dims_dropAxis]
    exact hx
  have hdim : v.dims[axis]? = some a.extent := by simp [dims,Layout.dims,ha]
  have hx' := Shape.Contains.insertIdx hdim hx hi
  have h0 : 0 ∉ v.dims := fun hz => Shape.not_contains_of_mem hz _ hx'
  obtain ⟨hlt,hge,hle⟩ := hv.natAbs_lt ha hi h0
  -- Only where the stride is 0 can the coordinate be too large for the signed range; then the product is 0 anyway.
  have hsi : Address.signed i*a.stride = i*a.stride := by
    by_cases hs : a.stride = 0
    · simp [hs]
    · have hm : (i : Int) ≤ ((i : Int)*a.stride).natAbs := by
        rw [Int.natAbs_mul,Int.natAbs_natCast]
        exact Int.ofNat_le.2 (Nat.le_mul_of_pos_right i (Int.natAbs_pos.2 hs))
      rw [Address.signed_of_le (by omega)]
  have hso := Address.signed_of_le (n := v.offset) (by omega)
  rw [hd,hsi,hso] at hp
  have hu := Address.unsigned_of_nonneg (x := position) (hp ▸ hge) (hp ▸ Int.le_trans (Int.le_of_lt hle) hn)
  have hl : index.length+1 = v.layout.axes.length := by
    have hll := (List.getElem?_eq_some_iff.1 ha).1
    have hr : v.dims.length = v.layout.axes.length := length_dims v
    rw [hx.length_eq,List.length_eraseIdx_of_lt (by omega)]
    omega
  refine ⟨index.insertIdx axis i,hx',?_⟩
  rw [address,Layout.distance,Layout.distanceAlong_insertIdx ha hl]
  show _ = (offset : Int)+Layout.distanceAlong (v.layout.axes.eraseIdx axis) index
  rw [← ho,hu]
  omega

theorem reads_slabAlong {v w : View} {length axis i : Nat} (hv : v.Inside length)
    (hn : (length : Int) ≤ Address.maxSigned) (h : v.slabAlong axis i = .ok w) : v.Reads w := by
  obtain ⟨a,ha,hi⟩ := exists_axis_of_slabAlong h
  rw [slabAlong_eq_slabAt ha hi] at h
  exact reads_slabAt hv hn ha hi h

/-- A contiguous view inside a buffer has no more elements than the buffer has cells, and each lies as far behind the
start as its rank says. -/
theorem Inside.distance_eq_rank {v : View} {length : Nat} (hv : v.Inside length)
    (hn : (length : Int) ≤ Address.maxSigned) (h0 : 0 ∉ v.dims) (hc : v.isContiguous = true) :
    v.dims.volume ≤ length ∧ ∀ index, v.dims.Contains index → v.layout.distance index = v.dims.rank index := by
  have he : v.layout.isEmpty = false := Bool.eq_false_iff.2 fun hz => h0 ((Layout.isEmpty_iff _).1 hz)
  rw [isContiguous,Layout.isContiguous,he,Bool.false_or] at hc
  have hvol : v.dims.volume ≤ length := by
    refine Layout.volume_le_of_isConsecutive h0 hn hc fun index hi => ?_
    obtain ⟨-,hlt⟩ := hv index hi
    rw [address,Layout.distance] at hlt
    omega
  exact ⟨hvol,fun index hi => Layout.distanceAlong_eq_rank h0 (Int.le_trans (Int.ofNat_le.2 hvol) hn) hc hi⟩

theorem layout_of_reshape {v w : View} {dims : Shape} (h : v.reshape dims = .ok w) :
    ∃ layout, Layout.rowMajor dims = .ok layout ∧ w = { v with layout } ∧ layout.dims = dims ∧
      v.dims.volume = dims.volume ∧ v.isContiguous = true := by
  obtain ⟨layout,hl,h⟩ := bind_eq_ok.1 h
  obtain ⟨target,ht,h⟩ := bind_eq_ok.1 h
  obtain ⟨size,hs,h⟩ := bind_eq_ok.1 h
  have hdims : layout.dims = dims := Layout.dims_of_rowMajor hl
  have htarget : target = Shape.volume dims := by rw [← hdims]; exact Shape.size_eq_volume ht
  have hsize : size = Shape.volume v.dims := Shape.size_eq_volume hs
  by_cases hts : target = size
  · by_cases hc : v.isContiguous = true
    · simp only [hts,hc,ne_eq,not_true_eq_false,↓reduceIte] at h
      exact ⟨layout,hl,(Except.ok.inj h).symm,hdims,by rw [← hsize,← hts,htarget],hc⟩
    · simp [hts,hc,refuse] at h
  · simp [hts,refuse] at h

/-- A contiguous view that is reshaped has its elements at the same cells, the one of each rank at the cell of that
rank. -/
theorem reads_reshape {v w : View} {length : Nat} {dims : Shape} (hv : v.Inside length)
    (hn : (length : Int) ≤ Address.maxSigned) (h : v.reshape dims = .ok w) : v.Reads w := by
  obtain ⟨layout,hl,rfl,hdims,hvol,hc⟩ := layout_of_reshape h
  refine ⟨rfl,fun index hi => ?_⟩
  have hx : Shape.Contains dims index := by rw [← hdims]; exact hi
  have h0 : 0 ∉ dims := fun hz => Shape.not_contains_of_mem hz index hx
  -- An index under the new extents means that neither shape has an extent 0, so the bounds on both hold.
  have h0' : 0 ∉ v.dims := by rwa [← Shape.volume_eq_zero_iff,hvol,Shape.volume_eq_zero_iff]
  obtain ⟨hle,hrank⟩ := hv.distance_eq_rank hn h0' hc
  have hspan : (Shape.span dims : Int) ≤ Address.maxSigned := by
    rw [← Shape.volume_eq_span h0,← hvol]
    exact Int.le_trans (Int.ofNat_le.2 hle) hn
  rw [Layout.rowMajor_eq_ok hspan] at hl
  obtain rfl := Except.ok.inj hl
  obtain ⟨index',hi',hr⟩ := Shape.exists_rank_eq (s := v.dims) (r := Shape.rank dims index)
    (by rw [hvol]; exact Shape.rank_lt hx)
  refine ⟨index',hi',?_⟩
  rw [address,hrank index' hi',hr,← Layout.distanceAlong_packedAxes]
  rfl

end View

theorem Session.Outlook.take_reads {v w : View} {length : Nat} (hv : v.Inside length)
    (hn : (length : Int) ≤ Address.maxSigned) {outlook : Session.Outlook} (h : outlook.take v = .ok w) : v.Reads w := by
  cases outlook with
  | whole =>
    obtain rfl := Except.ok.inj h
    exact View.Reads.refl v
  | slab i => exact View.reads_slabAlong hv hn h
  | slabAlong axis i => exact View.reads_slabAlong hv hn h
  | permuted perm =>
    obtain ⟨l,hl,h⟩ := bind_eq_ok.1 h
    obtain rfl := Except.ok.inj h
    exact View.reads_of_subsumes (Layout.subsumes_of_permuted hl)
  | broadcastTo dims =>
    obtain ⟨l,hl,h⟩ := bind_eq_ok.1 h
    obtain rfl := Except.ok.inj h
    exact View.reads_of_subsumes (Layout.subsumes_of_broadcastTo hl)
  | reshape dims => exact View.reads_reshape hv hn h

/-- The slabs along an axis of a view with some of them taken from either end. -/
inductive Slabs.Underway (v : View) (axis : Nat) : Slabs → Prop
  | all : Underway v axis (Slabs.ofAxis v axis)
  | next {s t : Slabs} {item : View} : Underway v axis s → s.next? = .ok (some (item,t)) → Underway v axis t
  | nextBack {s t : Slabs} {item : View} : Underway v axis s → s.nextBack? = .ok (some (item,t)) → Underway v axis t

namespace Slabs

variable {s t : Slabs} {w : View}

theorem next?_eq_some (h : s.next? = .ok (some (w,t))) :
    s.front < s.back ∧ s.source.slabAt s.axis s.front = .ok w ∧ t = { s with front := s.front+1 } := by
  unfold next? at h
  by_cases hlt : s.front < s.back
  · simp only [hlt,↓reduceIte] at h
    obtain ⟨slab,hs,h⟩ := bind_eq_ok.1 h
    simp only [Except.ok.injEq,Option.some.injEq,Prod.mk.injEq] at h
    obtain ⟨rfl,rfl⟩ := h
    exact ⟨hlt,hs,rfl⟩
  · simp [hlt] at h

theorem nextBack?_eq_some (h : s.nextBack? = .ok (some (w,t))) :
    s.front < s.back ∧ s.source.slabAt s.axis (s.back-1) = .ok w ∧ t = { s with back := s.back-1 } := by
  unfold nextBack? at h
  by_cases hlt : s.front < s.back
  · simp only [hlt,↓reduceIte] at h
    obtain ⟨slab,hs,h⟩ := bind_eq_ok.1 h
    simp only [Except.ok.injEq,Option.some.injEq,Prod.mk.injEq] at h
    obtain ⟨rfl,rfl⟩ := h
    exact ⟨hlt,hs,rfl⟩
  · simp [hlt] at h

theorem Underway.source_eq {v : View} {axis : Nat} (h : Underway v axis s) :
    s.source = v ∧ s.axis = axis ∧ s.back ≤ (v.dims[axis]?).getD 0 := by
  induction h with
  | all => exact ⟨rfl,rfl,Nat.le_refl _⟩
  | next _ hn ih =>
    obtain ⟨-,-,rfl⟩ := next?_eq_some hn
    exact ih
  | nextBack _ hn ih =>
    obtain ⟨-,-,rfl⟩ := nextBack?_eq_some hn
    exact ⟨ih.1,ih.2.1,Nat.le_trans (Nat.sub_le _ _) ih.2.2⟩

theorem Underway.exists_slabAt {v : View} {axis : Nat} (h : Underway v axis s)
    (hi : s.next? = .ok (some (w,t)) ∨ s.nextBack? = .ok (some (w,t))) :
    ∃ a i, v.layout.axes[axis]? = some a ∧ i < a.extent ∧ v.slabAt axis i = .ok w := by
  obtain ⟨hs,ha,hb⟩ := h.source_eq
  have hslab {i : Nat} (hi : i < s.back) (h : s.source.slabAt s.axis i = .ok w) :
      ∃ a i, v.layout.axes[axis]? = some a ∧ i < a.extent ∧ v.slabAt axis i = .ok w := by
    rw [hs,ha] at h
    cases hd : v.layout.dims[axis]? with
    | none =>
      rw [View.dims,hd,Option.getD_none] at hb
      omega
    | some d =>
      obtain ⟨a,hax,he⟩ := Layout.exists_axis hd
      rw [View.dims,hd,Option.getD_some] at hb
      exact ⟨a,i,hax,by omega,h⟩
  rcases hi with hi | hi
  · obtain ⟨hlt,hw,-⟩ := next?_eq_some hi
    exact hslab hlt hw
  · obtain ⟨hlt,hw,-⟩ := nextBack?_eq_some hi
    exact hslab (by omega) hw

theorem Underway.reads {v : View} {axis length : Nat} (h : Underway v axis s) (hv : v.Inside length)
    (hn : (length : Int) ≤ Address.maxSigned)
    (hi : s.next? = .ok (some (w,t)) ∨ s.nextBack? = .ok (some (w,t))) : v.Reads w := by
  obtain ⟨a,i,ha,hi,hw⟩ := h.exists_slabAt hi
  exact View.reads_slabAt hv hn ha hi hw

end Slabs

/-- One way to look at the same cells: an outlook, or a slab taken on the way along an axis. -/
inductive View.Looks (v : View) : View → Prop
  | outlook {outlook : Session.Outlook} {w : View} : outlook.take v = .ok w → Looks v w
  | item {axis : Nat} {s t : Slabs} {w : View} : Slabs.Underway v axis s →
      s.next? = .ok (some (w,t)) ∨ s.nextBack? = .ok (some (w,t)) → Looks v w

namespace View

variable {v w : View} {length : Nat}

theorem buffer_of_slabAt {axis i : Nat} (h : v.slabAt axis i = .ok w) : w.buffer = v.buffer := by
  obtain ⟨_,-,h⟩ := bind_eq_ok.1 h
  obtain ⟨_,-,h⟩ := bind_eq_ok.1 h
  rw [← Except.ok.inj h]

theorem buffer_of_slabAlong {axis i : Nat} (h : v.slabAlong axis i = .ok w) : w.buffer = v.buffer := by
  obtain ⟨a,ha,hi⟩ := exists_axis_of_slabAlong h
  rw [slabAlong_eq_slabAt ha hi] at h
  exact buffer_of_slabAt h

theorem buffer_of_take {outlook : Session.Outlook} (h : outlook.take v = .ok w) : w.buffer = v.buffer := by
  cases outlook with
  | whole =>
    obtain rfl := Except.ok.inj h
    rfl
  | slab i => exact buffer_of_slabAlong h
  | slabAlong axis i => exact buffer_of_slabAlong h
  | permuted perm =>
    obtain ⟨_,-,h⟩ := bind_eq_ok.1 h
    rw [← Except.ok.inj h]
  | broadcastTo dims =>
    obtain ⟨_,-,h⟩ := bind_eq_ok.1 h
    rw [← Except.ok.inj h]
  | reshape dims =>
    obtain ⟨_,-,rfl,-⟩ := layout_of_reshape h
    rfl

theorem Looks.buffer_eq (h : v.Looks w) : w.buffer = v.buffer := by
  cases h with
  | outlook ht => exact buffer_of_take ht
  | item hs hi =>
    obtain ⟨_,_,-,-,hw⟩ := hs.exists_slabAt hi
    exact buffer_of_slabAt hw

theorem Looks.reads (h : v.Looks w) (hv : v.Inside length) (hn : (length : Int) ≤ Address.maxSigned) : v.Reads w := by
  cases h with
  | outlook ht => exact Session.Outlook.take_reads hv hn ht
  | item hs hi => exact hs.reads hv hn hi

theorem Reads.trans {u : View} (h : u.Reads v) (h' : v.Reads w) : u.Reads w := by
  refine ⟨h'.1.trans h.1,fun index hi => ?_⟩
  obtain ⟨index',hi',ha'⟩ := h'.2 index hi
  obtain ⟨index'',hi'',ha''⟩ := h.2 index' hi'
  exact ⟨index'',hi'',ha''.trans ha'⟩

theorem Looks.zero_mem (h : v.Looks w) (hz : 0 ∈ v.dims) : 0 ∈ w.dims := by
  have hv : v.Inside 0 := fun index hi => (Shape.not_contains_of_mem hz index hi).elim
  exact (h.reads hv (by decide)).zero_mem hz

theorem reads_of_looks (h : Relation.ReflTransGen Looks v w) (hv : v.Inside length)
    (hn : (length : Int) ≤ Address.maxSigned) : v.Reads w := by
  induction h with
  | refl => exact Reads.refl v
  | tail _ hl ih => exact ih.trans (hl.reads (ih.inside hv) hn)

end View

namespace Layout

theorem travel_eq_sum (axes : List Axis) : travel axes = (axes.map fun a => a.stride.natAbs*max a.extent 1).sum := by
  induction axes with
  | nil => rfl
  | cons a axes ih => simp [travel,ih]

theorem travel_of_broadcastTo {l l' : Layout} {target : Shape} (h : l.broadcastTo target = .ok l') :
    l'.dims = target ∧ travel l'.axes ≤ travel l.axes := by
  refine ⟨dims_of_broadcastTo h,?_⟩
  have hs := (broadcastTo_eq_ok_iff.1 h).sum_map_le (m := fun a => a.stride.natAbs*max a.extent 1) (by simp)
  simpa [travel_eq_sum,List.sum_reverse] using hs

end Layout

namespace View

theorem WellFormed.broadcastTo {v w : View} {length : Nat} {target : Shape} (hv : v.WellFormed length)
    (ht : target.span ≤ 2^50) (h : v.broadcastTo target = .ok w) :
    w.buffer = v.buffer ∧ w.dims = target ∧ w.WellFormed length := by
  obtain ⟨l,hl,h⟩ := bind_eq_ok.1 h
  obtain rfl := Except.ok.inj h
  obtain ⟨hd,htr⟩ := Layout.travel_of_broadcastTo hl
  have hdims : ({ v with layout := l } : View).dims = target := hd
  refine ⟨rfl,hdims,hv.offset_le,by rwa [hdims],Nat.le_trans htr hv.travel_le,?_⟩
  exact (reads_of_subsumes (Layout.subsumes_of_broadcastTo hl)).inside hv.inside

end View

end Strided
