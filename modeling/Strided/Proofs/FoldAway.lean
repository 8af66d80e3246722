import Mathlib.Data.List.Nodup
import Strided.Proofs.AxisScan
import Strided.Proofs.Placed
import Strided.Snapshot.Elementwise

set_option autoImplicit false

namespace Strided

/-- Nothing depends on the order or the grouping of what is combined, and `e` adds nothing. -/
structure Orderless {α : Type} (f : α → α → α) (e : α) : Prop where
  assoc : ∀ x y z, f (f x y) z = f x (f y z)
  comm : ∀ x y, f x y = f y x
  left_id : ∀ x, f e x = x

namespace Orderless

variable {α ι : Type} {f : α → α → α} {e : α}

theorem foldl_eq (h : Orderless f e) (x : α) (ys : List α) : ys.foldl f x = f x (ys.foldl f e) := by
  have : Std.Associative f := ⟨h.assoc⟩
  have hx : ys.foldl f (f x e) = f x (ys.foldl f e) := List.foldl_assoc
  rw [← hx,h.comm x e,h.left_id]

theorem foldl_perm (h : Orderless f e) {xs ys : List α} (hp : xs.Perm ys) : xs.foldl f e = ys.foldl f e :=
  hp.foldl_eq' (fun x _ y _ z => by rw [h.assoc,h.comm x y,h.assoc]) e

theorem foldl_flatMap (h : Orderless f e) (row : ι → List α) (xs : List ι) :
    (xs.map fun x => (row x).foldl f e).foldl f e = (xs.flatMap row).foldl f e := by
  rw [List.foldl_map,List.foldl_flatMap]
  simp only [← h.foldl_eq]

end Orderless

theorem Word.orderless_wrappingAdd (t : IntType) : Orderless (Word.wrappingAdd (t := t)) (Word.ofInt t 0) where
  assoc x y z := congrArg Word.mk (BitVec.add_assoc x.bits y.bits z.bits)
  comm x y := congrArg Word.mk (BitVec.add_comm x.bits y.bits)
  left_id x := by simp [Word.wrappingAdd,Word.ofInt]

theorem Word.orderless_wrappingMul (t : IntType) : Orderless (Word.wrappingMul (t := t)) (Word.ofInt t 1) where
  assoc x y z := congrArg Word.mk (BitVec.mul_assoc x.bits y.bits z.bits)
  comm x y := congrArg Word.mk (BitVec.mul_comm x.bits y.bits)
  left_id x := by simp [Word.wrappingMul,Word.ofInt]

/-- Row by row along an axis, the indices are all there and each of them once. -/
theorem Shape.rows_perm_indices {s : Shape} {axis d : Nat} (hd : s[axis]? = some d) :
    ((indices (s.eraseIdx axis)).flatMap fun index => (List.range d).map (index.insertIdx axis ·)).Perm s.indices := by
  have hrow {index : List Nat} (hi : index ∈ indices (s.eraseIdx axis)) : axis ≤ index.length :=
    le_length_of_contains_eraseIdx hd (mem_indices.1 hi)
  refine (List.perm_ext_iff_of_nodup ?_ s.nodup_indices).2 fun index => ?_
  · refine List.nodup_flatMap.2 ⟨fun index hi => ?_,(nodup_indices _).imp fun hne => ?_⟩
    · refine List.nodup_range.map_on fun i _ j _ hij => ?_
      have hij := congrArg (·[axis]?) hij
      simpa [List.getElem?_insertIdx_self,hrow hi] using hij
    · -- What is left without the axis tells the rows apart.
      intro index hi hj
      obtain ⟨i,-,rfl⟩ := List.mem_map.1 hi
      obtain ⟨j,-,hij⟩ := List.mem_map.1 hj
      have hij := congrArg (·.eraseIdx axis) hij
      simp only [List.eraseIdx_insertIdx_self] at hij
      exact hne hij.symm
  · simp only [List.mem_flatMap,List.mem_map,List.mem_range,mem_indices]
    constructor
    · rintro ⟨inner,hi,k,hk,rfl⟩
      exact hi.insertIdx hd hk
    · intro hi
      obtain ⟨i,hk,hlt⟩ := hi.exists_coordinate hd
      obtain ⟨ha,rfl⟩ := List.getElem?_eq_some_iff.1 hk
      exact ⟨index.eraseIdx axis,hi.eraseIdx axis,index[axis],hlt,List.insertIdx_eraseIdx_getElem ha⟩

/-- Each axis is there when its turn comes, and after the last of them no axis is left. -/
def Exhausts : List Nat → Nat → Prop
  | [], n => n = 0
  | axis :: axes, n => axis < n ∧ Exhausts axes (n-1)

instance decidableExhausts : (axes : List Nat) → (n : Nat) → Decidable (Exhausts axes n)
  | [], n => inferInstanceAs (Decidable (n = 0))
  | axis :: axes, n =>
    have := decidableExhausts axes (n-1)
    inferInstanceAs (Decidable (axis < n ∧ Exhausts axes (n-1)))

namespace Snapshot

open Block (Tabulates)

variable {α : Type} [Element α]

/-- The array that is left when one axis after the other is folded away from `init`; each fold is put in a new buffer
of the heap before the next. -/
def foldAway (init : α) (f : α → α → Result α) : List Nat → Snapshot α → Result (Snapshot α)
  | [], s => .ok s
  | axis :: axes, s => do
    let b ← s.foldAxis init f axis
    foldAway init f axes (s.heap.placed b)

variable {s : Snapshot α} {f : α → α → α} {e : α}

theorem Sound.foldl_rows (hf : Orderless f e) {axis d : Nat} (hd : s.dims[axis]? = some d) :
    ((Shape.indices (s.dims.eraseIdx axis)).map fun index => (s.row axis d index).foldl f e).foldl f e =
      s.values.foldl f e := by
  have hp := (Shape.rows_perm_indices hd).map s.valueAt
  simp only [List.map_flatMap,List.map_map,Function.comp_def] at hp
  rw [hf.foldl_flatMap,values,← hf.foldl_perm hp]
  rfl

theorem Sound.tabulates_foldAxis (hs : s.Sound) (f : α → α → α) (e : α) {axis d : Nat} (hd : s.dims[axis]? = some d) :
    Tabulates (s.dims.eraseIdx axis) (fun index => .ok ((s.row axis d index).foldl f e))
      (s.foldAxis e (fun x y => .ok (f x y)) axis) := by
  have ht : Tabulates (s.dims.eraseIdx axis)
      (fun index => foldRow "fold" (some e) (fun x y => .ok (f x y)) (s.row axis d index))
      (s.foldAxis e (fun x y => .ok (f x y)) axis) := hs.tabulates_foldAlong hd nofun
  refine ht.congr fun index _ => ?_
  rw [foldRow_some]
  exact foldlM_ok (fun _ _ => rfl) _ _

/-- One fold leaves an array with one axis less whose elements make the same in total. -/
theorem Sound.exists_foldAxis (hs : s.Sound) (hf : Orderless f e) {axis d : Nat} (hd : s.dims[axis]? = some d) :
    ∃ b, s.foldAxis e (fun x y => .ok (f x y)) axis = .ok b ∧ (s.heap.placed b).Sound ∧
      (s.heap.placed b).dims = s.dims.eraseIdx axis ∧ (s.heap.placed b).values.foldl f e = s.values.foldl f e := by
  have hspan := Nat.le_trans (Shape.span_eraseIdx_le s.dims axis) hs.span_le
  have ht := hs.tabulates_foldAxis f e hd
  obtain ⟨b,hb⟩ := ht.exists_ok fun index _ => ⟨_,rfl⟩
  rw [hb] at ht
  have hdata : b.data = (Shape.indices (s.dims.eraseIdx axis)).map fun index => (s.row axis d index).foldl f e :=
    Except.ok.inj (ht.2.symm.trans (mapM_ok fun _ _ => rfl))
  refine ⟨b,hb,ht.sound_placed hspan _,ht.dims_placed _,?_⟩
  rw [ht.values_placed hspan,hdata,foldl_rows hf hd]

theorem Sound.item_eq (hs : s.Sound) (hoffset : s.view.offset ≤ 2^50) (hr : s.rank = 0) :
    s.item = .ok (s.valueAt []) ∧ s.values = [s.valueAt []] := by
  have hd : s.dims = [] := by
    rw [← List.length_eq_zero_iff]
    exact s.view.length_dims.trans hr
  have hcell : s.view.cell [] = s.view.offset := by
    have hstart : s.view.start = s.view.offset := Address.signed_of_le_two_pow (by omega)
    have hx : s.view.layout.distance [] = 0 := by
      cases hl : s.view.layout.axes <;> simp [Layout.distance,hl,Layout.distanceAlong]
    rw [View.cell,hx,hstart]
    simp
  have hsize : s.view.size = .ok 1 := by
    have h := hs.size_eq
    rwa [show s.view.dims = [] from hd] at h
  have hread : s.heap.read s.view.buffer (s.view.cell []) = .ok (s.valueAt []) := hs.near.read_eq (by rw [hd]; trivial)
  rw [hcell] at hread
  exact ⟨by rw [item,hsize,ok_bind,if_pos rfl,hread],by rw [values,hd]; rfl⟩

theorem Sound.exists_foldAway (hs : s.Sound) (hoffset : s.view.offset ≤ 2^50) (hf : Orderless f e) {axes : List Nat}
    (ha : Exhausts axes s.rank) :
    ∃ r, s.foldAway e (fun x y => .ok (f x y)) axes = .ok r ∧ r.rank = 0 ∧ r.item = .ok (s.values.foldl f e) := by
  induction axes generalizing s with
  | nil =>
    obtain ⟨hi,hv⟩ := hs.item_eq hoffset ha
    refine ⟨s,rfl,ha,?_⟩
    rw [hi,hv,List.foldl_cons,List.foldl_nil,hf.left_id]
  | cons axis axes ih =>
    obtain ⟨hlt,ha⟩ := ha
    have hlen : axis < s.dims.length := by rwa [dims,View.length_dims]
    obtain ⟨b,hb,hsound,hdims,htotal⟩ := hs.exists_foldAxis hf (List.getElem?_eq_getElem hlen)
    have hrank : (s.heap.placed b).rank = s.rank-1 := by
      have hl := congrArg List.length hdims
      rw [List.length_eraseIdx_of_lt hlen,dims,View.length_dims,dims,View.length_dims] at hl
      exact hl
    obtain ⟨r,hr,hr0,hitem⟩ := ih hsound (Nat.zero_le _) (by rwa [hrank])
    exact ⟨r,by rw [foldAway,hb,ok_bind,hr],hr0,by rw [hitem,htotal]⟩

theorem Sound.reduce_eq (hs : s.Sound) {β : Type} (k : α → β) (g : β → β → β) (init : β) :
    s.reduce (fun x => .ok (k x)) (fun x y => .ok (g x y)) init = .ok ((s.values.map k).foldl g init) := by
  rw [reduce,hs.walk_eq,ok_bind,Walk.map_ofList_ok,Walk.foldl_ofList]
  exact foldlM_ok (fun _ _ => rfl) _ _

/-- Folding the axes of a well-formed array away, in any order, with a function that minds neither order nor grouping
leaves the element that reducing the whole array gives. -/
theorem WellFormed.foldAway_item (h : s.WellFormed) (hf : Orderless f e) {axes : List Nat} (ha : Exhausts axes s.rank) :
    ∃ r x, s.foldAway e (fun x y => .ok (f x y)) axes = .ok r ∧ r.rank = 0 ∧ r.item = .ok x ∧
      s.reduce .ok (fun x y => .ok (f x y)) e = .ok x := by
  obtain ⟨r,hr,hr0,hitem⟩ := h.sound.exists_foldAway h.offset_le hf ha
  refine ⟨r,_,hr,hr0,hitem,?_⟩
  have hreduce := h.sound.reduce_eq id f e
  rwa [List.map_id] at hreduce

theorem zigzag_foldAway_item : zigzag.WellFormed ∧
    Orderless (Word.wrappingAdd (t := ⟨true,.w8⟩)) (Word.ofInt _ 0) ∧ Exhausts [0,0] zigzag.rank ∧
    Exhausts [1,0] zigzag.rank ∧
    (∃ r, zigzag.foldAway (Word.ofInt _ 0) (fun x y => .ok (x.wrappingAdd y)) [0,0] = .ok r ∧
      r.item = .ok (Word.ofInt _ 15)) ∧
    ∃ r, zigzag.foldAway (Word.ofInt _ 0) (fun x y => .ok (x.wrappingAdd y)) [1,0] = .ok r ∧
      r.item = .ok (Word.ofInt _ 15) := by
  have h : zigzag.WellFormed := by decide
  have hf : Orderless (Word.wrappingAdd (t := ⟨true,.w8⟩)) (Word.ofInt _ 0) := Word.orderless_wrappingAdd _
  have hrows : Exhausts [0,0] zigzag.rank := by decide
  have hcolumns : Exhausts [1,0] zigzag.rank := by decide
  have hsum : zigzag.reduce .ok (fun x y => .ok (x.wrappingAdd y)) (Word.ofInt _ 0) = .ok (Word.ofInt _ 15) := by decide
  obtain ⟨r,x,hr,-,hitem,hx⟩ := WellFormed.foldAway_item h hf hrows
  obtain ⟨r',x',hr',-,hitem',hx'⟩ := WellFormed.foldAway_item h hf hcolumns
  rw [hsum,Except.ok.injEq] at hx hx'
  exact ⟨h,hf,hrows,hcolumns,⟨r,hr,by rw [hitem,hx]⟩,r',hr',by rw [hitem',hx']⟩

end Snapshot

end Strided
