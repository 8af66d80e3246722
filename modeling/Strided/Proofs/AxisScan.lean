import Mathlib.Data.List.InsertIdx
import Strided.Proofs.AxisFold
import Strided.Proofs.Word

set_option autoImplicit false

namespace Strided

theorem Shape.Contains.eraseIdx {s : Shape} {index : List Nat} (h : s.Contains index) (axis : Nat) :
    Contains (s.eraseIdx axis) (index.eraseIdx axis) := by
  induction s generalizing axis index with
  | nil => cases index <;> simp_all [Contains]
  | cons d s ih =>
    cases index with
    | nil => exact h.elim
    | cons i index =>
      cases axis with
      | zero => exact h.2
      | succ axis => exact ⟨h.1,ih h.2 axis⟩

theorem Shape.le_length_of_contains_eraseIdx {s : Shape} {axis d : Nat} (hd : s[axis]? = some d) {index : List Nat}
    (h : Contains (s.eraseIdx axis) index) : axis ≤ index.length := by
  have ha := (List.getElem?_eq_some_iff.1 hd).1
  have hl := h.length_eq
  rw [List.length_eraseIdx_of_lt ha] at hl
  omega

namespace Snapshot

open Block (Tabulates)

variable {α : Type} {operation : String} {f : α → α → Result α}

theorem foldlM_scanStep (a : α) (folds xs : List α) :
    xs.foldlM (Walk.scanStep f) (a :: folds) =
      (do
        let ys ← (List.range xs.length).mapM fun i => (xs.take (i+1)).foldlM f a
        .ok (ys.reverse++a :: folds)) := by
  induction xs generalizing a folds with
  | nil => simp
  | cons x xs ih =>
    simp only [List.length_cons,List.range_succ_eq_map,List.mapM_cons,List.mapM_map,List.take_succ_cons,
      List.foldlM_cons,Walk.scanStep]
    cases hx : f a x with
    | error cause => rfl
    | ok y => simp [ih,Function.comp_def]

theorem scan_ofList [Element α] (operation : String) {xs : List α} (hn : xs.length ≤ 2^50) :
    (Walk.ofList xs).scan f =
      (List.range xs.length).mapM fun i => foldRow operation none f (xs.take (i+1)) := by
  rw [Walk.scan,Walk.room_width_eq_ok (by simpa using hn),ok_bind,Walk.foldl_ofList]
  cases xs with
  | nil => rfl
  | cons x xs =>
    simp only [List.foldlM_cons,Walk.scanStep,ok_bind,foldlM_scanStep,List.length_cons,List.range_succ_eq_map,
      List.mapM_cons,List.mapM_map,List.take_succ_cons,foldRow_cons,foldFirst]
    simp [Function.comp_def]

/-- The running folds of the first `n` slabs, the last of them first: each block has the values of `g` at the indices
that start with its coordinate. A fault is one that `g` has at such an index. -/
def Running (s : Shape) (g : List Nat → Result α) (n : Nat) : Result (List (Block α)) → Prop
  | .ok parts => parts.length = n ∧
    ∀ i b, parts.reverse[i]? = some b → Tabulates s (fun index => g (i :: index)) (.ok b)
  | .error cause => ∃ i index, i < n ∧ s.Contains index ∧ g (i :: index) = .error cause

theorem Running.append {s : Shape} {g : List Nat → Result α} {n : Nat} {parts : List (Block α)}
    (h : Running s g n (.ok parts)) {next : Result (Block α)} (hn : Tabulates s (fun index => g (n :: index)) next) :
    Running s g (n+1) (do let b ← next; .ok (b :: parts)) := by
  obtain ⟨hl,hp⟩ := h
  cases next with
  | error cause =>
    obtain ⟨index,hx,he⟩ := hn
    exact ⟨n,index,by omega,hx,he⟩
  | ok b =>
    refine ⟨by simp [hl],fun i c hc => ?_⟩
    rw [List.reverse_cons] at hc
    -- The parts are kept last first, so the new one is at the end of the reverse.
    by_cases hi : i < n
    · rw [List.getElem?_append_left (by simpa [hl] using hi)] at hc
      exact hp i c hc
    · rw [List.getElem?_append_right (by simp [hl]; omega)] at hc
      obtain ⟨hi',rfl⟩ : i-n = 0 ∧ b = c := by simpa [hl,List.getElem?_singleton] using hc
      have hin : i = n := by omega
      subst hin
      exact hn

variable [Element α] {h : Heap α} {v : View}

/-- The beginning of the row through an index, up to the index itself. -/
def rowUpTo (s : Snapshot α) (axis : Nat) (index : List Nat) : List α :=
  (List.range ((index[axis]?).getD 0+1)).map fun k => s.valueAt (index.set axis k)

theorem rowUpTo_ne_nil (s : Snapshot α) (axis : Nat) (index : List Nat) : s.rowUpTo axis index ≠ [] := by
  simp [rowUpTo]

theorem contains_set {s : Shape} {index : List Nat} (hi : s.Contains index) {axis k : Nat}
    (hk : k ≤ (index[axis]?).getD 0) : s.Contains (index.set axis k) := by
  induction s generalizing axis index with
  | nil => cases index <;> simp_all [Shape.Contains]
  | cons d s ih =>
    cases index with
    | nil => exact hi.elim
    | cons i index =>
      cases axis with
      | zero => exact ⟨Nat.lt_of_le_of_lt (by simpa using hk) hi.1,hi.2⟩
      | succ axis => exact ⟨hi.1,ih hi.2 (by simpa using hk)⟩

theorem scanSlabs_vector {d : Nat} (hs : (Snapshot.mk h v).Sound) (hd : v.dims = [d]) :
    scanSlabs h f 0 v = (do let data ← (Walk.ofList (Snapshot.mk h v).values).scan f; .ok (Block.ofVector data)) := by
  have hr : v.rank = 1 := View.rank_eq hd
  rw [scanSlabs.eq_def]
  simp only
  rw [if_pos hr,hs.walk_eq,ok_bind]

theorem tabulates_scanVector {d : Nat} (hs : (Snapshot.mk h v).Sound) (hd : v.dims = [d]) :
    Tabulates [d] (fun index => foldRow operation none f ((Snapshot.mk h v).rowUpTo 0 index))
      (scanSlabs h f 0 v) := by
  have hn : (Snapshot.mk h v).values.length ≤ 2^50 := by
    rw [length_values]
    exact Shape.volume_le_of_span_le hs.span_le
  have hm : (Walk.ofList (Snapshot.mk h v).values).scan f =
      (Shape.indices [d]).mapM fun index => foldRow operation none f ((Snapshot.mk h v).rowUpTo 0 index) := by
    rw [scan_ofList operation hn,Shape.indices_singleton,List.mapM_map,values_vector hd,row]
    simp only [List.length_map,List.length_range]
    refine mapM_congr fun i hi => ?_
    have hi := List.mem_range.1 hi
    rw [← List.map_take,List.take_range,Nat.min_eq_left (by omega)]
    rfl
  rw [scanSlabs_vector hs hd,hm]
  refine Block.tabulates_of_mapM fun data ht => ⟨Block.layout_ofVector ?_,ht⟩
  simpa [Shape.volume] using length_of_mapM_eq_ok ht

theorem tabulates_scanNext {s : Shape} {g : List Nat → Result α} {b : Block α} {parts : List (Block α)}
    (hb : Tabulates s g (.ok b)) (hs : s.span ≤ 2^50) (hv : (Snapshot.mk h v).Sound) (hd : v.dims = s) :
    Tabulates s (fun index => do f (← g index) ((Snapshot.mk h v).valueAt index))
      (scanNext h s f (b :: parts) v) := by
  rw [scanNext,hb.walk_eq hs,ok_bind,hv.walk_eq,ok_bind,hb.zip_eq hs f (t := Snapshot.mk h v) hd]
  exact Block.tabulates_ofList hs _

theorem rowUpTo_cons (s : Snapshot α) (n : Nat) (index : List Nat) :
    s.rowUpTo 0 (n :: index) = (List.range (n+1)).map fun k => s.valueAt (k :: index) := rfl

theorem foldRow_rowUpTo_succ (s : Snapshot α) (n : Nat) (index : List Nat) :
    foldRow operation none f (s.rowUpTo 0 ((n+1) :: index)) =
      (do f (← foldRow operation none f (s.rowUpTo 0 (n :: index))) (s.valueAt ((n+1) :: index))) := by
  have hn : (List.range (n+1)).map (fun k => s.valueAt (k :: index)) ≠ [] := by simp
  rw [rowUpTo_cons,rowUpTo_cons,List.range_succ,List.map_append,foldRow_append hn]
  simp

theorem Running.succ {d n : Nat} {s : Shape} (ho : Outermost h v d s) (hn : n < d) {r : Result (List (Block α))}
    (hr : Running s (fun index => foldRow operation none f ((Snapshot.mk h v).rowUpTo 0 index)) n r) :
    Running s (fun index => foldRow operation none f ((Snapshot.mk h v).rowUpTo 0 index)) (n+1)
      (do scanPart h s f (← r) (v.slabbed 0 n)) := by
  have hspan := Nat.le_trans (Shape.span_tail_le d s) ho.span_le
  cases r with
  | error cause =>
    obtain ⟨i,index,hi,hx⟩ := hr
    exact ⟨i,index,by omega,hx⟩
  | ok parts =>
    refine hr.append ?_
    obtain ⟨hl,hp⟩ := hr
    cases parts with
    | nil =>
      have hn0 : n = 0 := by simpa using hl.symm
      subst hn0
      have ht := (ho.sound 0 hn).deepCopy
      rw [dims,ho.dims_eq] at ht
      refine ht.congr fun index hx => ?_
      rw [ho.valueAt_eq 0 hn index hx,rowUpTo_cons]
      rfl
    | cons previous rest =>
      simp only [List.length_cons] at hl
      subst hl
      have hprevious := hp rest.length previous (by simp)
      refine (tabulates_scanNext hprevious hspan (ho.sound _ hn) (ho.dims_eq _)).congr fun index hx => ?_
      rw [foldRow_rowUpTo_succ,ho.valueAt_eq _ hn index hx]

theorem running_slabs (operation : String) {d : Nat} {s : Shape} (ho : Outermost h v d s) {n : Nat} (hn : n ≤ d) :
    Running s (fun index => foldRow operation none f ((Snapshot.mk h v).rowUpTo 0 index)) n
      (((List.range n).map (v.slabbed 0)).foldlM (scanPart h s f) []) := by
  induction n with
  | zero => exact ⟨rfl,by simp⟩
  | succ n ih =>
    have hr := (ih (by omega)).succ ho hn
    simpa [List.range_succ] using hr

theorem tabulates_scanOutermost {d : Nat} {s : Shape} (hs : (Snapshot.mk h v).Sound) (hd : v.dims = d :: s)
    (hr : s ≠ []) :
    Tabulates (d :: s) (fun index => foldRow operation none f ((Snapshot.mk h v).rowUpTo 0 index))
      (scanSlabs h f 0 v) := by
  have ho := hs.outermost hd
  have hrank : v.rank ≠ 1 := by simpa [View.rank_eq hd] using hr
  have hreserve : Capacity.reserve handleWidth d = .ok () := by
    have h1 := Shape.extent_le_span d s
    have h2 := ho.span_le
    refine if_pos ?_
    simp only [handleWidth,Capacity.maxBytes]
    omega
  rw [scanSlabs.eq_def]
  simp only
  rw [if_neg hrank,hd,ho.slabs_eq,Walk.foldl_ofList]
  simp only [List.getElem?_cons_zero,Option.getD_some,hreserve,ok_bind,List.drop_succ_cons,List.drop_zero]
  have hrun := running_slabs (f := f) operation ho (Nat.le_refl d)
  cases hp : ((List.range d).map (v.slabbed 0)).foldlM (scanPart h s f) [] with
  | error cause =>
    rw [hp] at hrun
    obtain ⟨i,index,hi,hx,he⟩ := hrun
    exact ⟨i :: index,⟨hi,hx⟩,he⟩
  | ok parts =>
    rw [hp] at hrun
    exact Block.tabulates_stackBlocks ho.span_le (by simpa using hrun.1) hrun.2

theorem tabulates_scanSlabs {axis : Nat} (hs : (Snapshot.mk h v).Sound) (ha : axis < v.rank) :
    Tabulates v.dims (fun index => foldRow operation none f ((Snapshot.mk h v).rowUpTo axis index))
      (scanSlabs h f axis v) := by
  induction axis generalizing v with
  | zero =>
    cases hv : v.dims with
    | nil => simp [View.rank_eq hv] at ha
    | cons d s =>
      cases s with
      | nil => exact tabulates_scanVector hs hv
      | cons e s => exact tabulates_scanOutermost hs hv (by simp)
  | succ axis ih =>
    cases hv : v.dims with
    | nil => simp [View.rank_eq hv] at ha
    | cons d s =>
      have ho := hs.outermost hv
      have hrank (i : Nat) : axis < (v.slabbed 0 i).rank := by
        rw [View.rank_eq hv,List.length_cons] at ha
        rw [View.rank_eq (ho.dims_eq i)]
        omega
      rw [scanSlabs,ho.slabs_eq,Walk.toList_map_ofList,List.mapM_map,hv]
      refine Block.tabulates_stack ho.span_le fun i hi => ?_
      have hp := ih (v := v.slabbed 0 i) (ho.sound i hi) (hrank i)
      rw [ho.dims_eq] at hp
      refine hp.congr fun index hx => ?_
      have hrow : (Snapshot.mk h (v.slabbed 0 i)).rowUpTo axis index =
          (Snapshot.mk h v).rowUpTo (axis+1) (i :: index) := by
        refine List.map_congr_left fun k hk => ?_
        rw [List.set_cons_succ,ho.valueAt_eq i hi _ (contains_set hx (Nat.le_of_lt_succ (List.mem_range.1 hk)))]
      rw [hrow]

omit [Element α] in
theorem axis_lt_rank {s : Snapshot α} {axis d : Nat} (hd : s.dims[axis]? = some d) : axis < s.rank := by
  have h := (List.getElem?_eq_some_iff.1 hd).1
  rwa [dims,View.length_dims] at h

theorem Sound.tabulates_scanAxis {s : Snapshot α} (hs : s.Sound) {axis : Nat} (ha : axis < s.rank) :
    Tabulates s.dims (fun index => foldRow operation none f (s.rowUpTo axis index)) (s.scanAxis f axis) := by
  rw [scanAxis,if_pos ha]
  exact tabulates_scanSlabs hs ha

theorem rowUpTo_eq_row (s : Snapshot α) {axis : Nat} {index : List Nat} (h : axis < index.length) :
    s.rowUpTo axis index = s.row axis ((index[axis]?).getD 0+1) (index.eraseIdx axis) := by
  have hk (k : Nat) : (index.eraseIdx axis).insertIdx axis k = index.set axis k :=
    List.insertIdx_eraseIdx_self (by omega) k
  simp only [rowUpTo,row,hk]

theorem row_add (s : Snapshot α) (axis m n : Nat) (index : List Nat) :
    s.row axis (m+n) index =
      s.row axis m index++(List.range n).map fun k => s.valueAt (index.insertIdx axis (m+k)) := by
  simp only [row,List.range_add,List.map_append,List.map_map,Function.comp_def]

theorem rowUpTo_insertIdx (s : Snapshot α) {axis d : Nat} (hd : 0 < d) {index : List Nat} (h : axis ≤ index.length) :
    s.rowUpTo axis (index.insertIdx axis (d-1)) = s.row axis d index := by
  have hl : axis < (index.insertIdx axis (d-1)).length := by rw [List.length_insertIdx,if_pos h]; omega
  rw [rowUpTo_eq_row s hl,List.eraseIdx_insertIdx_self,List.getElem?_insertIdx_self,if_pos h,Option.getD_some,
    Nat.sub_add_cancel hd]

def lineUpTo (s : Snapshot α) (axis : Nat) (index : List Nat) : Result (List α) :=
  (List.range ((index[axis]?).getD 0+1)).mapM fun k => s.get (index.set axis k)

theorem Sound.lineUpTo_eq {s : Snapshot α} (hs : s.Sound) (axis : Nat) {index : List Nat} (hi : s.dims.Contains index) :
    s.lineUpTo axis index = .ok (s.rowUpTo axis index) :=
  mapM_ok fun _ hk => hs.get_eq (contains_set hi (Nat.le_of_lt_succ (List.mem_range.1 hk)))

theorem Sound.endsIn {s : Snapshot α} (hs : s.Sound) {axis d : Nat} (hd : s.dims[axis]? = some d) (hpos : 0 < d)
    {b r : Block α} (hb : Tabulates s.dims (fun index => foldRow operation none f (s.rowUpTo axis index)) (.ok b))
    (hr : Tabulates (s.dims.eraseIdx axis) (fun index => foldRow operation none f (s.row axis d index)) (.ok r)) :
    Block.EndsIn axis d b r := by
  refine hb.endsIn hs.span_le hd hpos (hr.congr fun index hi => ?_)
  rw [rowUpTo_insertIdx s hpos (Shape.le_length_of_contains_eraseIdx hd hi)]

theorem Sound.scanAxis_get {s : Snapshot α} (hs : s.Sound) {axis d : Nat} (hd : s.dims[axis]? = some d)
    (f : α → α → α) :
    ∃ b, s.scanAxis (fun x y => .ok (f x y)) axis = .ok b ∧ Layout.rowMajor s.dims = .ok b.layout ∧
      b.dims = s.dims ∧ b.data.length = s.dims.volume ∧
      (∀ index, s.dims.Contains index →
        ∃ x xs, s.lineUpTo axis index = .ok (x :: xs) ∧ b.snapshot.get index = .ok (xs.foldl f x)) ∧
      (0 < d → ∃ r, s.reduceAxisWith (fun x y => .ok (f x y)) axis = .ok r ∧ Block.EndsIn axis d b r) := by
  have ha := axis_lt_rank hd
  have ht : Tabulates s.dims (fun index => foldRow "reduce" none (fun x y => .ok (f x y)) (s.rowUpTo axis index))
      (s.scanAxis (fun x y => .ok (f x y)) axis) := hs.tabulates_scanAxis ha
  have hf (index : List Nat) : ∃ y ys, s.rowUpTo axis index = y :: ys ∧
      foldRow "reduce" none (fun x y => .ok (f x y)) (s.rowUpTo axis index) = .ok (ys.foldl f y) :=
    exists_foldRow_eq_foldl "reduce" (s.rowUpTo_ne_nil axis index) f
  obtain ⟨b,hb⟩ := ht.exists_ok fun index _ => by
    obtain ⟨y,ys,-,hy⟩ := hf index
    exact ⟨_,hy⟩
  rw [hb] at ht
  have hrm : Layout.rowMajor s.dims = .ok (Layout.packed s.dims) := Layout.rowMajor_eq_packed hs.span_le
  refine ⟨b,hb,by rw [ht.1,hrm],ht.dims_eq,ht.length_data,?_,?_⟩
  · intro index hi
    obtain ⟨y,ys,hy,hfold⟩ := hf index
    exact ⟨y,ys,by rw [hs.lineUpTo_eq axis hi,hy],by rw [ht.get_eq hs.span_le hi,hfold]⟩
  · intro hpos
    obtain ⟨r,hr,htr⟩ := hs.exists_reduceAxisWith hd hpos f
    exact ⟨r,hr,hs.endsIn hd hpos ht htr⟩

theorem foldRow_row_eq_error {s : Snapshot α} {axis d : Nat} (hd : s.dims[axis]? = some d) {index : List Nat}
    (hi : s.dims.Contains index) {cause : Fault}
    (he : foldRow operation none f (s.rowUpTo axis index) = .error cause) :
    foldRow operation none f (s.row axis d (index.eraseIdx axis)) = .error cause := by
  obtain ⟨i,hm,hlt⟩ := hi.exists_coordinate hd
  rw [rowUpTo_eq_row s (List.getElem?_eq_some_iff.1 hm).1,hm,Option.getD_some] at he
  obtain ⟨n,hn⟩ : ∃ n, d = i+1+n := ⟨d-(i+1),by omega⟩
  rw [hn,row_add,foldRow_append (s.row_ne_nil axis (Nat.succ_pos _) _),he,error_bind]

theorem foldRow_add_eq_error {t : IntType} {identity : Option (Word t)} {xs : List (Word t)} (hx : xs ≠ [])
    {cause : Fault} (h : foldRow operation identity Word.add xs = .error cause) : cause = .abort .addOverflow := by
  cases xs with
  | nil => exact absurd rfl hx
  | cons x xs =>
    rw [foldRow_cons] at h
    rcases bind_eq_error.1 h with h | ⟨y,-,h⟩
    · cases identity with
      | none => simp [foldFirst] at h
      | some e => exact Word.add_eq_error h
    · exact Word.foldlM_add_eq_error h

theorem foldRow_add_zero {t : IntType} {xs : List (Word t)} (hx : xs ≠ []) :
    foldRow operation (some (Word.ofInt t 0)) Word.add xs = foldRow operation none Word.add xs := by
  cases xs with
  | nil => exact absurd rfl hx
  | cons x xs => simp only [foldRow_cons,foldFirst,Word.zero_add]

theorem Sound.tabulates_sumAxis {t : IntType} {s : Snapshot (Word t)} (hs : s.Sound) {axis d : Nat}
    (hd : s.dims[axis]? = some d) :
    Tabulates (s.dims.eraseIdx axis) (fun index => foldRow "sum" (some (Word.ofInt t 0)) Word.add (s.row axis d index))
      (s.reduceAxis Reduction.sum axis) := hs.tabulates_foldAlong hd nofun

theorem Sound.tabulates_cumsumAxis {t : IntType} {s : Snapshot (Word t)} (hs : s.Sound) {axis d : Nat}
    (hd : s.dims[axis]? = some d) :
    Tabulates s.dims (fun index => foldRow "sum" none Word.add (s.rowUpTo axis index)) (s.cumsumAxis axis) :=
  hs.tabulates_scanAxis (axis_lt_rank hd)

theorem Sound.sumAxis_eq_error {t : IntType} {s : Snapshot (Word t)} (hs : s.Sound) {axis d : Nat}
    (hd : s.dims[axis]? = some d) {cause : Fault} (h : s.reduceAxis Reduction.sum axis = .error cause) :
    cause = .abort .addOverflow := by
  have hr := hs.tabulates_sumAxis hd
  rw [h] at hr
  obtain ⟨index,-,he⟩ := hr
  exact Word.foldlM_add_eq_error ((foldRow_some _ _).symm.trans he)

theorem Sound.cumsumAxis_eq_error {t : IntType} {s : Snapshot (Word t)} (hs : s.Sound) {axis d : Nat}
    (hd : s.dims[axis]? = some d) {cause : Fault} (h : s.cumsumAxis axis = .error cause) :
    cause = .abort .addOverflow ∧ ∃ cause', s.reduceAxis Reduction.sum axis = .error cause' := by
  have hc := hs.tabulates_cumsumAxis hd
  rw [h] at hc
  obtain ⟨index,hi,he⟩ := hc
  obtain ⟨i,-,hlt⟩ := hi.exists_coordinate hd
  refine ⟨foldRow_add_eq_error (s.rowUpTo_ne_nil axis index) he,?_⟩
  cases hred : s.reduceAxis Reduction.sum axis with
  | error cause' => exact ⟨cause',rfl⟩
  | ok r =>
    have hr := hs.tabulates_sumAxis hd
    rw [hred] at hr
    obtain ⟨x,hx⟩ := hr.exists_value (hi.eraseIdx axis)
    rw [foldRow_add_zero (s.row_ne_nil axis (Nat.zero_lt_of_lt hlt) _),foldRow_row_eq_error hd hi he] at hx
    cases hx

theorem Sound.cumsumAxis_endsIn {t : IntType} {s : Snapshot (Word t)} (hs : s.Sound) {axis d : Nat}
    (hd : s.dims[axis]? = some d) :
    (s.cumsumAxis axis = abort .addOverflow ∧ s.reduceAxis Reduction.sum axis = abort .addOverflow) ∨
      ∃ b r, s.cumsumAxis axis = .ok b ∧ s.reduceAxis Reduction.sum axis = .ok r ∧
        (0 < d → Block.EndsIn axis d b r) := by
  cases hcum : s.cumsumAxis axis with
  | error cause =>
    obtain ⟨rfl,cause',hred⟩ := hs.cumsumAxis_eq_error hd hcum
    obtain rfl := hs.sumAxis_eq_error hd hred
    exact Or.inl ⟨rfl,hred⟩
  | ok b =>
    have hc := hs.tabulates_cumsumAxis hd
    have hr := hs.tabulates_sumAxis hd
    rw [hcum] at hc
    refine Or.inr ?_
    obtain ⟨r,hred⟩ := hr.exists_ok fun index hi => by
      rcases Nat.eq_zero_or_pos d with rfl | hpos
      · exact ⟨_,rfl⟩
      · obtain ⟨x,hx⟩ := hc.exists_value (Shape.Contains.insertIdx hd hi (Nat.sub_lt hpos Nat.one_pos))
        rw [rowUpTo_insertIdx s hpos (Shape.le_length_of_contains_eraseIdx hd hi)] at hx
        exact ⟨x,by rw [foldRow_add_zero (s.row_ne_nil axis hpos index),hx]⟩
    rw [hred] at hr
    refine ⟨b,r,rfl,hred,fun hpos => hs.endsIn hd hpos hc (hr.congr fun index _ => ?_)⟩
    exact foldRow_add_zero (s.row_ne_nil axis hpos index)

/-- Scanning a well-formed array along an axis with a total function gives a row-major array of the same extents; its
element at an index is the left fold of what the indices hold that have 0, 1, … up to its own coordinate along the
axis, and the last slab is what reducing gives. An array without elements stays so. For integers of any type the
running sums overflow exactly where the sums do, and otherwise end in them. -/
theorem scanAxis_endsIn_reduceAxis (axis d : Nat) :
    (∀ (α : Type) [Element α] (s : Snapshot α) (f : α → α → α), s.WellFormed → s.dims[axis]? = some d →
      ∃ b, s.scanAxis (fun x y => .ok (f x y)) axis = .ok b ∧ Layout.rowMajor s.dims = .ok b.layout ∧
        b.dims = s.dims ∧ b.data.length = s.dims.volume ∧ (0 ∈ s.dims → b.data = []) ∧
        (∀ index, s.dims.Contains index →
          ∃ x xs, s.lineUpTo axis index = .ok (x :: xs) ∧ b.snapshot.get index = .ok (xs.foldl f x)) ∧
        (0 < d → ∃ r, s.reduceAxisWith (fun x y => .ok (f x y)) axis = .ok r ∧ Block.EndsIn axis d b r)) ∧
    ∀ (t : IntType) (s : Snapshot (Word t)), s.WellFormed → s.dims[axis]? = some d →
      (s.cumsumAxis axis = abort .addOverflow ∧ s.reduceAxis Reduction.sum axis = abort .addOverflow) ∨
        ∃ b r, s.cumsumAxis axis = .ok b ∧ s.reduceAxis Reduction.sum axis = .ok r ∧
          (0 < d → Block.EndsIn axis d b r) := by
  refine ⟨fun α _ s f h hd => ?_,fun t s h hd => ?_⟩
  · obtain ⟨b,hb,hl,hdims,hlen,hget,hend⟩ := Sound.scanAxis_get (View.WellFormed.sound h) hd f
    refine ⟨b,hb,hl,hdims,hlen,fun hz => ?_,hget,hend⟩
    rw [(Shape.volume_eq_zero_iff _).2 hz] at hlen
    exact List.length_eq_zero_iff.1 hlen
  · exact Sound.cumsumAxis_endsIn (View.WellFormed.sound h) hd

theorem zigzag_scanAxis : zigzag.WellFormed ∧ zigzag.dims[1]? = some 3 ∧
    (∃ b, zigzag.scanAxis (fun x y => .ok (x.wrappingSub y)) 1 = .ok b ∧
      b.snapshot.get [1,1] = .ok (Word.ofInt _ 2) ∧
      ∃ r, zigzag.reduceAxisWith (fun x y => .ok (x.wrappingSub y)) 1 = .ok r ∧ Block.EndsIn 1 3 b r) ∧
    ∃ b r, zigzag.cumsumAxis 1 = .ok b ∧ zigzag.reduceAxis Reduction.sum 1 = .ok r ∧ Block.EndsIn 1 3 b r := by
  have h : zigzag.WellFormed := by decide
  have hd : zigzag.dims[1]? = some 3 := by decide
  obtain ⟨hscan,hsum⟩ := scanAxis_endsIn_reduceAxis 1 3
  obtain ⟨b,hb,-,-,-,-,hget,hend⟩ := hscan _ zigzag Word.wrappingSub h hd
  have hline : zigzag.lineUpTo 1 [1,1] = .ok ([5,3].map (Word.ofInt _)) := by decide
  obtain ⟨x,xs,hx,hy⟩ := hget [1,1] (by decide)
  rw [hline,Except.ok.injEq,List.map_cons,List.cons.injEq] at hx
  obtain ⟨rfl,rfl⟩ := hx
  refine ⟨h,hd,⟨b,hb,by rw [hy]; decide,hend (by decide)⟩,?_⟩
  rcases hsum _ zigzag h hd with ⟨ho,-⟩ | ⟨b,r,hb,hr,hend⟩
  · have hn : (zigzag.cumsumAxis 1).isOk = true := by decide
    rw [ho] at hn
    cases hn
  · exact ⟨b,r,hb,hr,hend (by decide)⟩

end Snapshot

end Strided
