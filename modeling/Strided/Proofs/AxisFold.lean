import Strided.Proofs.Blocks
import Strided.Snapshot.AlongAxis

set_option autoImplicit false

/-!
Reduction along an axis. The recursion over the slabs folds, at every index of the result, the row of the elements
that have this index without the axis, in the order of their coordinates and from the left. Nothing is asked of the
function that folds, which may be neither associative nor commutative and may fault.
-/
namespace Strided.Snapshot

open Block (Tabulates)

variable {α : Type}

/-- The left fold of a row from the identity, or from its first element where there is no identity. -/
def foldRow (operation : String) (identity : Option α) (f : α → α → Result α) (xs : List α) : Result α :=
  (Walk.ofList xs).reduce operation identity f

def foldFirst (identity : Option α) (f : α → α → Result α) (x : α) : Result α :=
  match identity with
  | some e => f e x
  | none => .ok x

variable {operation : String} {identity : Option α} {f : α → α → Result α}

theorem foldRow_some (e : α) (xs : List α) : foldRow operation (some e) f xs = xs.foldlM f e :=
  Walk.foldl_ofList f e xs

theorem foldRow_cons (x : α) (xs : List α) :
    foldRow operation identity f (x :: xs) = (do xs.foldlM f (← foldFirst identity f x)) := by
  cases identity with
  | some e => simp [foldRow_some,foldFirst]
  | none =>
    rw [foldRow,Walk.reduce]
    exact Walk.foldl_ofList f x xs

theorem foldRow_append {xs : List α} (hx : xs ≠ []) (ys : List α) :
    foldRow operation identity f (xs++ys) = (do ys.foldlM f (← foldRow operation identity f xs)) := by
  cases xs with
  | nil => exact absurd rfl hx
  | cons x xs => simp [foldRow_cons]

theorem exists_foldRow_eq_foldl (operation : String) {xs : List α} (hx : xs ≠ []) (f : α → α → α) :
    ∃ y ys, xs = y :: ys ∧ foldRow operation none (fun x y => .ok (f x y)) xs = .ok (ys.foldl f y) := by
  cases xs with
  | nil => exact absurd rfl hx
  | cons y ys =>
    refine ⟨y,ys,rfl,?_⟩
    rw [foldRow_cons]
    exact foldlM_ok (fun _ _ => rfl) ys y

variable [Element α] {h : Heap α} {v : View}

theorem tabulates_foldStart {s : Shape} (ht : (Snapshot.mk h v).Sound) (hd : v.dims = s) (hs : s.span ≤ 2^50) :
    Tabulates s (fun index => foldFirst identity f ((Snapshot.mk h v).valueAt index)) (foldStart h identity f v) := by
  cases identity with
  | none =>
    rw [← hd]
    exact ht.deepCopy
  | some e =>
    rw [foldStart,hd]
    refine (Block.tabulates_filled hs e).bind (k := fun index x => f x ((Snapshot.mk h v).valueAt index)) fun b hb => ?_
    rw [ht.walk_eq,ok_bind]
    refine hb.assign hs ?_ ?_
    · rw [Walk.length_map,Walk.length_ofList,length_values,dims,hd]
    · rw [Walk.toList_map_ofList,values,List.mapM_map,dims,hd]
      rfl

theorem tabulates_foldPart {s : Shape} {g : List Nat → Result α} {b : Block α} (hb : Tabulates s g (.ok b))
    (hs : s.span ≤ 2^50) (hv : (Snapshot.mk h v).Sound) (hd : v.dims = s) :
    Tabulates s (fun index => do f (← g index) ((Snapshot.mk h v).valueAt index)) (foldPart h f b v) := by
  rw [foldPart,hb.walk_eq hs,ok_bind,hv.walk_eq,ok_bind,hb.zip_eq hs f (t := Snapshot.mk h v) hd]
  refine Block.tabulates_of_mapM fun folded hm => ?_
  have hl := length_of_mapM_eq_ok hm
  exact hb.assign hs (by simpa using hl) (by rw [hm,Walk.toList_ofList])

/-- The row through an index of the result: the elements that have it as their index without the axis. -/
def row (s : Snapshot α) (axis n : Nat) (index : List Nat) : List α :=
  (List.range n).map fun k => s.valueAt (index.insertIdx axis k)

theorem Outermost.row_zero {d : Nat} {s : Shape} (ho : Outermost h v d s) {index : List Nat} (hi : s.Contains index) :
    (Snapshot.mk h v).row 0 d index = (List.range d).map fun k => (Snapshot.mk h (v.slabbed 0 k)).valueAt index := by
  refine List.map_congr_left fun k hk => ?_
  rw [List.insertIdx_zero,ho.valueAt_eq k (List.mem_range.1 hk) index hi]

theorem Outermost.row_succ {e : Nat} {s : Shape} (ho : Outermost h v e s) {axis d : Nat} (hd : s[axis]? = some d)
    {i : Nat} (hi : i < e) {index : List Nat} (hx : Shape.Contains (s.eraseIdx axis) index) :
    (Snapshot.mk h (v.slabbed 0 i)).row axis d index = (Snapshot.mk h v).row (axis+1) d (i :: index) := by
  refine List.map_congr_left fun k hk => ?_
  rw [List.insertIdx_succ_cons,ho.valueAt_eq i hi _ (Shape.Contains.insertIdx hd hx (List.mem_range.1 hk))]

theorem values_vector {d : Nat} (hd : v.dims = [d]) :
    (Snapshot.mk h v).values = (Snapshot.mk h v).row 0 d [] := by
  have hd' : (Snapshot.mk h v).dims = [d] := hd
  simp [values,row,hd',Shape.indices_singleton,Function.comp_def]

theorem foldSlabs_vector {d : Nat} (hs : (Snapshot.mk h v).Sound) (hd : v.dims = [d]) :
    foldSlabs h operation identity f 0 v =
      (do let x ← foldRow operation identity f (Snapshot.mk h v).values; .ok (Block.scalar x)) := by
  have hr : v.rank = 1 := View.rank_eq hd
  rw [foldSlabs.eq_def]
  simp only
  rw [if_pos hr,hs.walk_eq,ok_bind]
  rfl

theorem tabulates_foldVector {d : Nat} (hs : (Snapshot.mk h v).Sound) (hd : v.dims = [d]) :
    Tabulates [] (fun index => foldRow operation identity f ((Snapshot.mk h v).row 0 d index))
      (foldSlabs h operation identity f 0 v) := by
  rw [foldSlabs_vector hs hd,values_vector hd]
  cases hf : foldRow operation identity f ((Snapshot.mk h v).row 0 d []) with
  | ok x => exact ⟨rfl,by simp [Shape.indices,hf,Block.scalar]⟩
  | error cause => exact ⟨[],trivial,hf⟩

/-- Reduction along the outermost of several axes folds the slabs into one block. -/
theorem tabulates_foldOutermost {d : Nat} {s : Shape} (hs : (Snapshot.mk h v).Sound) (hd : v.dims = d :: s)
    (hr : s ≠ []) (he : identity = none → d ≠ 0) :
    Tabulates s (fun index => foldRow operation identity f ((Snapshot.mk h v).row 0 d index))
      (foldSlabs h operation identity f 0 v) := by
  have ho := hs.outermost hd
  have hspan := Nat.le_trans (Shape.span_tail_le d s) ho.span_le
  have hrank : v.rank ≠ 1 := by simpa [View.rank_eq hd] using hr
  rw [foldSlabs.eq_def]
  simp only
  rw [if_neg hrank,ho.slabs_eq,hd]
  cases d with
  | zero =>
    cases identity with
    | none => exact absurd rfl (he rfl)
    | some e => exact (Block.tabulates_filled hspan e).congr fun index _ => (foldRow_some e []).symm
  | succ d =>
    have hsteps : (Walk.ofList ((List.range (d+1)).map (v.slabbed 0))).steps = .next (v.slabbed 0 0) fun _ =>
        Steps.ofList ((List.range d).map fun k => v.slabbed 0 (k+1)) := by
      rw [List.range_succ_eq_map,List.map_cons,List.map_map]
      rfl
    rw [hsteps]
    simp only [Steps.foldl_ofList]
    have hstart : Tabulates s (fun index => foldFirst identity f ((Snapshot.mk h (v.slabbed 0 0)).valueAt index))
        (foldStart h identity f (v.slabbed 0 0)) :=
      tabulates_foldStart (ho.sound 0 (by omega)) (ho.dims_eq 0) hspan
    have hpart : ∀ slab ∈ (List.range d).map (fun k => v.slabbed 0 (k+1)), ∀ g b, Tabulates s g (.ok b) →
        Tabulates s (fun index => do f (← g index) ((Snapshot.mk h slab).valueAt index)) (foldPart h f b slab) := by
      intro slab hx g b hb
      obtain ⟨k,hk,rfl⟩ := List.mem_map.1 hx
      have hk := List.mem_range.1 hk
      exact tabulates_foldPart hb hspan (ho.sound (k+1) (by omega)) (ho.dims_eq (k+1))
    refine (hstart.foldlM (k := fun slab index y => f y ((Snapshot.mk h slab).valueAt index)) hpart).congr
      fun index hi => ?_
    have hrow : (Snapshot.mk h v).row 0 (d+1) index = (Snapshot.mk h (v.slabbed 0 0)).valueAt index ::
        ((List.range d).map fun k => v.slabbed 0 (k+1)).map fun slab => (Snapshot.mk h slab).valueAt index := by
      rw [ho.row_zero hi,List.range_succ_eq_map,List.map_cons,List.map_map,List.map_map]
      rfl
    rw [hrow,foldRow_cons]
    simp only [List.foldlM_map]

theorem tabulates_foldSlabs {axis d : Nat} (hs : (Snapshot.mk h v).Sound) (hd : v.dims[axis]? = some d)
    (he : identity = none → d ≠ 0) :
    Tabulates (v.dims.eraseIdx axis) (fun index => foldRow operation identity f ((Snapshot.mk h v).row axis d index))
      (foldSlabs h operation identity f axis v) := by
  -- One axis further in, the same holds of every slab, and a row of a slab is a row of the whole.
  induction axis generalizing v with
  | zero =>
    cases hv : v.dims with
    | nil => simp [hv] at hd
    | cons e s =>
      have hed : e = d := by simpa [hv] using hd
      subst hed
      cases s with
      | nil => exact tabulates_foldVector hs hv
      | cons e' s => exact tabulates_foldOutermost hs hv (by simp) he
  | succ axis ih =>
    cases hv : v.dims with
    | nil => simp [hv] at hd
    | cons e s =>
      have hd' : s[axis]? = some d := by simpa [hv] using hd
      have ho := hs.outermost hv
      have hspan := Nat.le_trans (Shape.span_eraseIdx_le (e :: s) (axis+1)) ho.span_le
      rw [foldSlabs,ho.slabs_eq,Walk.toList_map_ofList,List.mapM_map,hv]
      refine Block.tabulates_stack hspan fun i hi => ?_
      have hp := ih (v := v.slabbed 0 i) (ho.sound i hi) (by rwa [ho.dims_eq])
      rw [ho.dims_eq] at hp
      refine hp.congr fun index hx => ?_
      rw [ho.row_succ hd' hi hx]

theorem Sound.tabulates_foldAlong {s : Snapshot α} (hs : s.Sound) {axis d : Nat} (hd : s.dims[axis]? = some d)
    (he : identity = none → d ≠ 0) :
    Tabulates (s.dims.eraseIdx axis) (fun index => foldRow operation identity f (s.row axis d index))
      (s.foldAlong operation identity f axis) := by
  have hc : ¬ (identity.isNone && d == 0) = true := by
    cases identity with
    | some e => simp
    | none => simpa using he rfl
  rw [foldAlong,hd]
  simp only [if_neg hc]
  exact tabulates_foldSlabs hs hd he

theorem row_ne_nil (s : Snapshot α) (axis : Nat) {d : Nat} (hd : 0 < d) (index : List Nat) :
    s.row axis d index ≠ [] := by
  simp [row,Nat.ne_of_gt hd]

theorem Sound.exists_reduceAxisWith {s : Snapshot α} (hs : s.Sound) {axis d : Nat} (hd : s.dims[axis]? = some d)
    (hpos : 0 < d) (f : α → α → α) :
    ∃ r, s.reduceAxisWith (fun x y => .ok (f x y)) axis = .ok r ∧ Tabulates (s.dims.eraseIdx axis)
      (fun index => foldRow "reduce" none (fun x y => .ok (f x y)) (s.row axis d index)) (.ok r) := by
  have ht : Tabulates (s.dims.eraseIdx axis)
      (fun index => foldRow "reduce" none (fun x y => .ok (f x y)) (s.row axis d index))
      (s.reduceAxisWith (fun x y => .ok (f x y)) axis) := hs.tabulates_foldAlong hd fun _ => Nat.ne_of_gt hpos
  obtain ⟨r,hr⟩ := ht.exists_ok fun index _ => by
    obtain ⟨y,ys,-,hf⟩ := exists_foldRow_eq_foldl "reduce" (s.row_ne_nil axis hpos index) f
    exact ⟨_,hf⟩
  exact ⟨r,hr,by rwa [hr] at ht⟩

def line (s : Snapshot α) (axis d : Nat) (index : List Nat) : Result (List α) :=
  (List.range d).mapM fun k => s.get (index.insertIdx axis k)

theorem Sound.line_eq {s : Snapshot α} (hs : s.Sound) {axis d : Nat} (hd : s.dims[axis]? = some d)
    {index : List Nat} (hi : Shape.Contains (s.dims.eraseIdx axis) index) :
    s.line axis d index = .ok (s.row axis d index) :=
  mapM_ok fun _ hk => hs.get_eq (Shape.Contains.insertIdx hd hi (List.mem_range.1 hk))

/-- Folding a well-formed array along an axis with a total function gives a row-major array of the other extents;
its element at an index is the left fold, from `init`, of what the indices hold that have it without the axis.
Reducing along an axis that is not empty gives the same fold from the first of them. -/
theorem WellFormed.foldAxis_get {s : Snapshot α} (h : s.WellFormed) {axis d : Nat} (hd : s.dims[axis]? = some d)
    (f : α → α → α) (init : α) :
    (∃ b, s.foldAxis init (fun x y => .ok (f x y)) axis = .ok b ∧
      Layout.rowMajor (s.dims.eraseIdx axis) = .ok b.layout ∧ b.dims = s.dims.eraseIdx axis ∧
      b.data.length = Shape.volume (s.dims.eraseIdx axis) ∧
      ∀ index, Shape.Contains (s.dims.eraseIdx axis) index →
        ∃ xs, s.line axis d index = .ok xs ∧ b.snapshot.get index = .ok (xs.foldl f init)) ∧
    (0 < d → ∃ b, s.reduceAxisWith (fun x y => .ok (f x y)) axis = .ok b ∧
      Layout.rowMajor (s.dims.eraseIdx axis) = .ok b.layout ∧ b.dims = s.dims.eraseIdx axis ∧
      b.data.length = Shape.volume (s.dims.eraseIdx axis) ∧
      ∀ index, Shape.Contains (s.dims.eraseIdx axis) index →
        ∃ x xs, s.line axis d index = .ok (x :: xs) ∧ b.snapshot.get index = .ok (xs.foldl f x)) := by
  have hs : s.Sound := View.WellFormed.sound h
  have hspan := Nat.le_trans (Shape.span_eraseIdx_le s.dims axis) hs.span_le
  constructor
  · have ht : Tabulates (s.dims.eraseIdx axis)
        (fun index => foldRow "fold" (some init) (fun x y => .ok (f x y)) (s.row axis d index))
        (s.foldAxis init (fun x y => .ok (f x y)) axis) := hs.tabulates_foldAlong hd nofun
    have hg (index : List Nat) : foldRow "fold" (some init) (fun x y => .ok (f x y)) (s.row axis d index) =
        .ok ((s.row axis d index).foldl f init) := by
      rw [foldRow_some]
      exact foldlM_ok (fun _ _ => rfl) _ _
    obtain ⟨b,hb⟩ := ht.exists_ok fun index _ => ⟨_,hg index⟩
    rw [hb] at ht
    refine ⟨b,hb,by rw [ht.1,Layout.rowMajor_eq_packed hspan],ht.dims_eq,ht.length_data,fun index hi => ?_⟩
    exact ⟨_,hs.line_eq hd hi,by rw [ht.get_eq hspan hi,hg]⟩
  · intro hpos
    obtain ⟨r,hr,ht⟩ := hs.exists_reduceAxisWith hd hpos f
    refine ⟨r,hr,by rw [ht.1,Layout.rowMajor_eq_packed hspan],ht.dims_eq,ht.length_data,fun index hi => ?_⟩
    obtain ⟨y,ys,hy,hf⟩ := exists_foldRow_eq_foldl "reduce" (s.row_ne_nil axis hpos index) f
    exact ⟨y,ys,by rw [hs.line_eq hd hi,hy],by rw [ht.get_eq hspan hi,hf]⟩

theorem zigzag_foldAxis_get : zigzag.WellFormed ∧ zigzag.dims[1]? = some 3 ∧ 0 < 3 ∧
    (∃ b, zigzag.foldAxis (Word.ofInt _ 0) (fun x y => .ok (x.wrappingSub y)) 1 = .ok b ∧
      b.snapshot.get [1] = .ok (Word.ofInt _ (-9))) ∧
    ∃ b, zigzag.reduceAxisWith (fun x y => .ok (x.wrappingSub y)) 1 = .ok b ∧
      b.snapshot.get [1] = .ok (Word.ofInt _ 1) := by
  have h : zigzag.WellFormed := by decide
  have hd : zigzag.dims[1]? = some 3 := by decide
  have hi : Shape.Contains (zigzag.dims.eraseIdx 1) [1] := by decide
  have hline : zigzag.line 1 3 [1] = .ok ([5,3,1].map (Word.ofInt _)) := by decide
  obtain ⟨⟨b,hb,-,-,-,hg⟩,hr⟩ := WellFormed.foldAxis_get h hd Word.wrappingSub (Word.ofInt _ 0)
  obtain ⟨xs,hxs,hx⟩ := hg [1] hi
  rw [hline,Except.ok.injEq] at hxs
  subst hxs
  obtain ⟨c,hc,-,-,-,hg⟩ := hr (by decide)
  obtain ⟨y,ys,hys,hy⟩ := hg [1] hi
  rw [hline,Except.ok.injEq,List.map_cons,List.cons.injEq] at hys
  obtain ⟨rfl,rfl⟩ := hys
  exact ⟨h,hd,by decide,⟨b,hb,by rw [hx]; decide⟩,c,hc,by rw [hy]; decide⟩

end Strided.Snapshot
