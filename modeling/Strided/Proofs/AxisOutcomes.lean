import Strided.Proofs.AxisScan

set_option autoImplicit false

namespace Strided.Snapshot

open Block (Tabulates)

variable {α : Type} {operation : String} {identity : Option α} {f : α → α → Result α}

def Runs (f : α → α → Result α) : α → List α → Prop
  | _, [] => True
  | x, y :: ys => ∃ z, f x y = .ok z ∧ Runs f z ys

def RunsFrom (f : α → α → Result α) : Option α → List α → Prop
  | some e, xs => Runs f e xs
  | none, [] => True
  | none, x :: xs => Runs f x xs

theorem runs_iff {x : α} {xs : List α} : Runs f x xs ↔ ∃ z, xs.foldlM f x = .ok z := by
  induction xs generalizing x with
  | nil => exact ⟨fun _ => ⟨x,rfl⟩,fun _ => trivial⟩
  | cons y ys ih =>
    rw [List.foldlM_cons]
    constructor
    · rintro ⟨z,hz,hr⟩
      rw [hz,ok_bind]
      exact ih.1 hr
    · rintro ⟨w,hw⟩
      obtain ⟨z,hz,hw⟩ := bind_eq_ok.1 hw
      exact ⟨z,hz,ih.2 ⟨w,hw⟩⟩

theorem runs_total (f : α → α → α) (x : α) (xs : List α) : Runs (fun x y => .ok (f x y)) x xs := by
  induction xs generalizing x with
  | nil => trivial
  | cons y ys ih => exact ⟨f x y,rfl,ih _⟩

theorem runsFrom_total (f : α → α → α) (identity : Option α) (xs : List α) :
    RunsFrom (fun x y => .ok (f x y)) identity xs := by
  cases identity with
  | some e => exact runs_total f e xs
  | none =>
    cases xs with
    | nil => trivial
    | cons x xs => exact runs_total f x xs

theorem runsFrom_iff {xs : List α} (hx : identity = none → xs ≠ []) :
    RunsFrom f identity xs ↔ ∃ z, foldRow operation identity f xs = .ok z := by
  cases identity with
  | some e =>
    rw [foldRow_some]
    exact runs_iff
  | none =>
    cases xs with
    | nil => exact absurd rfl (hx rfl)
    | cons x xs =>
      rw [foldRow_cons]
      exact runs_iff

/-- The function has a result wherever it is applied when the lines along an axis are folded. -/
def RunsAlong (s : Snapshot α) (f : α → α → Result α) (identity : Option α) (axis : Nat) : Prop :=
  ∀ d index xs, s.dims[axis]? = some d → Shape.Contains (s.dims.eraseIdx axis) index →
    s.line axis d index = .ok xs → RunsFrom f identity xs

theorem runsAlong_total (s : Snapshot α) (f : α → α → α) (identity : Option α) (axis : Nat) :
    s.RunsAlong (fun x y => .ok (f x y)) identity axis := fun _ _ xs _ _ _ => runsFrom_total f identity xs

/-- The axis is empty and there is no identity to put in its place; this is refused under the name of the operation. -/
def Unfounded (s : Snapshot α) (operation : String) (identity : Option α) (axis : Nat) (name : String) : Prop :=
  identity = none ∧ s.dims[axis]? = some 0 ∧ name = operation

/-- An operation along an axis refuses the axes that the array does not have, and of the others those that are empty
for it, by name. Along any other axis it has a result, and there is no other way for it to end. -/
structure EndsAlong (s : Snapshot α) (axis : Nat) (empty : String → Prop) (r : Result (Block α)) : Prop where
  invalidAxis_iff : ∀ a n, r = refuse (.invalidAxis a n) ↔ s.rank ≤ axis ∧ a = axis ∧ n = s.rank
  emptyReduction_iff : ∀ name, r = refuse (.emptyReduction name) ↔ axis < s.rank ∧ empty name
  ok_iff : (∃ b, r = .ok b) ↔ axis < s.rank ∧ ∀ name, ¬ empty name
  only : ∀ cause, r = .error cause →
    cause = .refusal (.invalidAxis axis s.rank) ∨ ∃ name, empty name ∧ cause = .refusal (.emptyReduction name)

section EndsAlong

variable {s : Snapshot α} {axis : Nat} {empty : String → Prop}

theorem endsAlong_invalidAxis (ha : s.rank ≤ axis) : s.EndsAlong axis empty (refuse (.invalidAxis axis s.rank)) where
  invalidAxis_iff a n := by simp [refuse,ha,eq_comm]
  emptyReduction_iff name := by simp [refuse,Nat.not_lt_of_le ha]
  ok_iff := by simp [refuse,Nat.not_lt_of_le ha]
  only _ hc := Or.inl (Except.error.inj hc).symm

theorem endsAlong_emptyReduction (ha : axis < s.rank) {name : String} (hn : ∀ name', empty name' ↔ name' = name) :
    s.EndsAlong axis empty (refuse (.emptyReduction name)) where
  invalidAxis_iff a n := by simp [refuse,Nat.not_le_of_lt ha]
  emptyReduction_iff name' := by simp [refuse,ha,hn,eq_comm]
  ok_iff := by simp [refuse,hn]
  only _ hc := Or.inr ⟨name,(hn name).2 rfl,(Except.error.inj hc).symm⟩

theorem endsAlong_ok (ha : axis < s.rank) (hn : ∀ name, ¬ empty name) (b : Block α) :
    s.EndsAlong axis empty (.ok b) where
  invalidAxis_iff a n := by simp [refuse,Nat.not_le_of_lt ha]
  emptyReduction_iff name := by simp [refuse,hn]
  ok_iff := by simp [ha,hn]
  only _ hc := by cases hc

end EndsAlong

/-- The calls that the recursion along an axis makes: itself and, further in, those for the slabs. -/
inductive Recurs : Nat → View → Nat → View → Prop where
  | refl (axis : Nat) (v : View) : Recurs axis v axis v
  | slab {axis inner : Nat} {v slab w : View} {slabs : List View} :
    v.slabs.toList = .ok slabs → slab ∈ slabs → Recurs axis slab inner w → Recurs (axis+1) v inner w

variable [Element α] {s : Snapshot α} {axis : Nat}

theorem Recurs.lt_rank {h : Heap α} {v w : View} {inner : Nat} (hr : Recurs axis v inner w)
    (hs : (Snapshot.mk h v).Sound) (ha : axis < v.rank) : inner < w.rank := by
  induction hr with
  | refl axis v => exact ha
  | @slab axis inner v slab w slabs hslabs hmem _ ih =>
    cases hv : v.dims with
    | nil => simp [View.rank_eq hv] at ha
    | cons d dims =>
      have ho := hs.outermost hv
      rw [ho.slabs_eq,Walk.toList_ofList,Except.ok.injEq] at hslabs
      subst hslabs
      obtain ⟨i,hi,rfl⟩ := List.mem_map.1 hmem
      refine ih (ho.sound i (List.mem_range.1 hi)) ?_
      rw [View.rank_eq hv,List.length_cons] at ha
      rw [View.rank_eq (ho.dims_eq i)]
      omega

theorem Sound.runsAlong_iff (hs : s.Sound) {d : Nat} (hd : s.dims[axis]? = some d) :
    s.RunsAlong f identity axis ↔
      ∀ index, Shape.Contains (s.dims.eraseIdx axis) index → RunsFrom f identity (s.row axis d index) := by
  refine ⟨fun hf index hi => hf d index _ hd hi (hs.line_eq hd hi),fun hf d' index xs hd' hi hx => ?_⟩
  obtain rfl : d = d' := Option.some.inj (hd.symm.trans hd')
  obtain rfl : s.row axis d index = xs := Except.ok.inj ((hs.line_eq hd hi).symm.trans hx)
  exact hf index hi

omit [Element α] in
theorem exists_extent (ha : axis < s.rank) : ∃ d, s.dims[axis]? = some d := by
  have hl : axis < s.dims.length := by rwa [dims,View.length_dims]
  exact ⟨_,List.getElem?_eq_getElem hl⟩

theorem Sound.exists_foldAlong_iff (hs : s.Sound) {d : Nat} (hd : s.dims[axis]? = some d)
    (he : identity = none → d ≠ 0) :
    (∃ b, s.foldAlong operation identity f axis = .ok b) ↔ s.RunsAlong f identity axis := by
  have ht : Tabulates (s.dims.eraseIdx axis) (fun index => foldRow operation identity f (s.row axis d index))
      (s.foldAlong operation identity f axis) := hs.tabulates_foldAlong hd he
  have hrow (index : List Nat) : RunsFrom f identity (s.row axis d index) ↔
      ∃ z, foldRow operation identity f (s.row axis d index) = .ok z :=
    runsFrom_iff fun hn => s.row_ne_nil axis (Nat.pos_of_ne_zero (he hn)) index
  rw [hs.runsAlong_iff hd]
  constructor
  · rintro ⟨b,hb⟩ index hi
    rw [hb] at ht
    exact (hrow index).2 (ht.exists_value hi)
  · exact fun hf => ht.exists_ok fun index hi => (hrow index).1 (hf index hi)

theorem Sound.endsAlong_foldAlong (hs : s.Sound) (operation : String) (hf : s.RunsAlong f identity axis) :
    s.EndsAlong axis (s.Unfounded operation identity axis) (s.foldAlong operation identity f axis) := by
  cases hd : s.dims[axis]? with
  | none =>
    have ha : s.rank ≤ axis := by
      have hl := List.getElem?_eq_none_iff.1 hd
      rwa [dims,View.length_dims] at hl
    rw [foldAlong,hd]
    exact endsAlong_invalidAxis ha
  | some d =>
    have ha := axis_lt_rank hd
    by_cases he : identity = none → d ≠ 0
    · obtain ⟨b,hb⟩ : ∃ b, s.foldAlong operation identity f axis = .ok b := (hs.exists_foldAlong_iff hd he).2 hf
      rw [hb]
      refine endsAlong_ok ha (fun name hn => ?_) b
      obtain ⟨hnone,hz,-⟩ := hn
      exact he hnone (Option.some.inj (hd.symm.trans hz))
    · obtain ⟨rfl,hz⟩ := Classical.not_imp.1 he
      have hz : d = 0 := Decidable.of_not_not hz
      subst hz
      rw [foldAlong,hd]
      exact endsAlong_emptyReduction ha fun name => by simp [Unfounded,hd]

/-- The running folds of a line are steps of its whole fold, so they all have results when it runs through. -/
theorem Sound.exists_scanAxis_iff (hs : s.Sound) (ha : axis < s.rank) :
    (∃ b, s.scanAxis f axis = .ok b) ↔ s.RunsAlong f none axis := by
  have ht : Tabulates s.dims (fun index => foldRow "scan" none f (s.rowUpTo axis index)) (s.scanAxis f axis) :=
    hs.tabulates_scanAxis ha
  obtain ⟨d,hd⟩ := exists_extent ha
  rw [hs.runsAlong_iff hd]
  rcases Nat.eq_zero_or_pos d with rfl | hpos
  · refine ⟨fun _ index _ => trivial,fun _ => ht.exists_ok fun index hi => ?_⟩
    exact absurd hi (Shape.not_contains_of_mem (List.mem_of_getElem? hd) index)
  have hrow (index : List Nat) : RunsFrom f none (s.row axis d index) ↔
      ∃ z, foldRow "scan" none f (s.row axis d index) = .ok z :=
    runsFrom_iff fun _ => s.row_ne_nil axis hpos index
  constructor
  · rintro ⟨b,hb⟩ index hi
    rw [hb] at ht
    obtain ⟨x,hx⟩ := ht.exists_value (Shape.Contains.insertIdx hd hi (Nat.sub_lt hpos Nat.one_pos))
    rw [rowUpTo_insertIdx s hpos (Shape.le_length_of_contains_eraseIdx hd hi)] at hx
    exact (hrow index).2 ⟨x,hx⟩
  · refine fun hf => ht.exists_ok fun index hi => ?_
    obtain ⟨x,hx⟩ := (hrow _).1 (hf _ (hi.eraseIdx axis))
    cases hr : foldRow "scan" none f (s.rowUpTo axis index) with
    | ok y => exact ⟨y,rfl⟩
    | error cause =>
      rw [foldRow_row_eq_error hd hi hr] at hx
      cases hx

theorem Sound.endsAlong_scanAxis (hs : s.Sound) (hf : s.RunsAlong f none axis) :
    s.EndsAlong axis (fun _ => False) (s.scanAxis f axis) := by
  by_cases ha : axis < s.rank
  · obtain ⟨b,hb⟩ := (hs.exists_scanAxis_iff ha).2 hf
    rw [hb]
    exact endsAlong_ok ha (fun _ hn => hn) b
  · rw [scanAxis,if_neg ha]
    exact endsAlong_invalidAxis (Nat.le_of_not_lt ha)

/-- Along an axis of a well-formed array, given as any number at all, folding, reducing and scanning refuse an axis
that the array does not have, and only that; reducing without an identity refuses an empty axis under its own name, and
only that. In all other cases there is a result, whatever the other extents are, provided that the function has results
along the lines, and every call that the recursion makes has the axis that it is made for. -/
theorem WellFormed.endsAlong (h : s.WellFormed) (axis : Nat) :
    (∀ init f, s.RunsAlong f (some init) axis →
      s.EndsAlong axis (s.Unfounded "fold" (some init) axis) (s.foldAxis init f axis)) ∧
    (∀ f, s.RunsAlong f none axis →
      s.EndsAlong axis (s.Unfounded "reduce" none axis) (s.reduceAxisWith f axis)) ∧
    (∀ r : Reduction α, s.RunsAlong r.combine r.identity axis →
      s.EndsAlong axis (s.Unfounded r.name r.identity axis) (s.reduceAxis r axis)) ∧
    (∀ f, s.RunsAlong f none axis → s.EndsAlong axis (fun _ => False) (s.scanAxis f axis)) ∧
    (axis < s.rank → ∀ inner w, Recurs axis s.view inner w → inner < w.rank) := by
  have hs : s.Sound := h.sound
  exact ⟨fun init f hf => hs.endsAlong_foldAlong "fold" hf,fun f hf => hs.endsAlong_foldAlong "reduce" hf,
    fun r hf => hs.endsAlong_foldAlong r.name hf,fun f hf => hs.endsAlong_scanAxis hf,
    fun ha inner w hr => hr.lt_rank hs ha⟩

def barren : Snapshot (Word ⟨true,.w8⟩) where
  heap := zigzag.heap
  view := { buffer := 0, layout := ⟨[⟨2,3⟩,⟨0,7⟩,⟨3,1⟩]⟩, offset := 0 }

/-- Both lines of three have sums. No line of `barren` along its middle axis has a least element, but along the others
there are no lines. -/
theorem zigzag_barren_endsAlong : zigzag.WellFormed ∧ zigzag.RunsAlong Word.add (some (Word.ofInt _ 0)) 1 ∧
    (∃ b, zigzag.reduceAxis Reduction.sum 1 = .ok b) ∧ barren.WellFormed ∧
    (∀ axis, barren.RunsAlong Reduction.min.combine none axis) ∧
    barren.reduceAxis Reduction.min 1 = refuse (.emptyReduction "min") ∧
    (∃ b, barren.reduceAxis Reduction.min 0 = .ok b) ∧
    barren.scanAxis Reduction.min.combine 3 = refuse (.invalidAxis 3 3) := by
  have h : zigzag.WellFormed := by decide
  have hh : barren.WellFormed := by decide
  have hsum : zigzag.RunsAlong Word.add (some (Word.ofInt _ 0)) 1 := by
    have hd : zigzag.dims[1]? = some 3 := by decide
    refine (h.sound.runsAlong_iff hd).2 fun index hi => runs_iff.2 ?_
    have hmem : index ∈ [[0],[1]] := Shape.mem_indices.2 hi
    obtain rfl | rfl : index = [0] ∨ index = [1] := by simpa using hmem
    · exact ⟨Word.ofInt _ 6,by decide⟩
    · exact ⟨Word.ofInt _ 9,by decide⟩
  have hmin (axis : Nat) : barren.RunsAlong Reduction.min.combine none axis := runsAlong_total _ _ _ _
  obtain ⟨-,-,hz,-,-⟩ := WellFormed.endsAlong h 1
  obtain ⟨-,-,h1,-,-⟩ := WellFormed.endsAlong hh 1
  obtain ⟨-,-,h0,-,-⟩ := WellFormed.endsAlong hh 0
  obtain ⟨-,-,-,h3,-⟩ := WellFormed.endsAlong hh 3
  refine ⟨h,hsum,(hz Reduction.sum hsum).ok_iff.2 ⟨by decide,fun _ hn => nomatch hn.1⟩,hh,hmin,?_,?_,?_⟩
  · exact ((h1 Reduction.min (hmin 1)).emptyReduction_iff "min").2 ⟨by decide,rfl,by decide,rfl⟩
  · exact (h0 Reduction.min (hmin 0)).ok_iff.2 ⟨by decide,fun _ hn => absurd hn.2.1 (by decide)⟩
  · exact ((h3 Reduction.min.combine (hmin 3)).invalidAxis_iff 3 3).2 (by decide)

end Strided.Snapshot
