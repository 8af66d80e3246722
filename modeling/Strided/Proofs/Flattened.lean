import Strided.Proofs.FoldAway

set_option autoImplicit false

namespace Strided.Snapshot

open Block (Tabulates)

variable {α : Type} [Element α] {operation : String} {identity : Option α} {f : α → α → Result α}

theorem Sound.reduceWith_eq {s : Snapshot α} (hs : s.Sound) (r : Reduction α) :
    s.reduceWith r = foldRow r.name r.identity r.combine s.values := by
  rw [reduceWith,hs.walk_eq,ok_bind]
  rfl

theorem Sound.foldAlong_vector {s : Snapshot α} (hs : s.Sound) {d : Nat} (hd : s.dims = [d]) :
    s.foldAlong operation identity f 0 =
      (do let x ← foldRow operation identity f s.values; .ok (Block.scalar x)) := by
  rw [foldAlong,hd]
  simp only [List.getElem?_cons_zero]
  split
  · rename_i he
    -- Without elements and without an identity the row is refused as the axis is.
    obtain ⟨hn,hz⟩ : identity = none ∧ d = 0 := by simpa using he
    subst hn hz
    rw [values_vector hd]
    rfl
  · exact foldSlabs_vector hs hd

theorem Sound.scanAxis_vector {s : Snapshot α} (hs : s.Sound) {d : Nat} (hd : s.dims = [d]) :
    s.scanAxis f 0 = (do let data ← (Walk.ofList s.values).scan f; .ok (Block.ofVector data)) := by
  have hr : 0 < s.rank := by
    rw [rank,View.rank_eq hd]
    exact Nat.one_pos
  rw [scanAxis,if_pos hr]
  exact scanSlabs_vector hs hd

theorem item_placed_scalar (h : Heap α) (x : α) : (h.placed (Block.scalar x)).item = .ok x := by
  have ht : Tabulates [] (fun _ => .ok x) (.ok (Block.scalar x)) := ⟨rfl,rfl⟩
  have hspan : Shape.span [] ≤ 2^50 := by decide
  have hs := ht.sound_placed hspan h
  have hr : (h.placed (Block.scalar x)).rank = 0 := rfl
  obtain ⟨hi,hv⟩ := hs.item_eq (Nat.zero_le _) hr
  rw [ht.values_placed hspan] at hv
  have hx : [x] = [(h.placed (Block.scalar x)).valueAt []] := hv
  exact hi.trans (congrArg Except.ok (List.cons.inj hx).1.symm)

structure Flattens (u s : Snapshot α) : Prop where
  sound : u.Sound
  dims_eq : u.dims = [s.dims.volume]
  values_eq : u.values = s.values

theorem Sound.exists_flatten {s : Snapshot α} (hs : s.Sound) :
    ∃ b, s.flatten = .ok b ∧ ∀ h : Heap α, (h.placed b).Flattens s := by
  have hspan : Shape.span [s.dims.volume] ≤ 2^50 := by
    have h1 := Nat.le_trans s.dims.volume_le_span hs.span_le
    simp only [Shape.span]
    omega
  have hl : (Block.ofVector s.values).layout = Layout.packed [s.dims.volume] :=
    Block.layout_ofVector s.length_values
  have hn : (Block.ofVector s.values).data.length = Shape.volume [s.dims.volume] := by
    simp [Block.ofVector,Shape.volume]
  obtain ⟨x,-,ht⟩ := Block.exists_tabulates hl hn
  refine ⟨Block.ofVector s.values,by rw [flatten,hs.toList_eq,ok_bind],fun h => ?_⟩
  exact ⟨ht.sound_placed hspan h,ht.dims_placed h,ht.values_placed hspan h⟩

theorem Flattens.reduceWith_eq {u s : Snapshot α} (hu : u.Flattens s) (hs : s.Sound) (r : Reduction α) (h : Heap α) :
    s.reduceWith r = (do let c ← u.reduceAxis r 0; (h.placed c).item) := by
  rw [hs.reduceWith_eq,reduceAxis,hu.sound.foldAlong_vector hu.dims_eq,hu.values_eq,bind_assoc]
  cases foldRow r.name r.identity r.combine s.values with
  | ok x => exact (item_placed_scalar h x).symm
  | error cause => rfl

variable {t : IntType} {s : Snapshot (Word t)}

/-- Running sums with their total beside them are running folds; the total is the last of them, and zero where there is
none. -/
theorem foldlM_totals {acc : Word t} {sums : List (Word t)} (ha : acc = sums.head?.getD (Word.ofInt t 0))
    (xs : List (Word t)) :
    xs.foldlM (fun state x => do
        let acc ← Arithmetic.add state.2 x
        .ok (acc :: state.1,acc)) (sums,acc) =
      (do
        let sums ← xs.foldlM (Walk.scanStep Word.add) sums
        .ok (sums,sums.head?.getD (Word.ofInt t 0))) := by
  induction xs generalizing acc sums with
  | nil => rw [ha]; rfl
  | cons x xs ih =>
    have hstep : Walk.scanStep Word.add sums x = (do let next ← Word.add acc x; .ok (next :: sums)) := by
      cases sums with
      | nil => simp [ha,Walk.scanStep,Word.zero_add]
      | cons last sums => rw [ha]; rfl
    have hadd : Arithmetic.add acc x = Word.add acc x := rfl
    rw [List.foldlM_cons,List.foldlM_cons,hstep,hadd]
    cases Word.add acc x with
    | ok next => exact ih rfl
    | error cause => rfl

theorem Sound.cumsum_eq (hs : s.Sound) :
    s.cumsum = (do let data ← (Walk.ofList s.values).scan Word.add; .ok (Block.ofVector data)) := by
  have hstart : (Arithmetic.zero : Word t) = ([] : List (Word t)).head?.getD (Word.ofInt t 0) := rfl
  rw [cumsum,hs.walk_eq,ok_bind,Walk.scan,Walk.foldl_ofList,Walk.foldl_ofList]
  simp only [foldlM_totals hstart,bind_assoc,ok_bind]

variable {u : Snapshot (Word t)}

theorem Flattens.cumsum_eq (hu : u.Flattens s) (hs : s.Sound) : s.cumsum = u.cumsumAxis 0 := by
  rw [hs.cumsum_eq,← hu.values_eq]
  exact (hu.sound.scanAxis_vector hu.dims_eq).symm

theorem Sound.cumsumAxis_last (hu : u.Sound) {n : Nat} (hd : u.dims = [n]) (hn : 0 < n) {c : Block (Word t)}
    (hc : u.cumsumAxis 0 = .ok c) (h : Heap (Word t)) : (h.placed c).get [n-1] = u.reduceWith Reduction.sum := by
  have hd0 : u.dims[0]? = some n := by rw [hd]; rfl
  have ht := hu.tabulates_cumsumAxis hd0
  rw [hc,hd] at ht
  have hspan : Shape.span [n] ≤ 2^50 := by
    rw [← hd]
    exact hu.span_le
  have hi : Shape.Contains [n] [n-1] := ⟨Nat.sub_lt hn Nat.one_pos,trivial⟩
  have hlast : u.rowUpTo 0 (([] : List Nat).insertIdx 0 (n-1)) = u.row 0 n [] := rowUpTo_insertIdx u hn (Nat.zero_le _)
  have hrow : u.rowUpTo 0 [n-1] = u.values := by
    rw [values_vector hd]
    exact hlast
  have hne : u.values ≠ [] := by
    rw [values_vector hd]
    exact u.row_ne_nil 0 hn []
  rw [get_placed,ht.get_eq hspan hi,hrow,hu.reduceWith_eq]
  exact (foldRow_add_zero hne).symm

/-- The running sums overflow where the sum does, and otherwise end in it. -/
theorem Flattens.cumsum_sum (hu : u.Flattens s) (hs : s.Sound) (h : Heap (Word t)) :
    (s.cumsum = abort .addOverflow ∧ s.sum = abort .addOverflow) ∨
      ∃ c x, s.cumsum = .ok c ∧ s.sum = .ok x ∧ (0 ∉ s.dims → (h.placed c).get [s.dims.volume-1] = .ok x) := by
  have hd : u.dims[0]? = some s.dims.volume := by
    rw [hu.dims_eq]
    rfl
  have hsum : s.sum = s.reduceWith Reduction.sum := rfl
  rw [hu.cumsum_eq hs]
  rcases hu.sound.cumsumAxis_endsIn hd with ⟨hc,hr⟩ | ⟨c,r,hc,hr,-⟩
  · refine Or.inl ⟨hc,?_⟩
    rw [hsum,hu.reduceWith_eq hs Reduction.sum h,hr]
    rfl
  · obtain ⟨x,hx,-⟩ := bind_eq_ok.1 ((hu.sound.foldAlong_vector hu.dims_eq).symm.trans hr)
    have htotal : u.reduceWith Reduction.sum = .ok x := (hu.sound.reduceWith_eq Reduction.sum).trans hx
    refine Or.inr ⟨c,x,hc,?_,fun hz => ?_⟩
    · rw [hsum,hs.reduceWith_eq,← hu.values_eq,← hu.sound.reduceWith_eq,htotal]
    · have hn : 0 < s.dims.volume := Nat.pos_of_ne_zero fun he => hz ((Shape.volume_eq_zero_iff _).1 he)
      rw [hu.sound.cumsumAxis_last hu.dims_eq hn hc,htotal]

/-- The reductions of all elements of a well-formed array of integers, of any type, are those of its copy along one
axis, wherever the copy and the result are put; refusals and overflows are the same. The sum, the product, the least
and the greatest element are reductions of this kind. The running sums are those of the copy; they overflow exactly
where the sum does, and otherwise end in it. -/
theorem WellFormed.flattened (hs : s.WellFormed) :
    ∃ b, s.flatten = .ok b ∧ ∀ h h' : Heap (Word t),
      (∀ r : Reduction (Word t),
        s.reduceWith r = (do let c ← (h.placed b).reduceAxis r 0; (h'.placed c).item)) ∧
      s.sum = s.reduceWith Reduction.sum ∧ s.prod = s.reduceWith Reduction.prod ∧
      s.min = s.reduceWith Reduction.min ∧ s.max = s.reduceWith Reduction.max ∧
      s.cumsum = (h.placed b).cumsumAxis 0 ∧
      ((s.cumsum = abort .addOverflow ∧ s.sum = abort .addOverflow) ∨
        ∃ c x, s.cumsum = .ok c ∧ s.sum = .ok x ∧
          (0 ∉ s.dims → (h'.placed c).get [s.dims.volume-1] = .ok x)) := by
  have hsound : s.Sound := hs.sound
  obtain ⟨b,hb,hflat⟩ := hsound.exists_flatten
  refine ⟨b,hb,fun h h' => ⟨fun r => ?_,rfl,rfl,rfl,rfl,?_,?_⟩⟩
  · exact (hflat h).reduceWith_eq hsound r h'
  · exact (hflat h).cumsum_eq hsound
  · exact (hflat h).cumsum_sum hsound h'

def drone : Snapshot (Word ⟨true,.w8⟩) where
  heap := ⟨#[#[Word.ofInt _ 100]]⟩
  view := { buffer := 0, layout := ⟨[⟨2,0⟩,⟨1,0⟩]⟩, offset := 0 }

theorem zigzag_drone_flattened : zigzag.WellFormed ∧ drone.WellFormed ∧
    (∃ b c, zigzag.flatten = .ok b ∧ (zigzag.heap.placed b).cumsumAxis 0 = .ok c ∧
      (zigzag.heap.placed c).get [5] = zigzag.sum ∧ zigzag.sum = .ok (Word.ofInt _ 15)) ∧
    ∃ b, drone.flatten = .ok b ∧ (drone.heap.placed b).cumsumAxis 0 = abort .addOverflow ∧
      (do let c ← (drone.heap.placed b).reduceAxis Reduction.max 0; (drone.heap.placed c).item) =
        .ok (Word.ofInt _ 100) := by
  have h : zigzag.WellFormed := by decide
  have hd : drone.WellFormed := by decide
  have hsum : zigzag.sum = .ok (Word.ofInt _ 15) := by decide
  have hover : drone.sum = abort .addOverflow := by decide
  have hmax : drone.reduceWith Reduction.max = .ok (Word.ofInt _ 100) := by decide
  refine ⟨h,hd,?_,?_⟩
  · obtain ⟨b,hb,hflat⟩ := WellFormed.flattened h
    obtain ⟨-,-,-,-,-,hcumsum,⟨-,ho⟩ | ⟨c,x,hc,hx,hlast⟩⟩ := hflat zigzag.heap zigzag.heap
    · rw [hsum] at ho
      cases ho
    · exact ⟨b,c,hb,by rw [← hcumsum,hc],by rw [hx]; exact hlast (by decide),hsum⟩
  · obtain ⟨b,hb,hflat⟩ := WellFormed.flattened hd
    obtain ⟨hreduce,-,-,-,-,hcumsum,⟨ho,-⟩ | ⟨c,x,hc,hx,-⟩⟩ := hflat drone.heap drone.heap
    · exact ⟨b,hb,by rw [← hcumsum,ho],by rw [← hreduce,hmax]⟩
    · rw [hover] at hx
      cases hx

end Strided.Snapshot
