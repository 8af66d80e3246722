import Strided.Proofs.Addresses
import Strided.Proofs.Stores

set_option autoImplicit false

/-!
Writes from views that may overlap the destination. Whichever way such a write takes, staged, streaming or from run to
run, its sources cannot see what it has written. Only the map of a view onto itself reads the buffer it writes to, cell
by cell; there it is enough that no cell comes up twice.
-/
namespace Strided

variable {α β γ : Type}

namespace View

open Update

/-- The heap after the update is the one that has the values, computed before it, stored in the destination. -/
def Stores (dest : View) (h : Heap α) (value : List Nat → Result α) (u : Update α Unit) : Prop :=
  ∃ x, (∀ index, dest.dims.Contains index → value index = .ok (x index)) ∧ u h = (.ok (),h.storeAll dest x)

def StoresIf (dest : View) (h : Heap α) (fits : Prop) (value : List Nat → Result α) (u : Update α Unit) : Prop :=
  ((u h).1 = .ok () ↔ fits) ∧ (fits → dest.Stores h value u)

def Distinct (v : View) : Prop :=
  ∀ i j, v.dims.Contains i → v.dims.Contains j → v.address i = v.address j → i = j

instance (v : View) : Decidable v.Distinct :=
  decidable_of_iff (∀ i ∈ v.dims.indices, ∀ j ∈ v.dims.indices, v.address i = v.address j → i = j)
    ⟨fun h i j hi hj => h i (Shape.mem_indices.2 hi) j (Shape.mem_indices.2 hj),
      fun h i hi j hj => h i j (Shape.mem_indices.1 hi) (Shape.mem_indices.1 hj)⟩

theorem sameShape_eq_ok_iff {v w : View} : v.sameShape w = .ok () ↔ v.dims = w.dims := by
  unfold sameShape
  by_cases hr : v.rank = w.rank
  · by_cases hd : v.dims = w.dims <;> simp [hr,hd,refuse]
  · have hd : v.dims ≠ w.dims := fun hd => hr (by rw [← length_dims,← length_dims,hd])
    simp [hr,hd,refuse]

theorem WellFormed.cell_of_isContiguous {v : View} {length : Nat} (hv : v.WellFormed length)
    (hc : v.isContiguous = true) {index : List Nat} (hi : v.dims.Contains index) :
    v.cell index = v.offset+v.dims.rank index := by
  have h1 := hv.cell_eq hi
  have h2 := hv.sound.distance_eq_rank hc hi
  rw [address,h2] at h1
  omega

variable {h : Heap α} {dest source : View}

theorem Stores.ok {value : List Nat → Result α} {u : Update α Unit} (hu : dest.Stores h value u) :
    (u h).1 = .ok () := by
  obtain ⟨_,_,hr⟩ := hu
  rw [hr]

theorem Stores.eq_of {value : List Nat → Result α} {u : Update α Unit} (hu : dest.Stores h value u)
    {x : List Nat → α} (hx : ∀ index, dest.dims.Contains index → value index = .ok (x index)) :
    u h = (.ok (),h.storeAll dest x) := by
  obtain ⟨y,hy,hr⟩ := hu
  rw [hr]
  refine congrArg _ (Heap.putEach_congr (fun _ _ => rfl) fun index hi => ?_)
  have hi := Shape.mem_indices.1 hi
  exact Except.ok.inj ((hy index hi).symm.trans (hx index hi))

theorem dims_eq_of_ok {v w : View} {k : Unit → Update α Unit}
    (hu : ((ofResult (v.sameShape w) >>= k) h).1 = .ok ()) : v.dims = w.dims := by
  cases hs : v.sameShape w with
  | ok _ => exact sameShape_eq_ok_iff.1 hs
  | error e =>
    rw [hs,ofResult_error_bind] at hu
    cases hu

theorem Sound.reads_eq {length : Nat} (hs : source.Sound length) (f : α → Result β) :
    source.reads f = .ok (Walk.ofList (source.dims.indices.map fun index =>
      (read source.buffer (source.cell index) : Update α α) >>= fun x => ofResult (f x))) := by
  obtain ⟨o,ho,hw⟩ := hs.offsets_answers.walk_offsets
  rw [reads,eachCell,ho,ok_bind,hw,Walk.map_ofList_ok,List.map_map]
  rfl

theorem wellFormed_stretched {s : Snapshot β} {v : View} {length : Nat} (hd : dest.WellFormed length)
    (hs : s.WellFormed) (hv : s.view.broadcastTo dest.dims = .ok v) :
    v.buffer = s.view.buffer ∧ (s.through v).WellFormed ∧ (s.through v).dims = dest.dims := by
  obtain ⟨hb,hdims,hw⟩ := View.WellFormed.broadcastTo hs hd.span_le hv
  exact ⟨hb,by rwa [Snapshot.WellFormed,Snapshot.through,hb],hdims⟩

theorem yields_value [Element α] (hs : (Snapshot.mk h source).Sound) (hb : source.buffer ≠ dest.buffer) {f : α → Result β}
    {index : List Nat} (hi : source.dims.Contains index) {y : β}
    (hf : f ((Snapshot.mk h source).valueAt index) = .ok y) :
    ((read source.buffer (source.cell index) : Update α α) >>= fun x => ofResult (f x)).Yields dest.buffer h y := by
  have hr : h.read source.buffer (source.cell index) = .ok ((Snapshot.mk h source).valueAt index) :=
    hs.near.read_eq hi
  refine (yields_read hb hr).bind ?_
  rw [hf]
  exact yields_ofResult y

end View

namespace Operand

open Update

variable {h : Heap α} {dest : View}

theorem view_snapshot (o : Operand α β) : (o.snapshot h).view = o.view := by cases o <;> rfl

theorem snapshot_through (o : Operand α β) (v : View) : (o.through v).snapshot h = (o.snapshot h).through v := by
  cases o <;> rfl

theorem view_through (o : Operand α β) (v : View) : (o.through v).view = v := by cases o <;> rfl

theorem aliases_through (o : Operand α β) {v : View} (hv : v.buffer = o.view.buffer) :
    (o.through v).aliases dest = o.aliases dest := by
  cases o with
  | here w => exact congrArg (dest.buffer == ·) hv
  | elsewhere s => rfl

/-- An operand that is not in the buffer that is written to can be read as it goes: its elements yield their values
whatever has been written by then. -/
theorem exists_reads [Element β] {o : Operand α β} (hs : (o.snapshot h).Sound) (ha : o.aliases dest = false)
    (f : β → Result γ) :
    ∃ work : List Nat → Update α γ, o.reads f = .ok (Walk.ofList (o.view.dims.indices.map work)) ∧
      ∀ index y, o.view.dims.Contains index → f ((o.snapshot h).valueAt index) = .ok y →
        (work index).Yields dest.buffer h y := by
  cases o with
  | here v =>
    have hsv : v.Sound (h.length v.buffer) := hs
    have hb : v.buffer ≠ dest.buffer := by
      simp only [aliases,View.sharesBuffer,beq_eq_false_iff_ne] at ha
      exact ha.symm
    exact ⟨_,hsv.reads_eq f,fun index y hi hf => View.yields_value hs hb hi hf⟩
  | elsewhere s =>
    have hw : s.walk = .ok (Walk.ofList (s.dims.indices.map s.valueAt)) := hs.walk_eq
    refine ⟨fun index => ofResult (f (s.valueAt index)),?_,fun index y _ hf => ?_⟩
    · rw [reads,hw,ok_bind,Walk.map_ofList_ok,List.map_map]
      rfl
    · show (ofResult (f (s.valueAt index))).Yields dest.buffer h y
      have hf' : f (s.valueAt index) = .ok y := hf
      rw [hf']
      exact yields_ofResult y

end Operand

namespace View

open Update

variable {h : Heap α} {dest source : View}

section Element

variable [Element α]

theorem copyRun_eq (hd : dest.WellFormed (h.length dest.buffer)) (hs : (Snapshot.mk h source).WellFormed)
    (he : dest.dims = source.dims) (hb : source.buffer ≠ dest.buffer) (hdc : dest.isContiguous = true)
    (hsc : source.isContiguous = true) :
    dest.copyRun source dest.dims.volume h = (.ok (),h.storeAll dest (Snapshot.mk h source).valueAt) := by
  have hsv : source.WellFormed (h.length source.buffer) := hs
  have hvol := Nat.le_trans dest.dims.volume_le_span hd.span_le
  have hdo := hd.offset_le
  have hso := hsv.offset_le
  let work (i : Nat) : Update α Unit := read source.buffer (source.offset+i) >>= write dest.buffer (dest.offset+i)
  have hwork : ∀ i, i < 0+dest.dims.volume →
      (.ok (do
        let cell ← ofResult (Address.addCount dest.offset i)
        let origin ← ofResult (Address.addCount source.offset i)
        let x ← read source.buffer origin
        write dest.buffer cell x) : Result (Update α Unit)) = .ok (work i) := by
    intro i hi
    have h1 : Address.addCount dest.offset i = .ok (dest.offset+i) :=
      if_pos (by simp only [Address.maxUnsigned]; omega)
    have h2 : Address.addCount source.offset i = .ok (source.offset+i) :=
      if_pos (by simp only [Address.maxUnsigned]; omega)
    rw [h1,h2,ofResult_ok_bind,ofResult_ok_bind]
  -- The two runs go side by side: at the rank of an index stand its cells in both of them.
  have hcell : ∀ index ∈ dest.dims.indices, dest.offset+dest.dims.rank index = dest.cell index := fun index hi =>
    (hd.cell_of_isContiguous hdc (Shape.mem_indices.1 hi)).symm
  have hplaces : (List.range' 0 dest.dims.volume).map work = dest.dims.indices.map fun index =>
      read source.buffer (source.cell index) >>= write dest.buffer (dest.cell index) := by
    rw [← List.range_eq_range',← Shape.map_rank_indices,List.map_map]
    refine List.map_congr_left fun index hi => ?_
    have hix : source.dims.Contains index := he ▸ Shape.mem_indices.1 hi
    rw [Function.comp_apply,← hcell index hi,hsv.cell_of_isContiguous hsc hix,he]
  have hrun : dest.copyRun source dest.dims.volume h = perform (Steps.ofList (dest.dims.indices.map fun index =>
      read source.buffer (source.cell index) >>= write dest.buffer (dest.cell index))) h := by
    rw [← hplaces,← Steps.tabulate_eq_ofList hwork]
    rfl
  rw [hrun,← hd.putEach_cell]
  refine perform_putEach hd.sound.cells_lt fun index hi => yields_read hb ?_
  have hix : source.dims.Contains index := he ▸ Shape.mem_indices.1 hi
  exact hs.sound.near.read_eq hix

theorem copyInto_stores (hd : dest.WellFormed (h.length dest.buffer)) (hs : (Snapshot.mk h source).WellFormed)
    (he : dest.dims = source.dims) : dest.Stores h (Snapshot.mk h source).get (dest.copyInto source) := by
  have hsv : source.WellFormed (h.length source.buffer) := hs
  have hsound := hs.sound
  have hin {index : List Nat} (hi : dest.dims.Contains index) : source.dims.Contains index := he ▸ hi
  refine ⟨(Snapshot.mk h source).valueAt,fun index hi => hsound.get_eq (hin hi),?_⟩
  rw [copyInto,sameShape_eq_ok_iff.2 he,ofResult_ok_bind]
  by_cases hb : dest.sharesBuffer source = true
  · have hnow : source.now h = (.ok (dest.dims.indices.map (Snapshot.mk h source).valueAt),h) := by
      rw [now,hsound.toList_eq,he]
      rfl
    rw [if_pos hb,bind_of_ok hnow,hd.assign_eq]
  · have hne : source.buffer ≠ dest.buffer := fun hbb => hb (by simp [sharesBuffer,hbb])
    rw [if_neg hb]
    by_cases hc : (dest.isContiguous && source.isContiguous) = true
    · have hc' := Bool.and_eq_true_iff.1 hc
      rw [if_pos hc,hd.sound.size_eq,ofResult_ok_bind]
      exact copyRun_eq hd hs he hne hc'.1 hc'.2
    · rw [if_neg hc,hsv.sound.reads_eq,ofResult_ok_bind,← he]
      exact hd.assignEach_eq fun index hi => yields_value hsound hne (hin hi) rfl

theorem collect_eq {w : Walk β} [Element β] {xs : List β} {shape : Shape} (hw : w.toList = .ok xs)
    (hn : w.length = shape.volume) (hs : shape.span ≤ 2^50) : w.collect = .ok xs := by
  have hl : w.length ≤ 2^50 := by
    rw [hn]
    exact Shape.volume_le_of_span_le hs
  rw [Walk.collect_eq_toList hl,hw]

theorem zipMapInto_stores [Element β] [Element γ] {left : Operand α β} {right : Operand α γ} {v w : View} {g : β → γ → α}
    (hd : dest.WellFormed (h.length dest.buffer)) (hl : (left.snapshot h).WellFormed)
    (hr : (right.snapshot h).WellFormed) (hv : left.view.broadcastTo dest.dims = .ok v)
    (hw : right.view.broadcastTo dest.dims = .ok w) :
    dest.Stores h (fun index => do
      let v ← left.view.broadcastTo dest.dims
      let w ← right.view.broadcastTo dest.dims
      .ok (g (← ((left.snapshot h).through v).get index) (← ((right.snapshot h).through w).get index)))
      (zipMapInto (fun x y => .ok (g x y)) dest left right) := by
  obtain ⟨hbv,hwv,hdv⟩ := wellFormed_stretched hd hl (left.view_snapshot ▸ hv)
  obtain ⟨hbw,hww,hdw⟩ := wellFormed_stretched hd hr (right.view_snapshot ▸ hw)
  refine ⟨fun index => g (((left.snapshot h).through v).valueAt index) (((right.snapshot h).through w).valueAt index),
    fun index hi => ?_,?_⟩
  · have hiv : ((left.snapshot h).through v).dims.Contains index := hdv ▸ hi
    have hiw : ((right.snapshot h).through w).dims.Contains index := hdw ▸ hi
    simp only [hv,hw,ok_bind,hwv.sound.get_eq hiv,hww.sound.get_eq hiw]
  · rw [zipMapInto,hv,hw,ofResult_ok_bind,ofResult_ok_bind]
    simp only [Operand.snapshot_through]
    by_cases hb : (left.aliases dest || right.aliases dest) = true
    · have hstaged : (do
          let x ← ((left.snapshot h).through v).walk
          let y ← ((right.snapshot h).through w).walk
          (Walk.zipWith (fun x y => .ok (g x y)) x y).collect : Result (List α)) =
          .ok (dest.dims.indices.map fun index =>
            g (((left.snapshot h).through v).valueAt index) (((right.snapshot h).through w).valueAt index)) := by
        rw [hwv.sound.walk_eq,ok_bind,hww.sound.walk_eq,ok_bind,Snapshot.values,Snapshot.values,hdv,hdw,
          Walk.zipWith_ofList_ok]
        exact collect_eq (Walk.toList_ofList _) (by simp) hd.span_le
      rw [if_pos hb]
      exact (bind_of_ok (by rw [hstaged]) _).trans hd.assign_eq
    · -- Stretching keeps the buffer, so what is asked of the arguments is true of what is read.
      have ha := Bool.or_eq_false_iff.1 (Bool.eq_false_iff.2 hb)
      have hal : (left.through v).aliases dest = false := by
        rw [left.aliases_through (hbv.trans (congrArg View.buffer left.view_snapshot)),ha.1]
      have har : (right.through w).aliases dest = false := by
        rw [right.aliases_through (hbw.trans (congrArg View.buffer right.view_snapshot)),ha.2]
      have hsl : ((left.through v).snapshot h).Sound := by
        rw [left.snapshot_through]
        exact hwv.sound
      have hsr : ((right.through w).snapshot h).Sound := by
        rw [right.snapshot_through]
        exact hww.sound
      obtain ⟨lefts,hlefts,hyl⟩ := Operand.exists_reads hsl hal .ok
      obtain ⟨rights,hrights,hyr⟩ := Operand.exists_reads hsr har .ok
      have hdl : (left.through v).view.dims = dest.dims := by rw [left.view_through]; exact hdv
      have hdr : (right.through w).view.dims = dest.dims := by rw [right.view_through]; exact hdw
      rw [hdl] at hlefts hyl
      rw [hdr] at hrights hyr
      rw [left.snapshot_through] at hyl
      rw [right.snapshot_through] at hyr
      rw [if_neg hb,hlefts,hrights,ofResult_ok_bind,ofResult_ok_bind,Walk.zipWith_ofList_ok]
      exact hd.assignEach_eq fun index hi =>
        (hyl index _ hi rfl).bind ((hyr index _ hi rfl).bind (yields_ofResult _))

theorem broadcasts_of_ok {left : Operand α β} {right : Operand α γ} {g : β → γ → α}
    (hu : (zipMapInto (fun x y => .ok (g x y)) dest left right h).1 = .ok ()) :
    (∃ v, left.view.broadcastTo dest.dims = .ok v) ∧ ∃ w, right.view.broadcastTo dest.dims = .ok w := by
  rw [zipMapInto] at hu
  cases hv : left.view.broadcastTo dest.dims with
  | error e =>
    rw [hv,ofResult_error_bind] at hu
    cases hu
  | ok v =>
    rw [hv,ofResult_ok_bind] at hu
    cases hw : right.view.broadcastTo dest.dims with
    | error e =>
      rw [hw,ofResult_error_bind] at hu
      cases hu
    | ok w => exact ⟨⟨v,rfl⟩,w,rfl⟩

theorem mapInto_stores [Element β] {source : Operand α β} {f : β → α} (hd : dest.WellFormed (h.length dest.buffer))
    (hs : (source.snapshot h).Sound) (he : dest.dims = source.view.dims)
    (hne : source.aliases dest = true → dest ≠ source.view) :
    dest.Stores h (fun index => do .ok (f (← (source.snapshot h).get index)))
      (mapInto (fun x => .ok (f x)) dest source) := by
  have hds : (source.snapshot h).dims = dest.dims := (congrArg View.dims source.view_snapshot).trans he.symm
  refine ⟨fun index => f ((source.snapshot h).valueAt index),fun index hi => ?_,?_⟩
  · have hin : (source.snapshot h).dims.Contains index := hds ▸ hi
    simp only [hs.get_eq hin,ok_bind]
  · rw [mapInto,sameShape_eq_ok_iff.2 he,ofResult_ok_bind]
    by_cases hb : (source.aliases dest && !(dest.layout == source.view.layout && dest.offset == source.view.offset)) = true
    · have hstaged : ((source.snapshot h).walk.bind fun w => (w.map fun x => .ok (f x)).collect) =
          .ok (dest.dims.indices.map fun index => f ((source.snapshot h).valueAt index)) := by
        rw [hs.walk_eq]
        show ((Walk.ofList _).map _).collect = _
        rw [Walk.map_ofList_ok,Snapshot.map_values,hds]
        exact collect_eq (Walk.toList_ofList _) (by simp) hd.span_le
      rw [if_pos hb]
      exact (bind_of_ok (by rw [hstaged]) _).trans hd.assign_eq
    · -- A view of the same buffer that is not staged is the destination itself.
      have ha : source.aliases dest = false := by
        cases source with
        | elsewhere s => rfl
        | here v =>
          refine Bool.eq_false_iff.2 fun ha => hne ha ?_
          simp only [ha,Bool.true_and,Bool.not_eq_true',Bool.not_eq_false,Bool.and_eq_true,beq_iff_eq] at hb
          simp only [Operand.aliases,sharesBuffer,beq_iff_eq] at ha
          cases dest
          cases v
          simp_all [Operand.view]
      obtain ⟨work,hwork,hy⟩ := Operand.exists_reads hs ha fun x => .ok (f x)
      rw [← he] at hwork hy
      rw [if_neg hb,hwork,ofResult_ok_bind]
      exact hd.assignEach_eq fun index hi => hy index _ hi rfl

theorem mapInto_elsewhere_stores [Element β] {source : Snapshot β} {f : β → α}
    (hd : dest.WellFormed (h.length dest.buffer)) (hs : source.Sound) (he : dest.dims = source.dims) :
    dest.Stores h (fun index => do .ok (f (← source.get index))) (mapInto (fun x => .ok (f x)) dest source) := by
  have hs' : ((Operand.elsewhere source : Operand α β).snapshot h).Sound := hs
  have hstores := mapInto_stores (f := f) hd hs' he nofun
  exact hstores

theorem mapInto_here_stores {f : α → α} (hd : dest.WellFormed (h.length dest.buffer))
    (hs : (Snapshot.mk h source).Sound) (he : dest.dims = source.dims) (hne : dest ≠ source) :
    dest.Stores h (fun index => do .ok (f (← (Snapshot.mk h source).get index)))
      (mapInto (fun x => .ok (f x)) dest source) := by
  have hs' : ((Operand.here source).snapshot h).Sound := hs
  have hstores := mapInto_stores (f := f) hd hs' he fun _ => hne
  exact hstores

theorem WellFormed.mapInto_self (hd : dest.WellFormed (h.length dest.buffer)) (f : α → α) :
    mapInto (fun x => .ok (f x)) dest dest h =
      (.ok (),h.mapEach dest.buffer dest.cell f dest.dims.indices) := by
  have hsame : ¬ (((dest : Operand α α).aliases dest && !(dest.layout == dest.layout && dest.offset == dest.offset)) =
      true) := by simp
  rw [mapInto,Operand.view,sameShape_eq_ok_iff.2 rfl,ofResult_ok_bind,if_neg hsame,Operand.reads,hd.sound.reads_eq,
    ofResult_ok_bind,hd.assignEach_eq_perform]
  exact perform_mapEach hd.sound.cells_lt

theorem WellFormed.nodup_cells {length : Nat} (hd : dest.WellFormed length) (hu : dest.Distinct) :
    (dest.dims.indices.map dest.cell).Nodup := by
  refine List.Nodup.map_on (fun i hi j hj he => ?_) dest.dims.nodup_indices
  have hi := Shape.mem_indices.1 hi
  have hj := Shape.mem_indices.1 hj
  exact hu i j hi hj (by rw [← hd.cell_eq hi,← hd.cell_eq hj,he])

theorem mapInto_self_stores (hd : dest.WellFormed (h.length dest.buffer)) (hu : dest.Distinct) (f : α → α) :
    dest.Stores h (fun index => do .ok (f (← (Snapshot.mk h dest).get index)))
      (mapInto (fun x => .ok (f x)) dest dest) := by
  have hs : (Snapshot.mk h dest).Sound := hd.sound
  refine ⟨fun index => f ((Snapshot.mk h dest).valueAt index),fun index hi => ?_,?_⟩
  · simp only [hs.get_eq hi,ok_bind]
  · have honce : h.mapEach dest.buffer dest.cell f dest.dims.indices = h.putEach dest.buffer dest.cell
        (fun index => f (h.valueIn dest.buffer (dest.cell index))) dest.dims.indices := by
      refine (Heap.mapEach_eq_putEach_iff hd.sound.cells_lt).2 fun index hi => ?_
      rw [List.count_eq_one_of_mem (hd.nodup_cells hu) (List.mem_map_of_mem hi)]
      rfl
    rw [hd.mapInto_self f,← hd.putEach_cell,honce]
    rfl

theorem mapInto_stores_of_distinct [Element β] {source : Operand α β} {f : β → α}
    (hd : dest.WellFormed (h.length dest.buffer)) (hs : (source.snapshot h).Sound) (he : dest.dims = source.view.dims)
    (hu : dest.Distinct) :
    dest.Stores h (fun index => do .ok (f (← (source.snapshot h).get index)))
      (mapInto (fun x => .ok (f x)) dest source) := by
  by_cases hne : source.aliases dest = true → dest ≠ source.view
  · exact mapInto_stores hd hs he hne
  · have hself (f : α → α) := mapInto_self_stores hd hu f
    obtain ⟨ha,hsame⟩ := Classical.not_imp.1 hne
    cases source with
    | elsewhere s => cases ha
    | here v =>
      obtain rfl : dest = v := not_not.1 hsame
      exact hself f

/-- Where no two indices share a cell, each has afterwards the value that was meant for it. -/
theorem Stores.get_eq {value : List Nat → Result α} {u : Update α Unit} (hu : dest.Stores h value u)
    (hd : dest.WellFormed (h.length dest.buffer)) (hdist : dest.Distinct) {index : List Nat}
    (hi : dest.dims.Contains index) : (Snapshot.mk (u h).2 dest).get index = value index := by
  obtain ⟨x,hx,hr⟩ := hu
  have hl : (h.storeAll dest x).length dest.buffer = h.length dest.buffer :=
    (h.sameBut_putEach dest.buffer _ x dest.dims.indices).length_eq dest.buffer
  have hw : (Snapshot.mk (h.storeAll dest x) dest).WellFormed := by
    show dest.WellFormed ((h.storeAll dest x).length dest.buffer)
    rwa [hl]
  have honly : ∀ j ∈ dest.dims.indices, dest.cell j = dest.cell index → x j = x index := by
    intro j hj he
    have hj := Shape.mem_indices.1 hj
    rw [hdist j index hj hi (by rw [← hd.cell_eq hj,← hd.cell_eq hi,he])]
  have hcell := Heap.cells_putEach (hd.sound.cell_lt hi) honly
    (Or.inl (List.mem_map_of_mem (Shape.mem_indices.2 hi)))
  rw [hr,hw.sound.get_eq hi,hx index hi]
  simp only [Snapshot.valueAt,← hd.putEach_cell,hcell,Option.getD_some]

/-- A copy, a zip or a map into a view succeeds exactly if the extents fit, and then it leaves the heap as if all values
had been computed before the first was written. For a map no two indices of the destination may share a cell, so each
of them has its value afterwards. -/
theorem inPlace_stores [Element β] [Element γ] {left : Operand α β} {right : Operand α γ} {g : β → γ → α}
    {other : Operand α β} {f : β → α} (hd : dest.WellFormed (h.length dest.buffer))
    (hs : (Snapshot.mk h source).WellFormed) (hl : (left.snapshot h).WellFormed) (hr : (right.snapshot h).WellFormed)
    (ho : (other.snapshot h).WellFormed) :
    dest.StoresIf h (dest.dims = source.dims) (Snapshot.mk h source).get (dest.copyInto source) ∧
    dest.StoresIf h ((∃ v, left.view.broadcastTo dest.dims = .ok v) ∧ ∃ w, right.view.broadcastTo dest.dims = .ok w)
      (fun index => do
        let v ← left.view.broadcastTo dest.dims
        let w ← right.view.broadcastTo dest.dims
        .ok (g (← ((left.snapshot h).through v).get index) (← ((right.snapshot h).through w).get index)))
      (zipMapInto (fun x y => .ok (g x y)) dest left right) ∧
    (dest.Distinct →
      dest.StoresIf h (dest.dims = other.view.dims) (fun index => do .ok (f (← (other.snapshot h).get index)))
          (mapInto (fun x => .ok (f x)) dest other) ∧
        (dest.dims = other.view.dims → ∀ index, dest.dims.Contains index →
          (Snapshot.mk (mapInto (fun x => .ok (f x)) dest other h).2 dest).get index =
            (do .ok (f (← (other.snapshot h).get index))))) := by
  refine ⟨⟨⟨dims_eq_of_ok,fun he => (copyInto_stores hd hs he).ok⟩,copyInto_stores hd hs⟩,
    ⟨⟨broadcasts_of_ok,?_⟩,?_⟩,fun hdist => ⟨⟨⟨dims_eq_of_ok,?_⟩,?_⟩,?_⟩⟩
  · rintro ⟨⟨v,hv⟩,w,hw⟩
    exact (zipMapInto_stores hd hl hr hv hw).ok
  · rintro ⟨⟨v,hv⟩,w,hw⟩
    exact zipMapInto_stores hd hl hr hv hw
  · exact fun he => (mapInto_stores_of_distinct hd ho.sound he hdist).ok
  · exact fun he => mapInto_stores_of_distinct hd ho.sound he hdist
  · exact fun he index hi => (mapInto_stores_of_distinct hd ho.sound he hdist).get_eq hd hdist hi

end Element

def lower : View := { buffer := 0, layout := ⟨[⟨5,1⟩]⟩, offset := 0 }

def upper : View := { buffer := 0, layout := ⟨[⟨5,1⟩]⟩, offset := 1 }

def turned (x : Word ⟨true,.w8⟩) (negated : Bool) : Word ⟨true,.w8⟩ := if negated then x.wrappingNeg else x

def signs : Snapshot Bool where
  heap := ⟨#[#[true,false,true,true,false]]⟩
  view := { buffer := 0, layout := ⟨[⟨5,1⟩]⟩, offset := 0 }

theorem upper_inPlace :
    upper.Distinct ∧
      upper.Stores Snapshot.zigzag.heap (Snapshot.mk Snapshot.zigzag.heap lower).get (upper.copyInto lower) ∧
      (zipMapInto (fun x negated => .ok (turned x negated)) upper lower signs Snapshot.zigzag.heap).1 = .ok () ∧
      (Snapshot.mk (mapInto (fun x => .ok (Word.wrappingNeg x)) upper lower Snapshot.zigzag.heap).2 upper).get [4] =
        .ok (Word.ofInt _ (-4)) := by
  have hd : upper.WellFormed (Snapshot.zigzag.heap.length upper.buffer) := by decide
  have hs : (Snapshot.mk Snapshot.zigzag.heap lower).WellFormed := by decide
  have hsigns : signs.WellFormed := by decide
  obtain ⟨hcopy,hzip,hmap⟩ := @inPlace_stores _ _ _ _ upper lower _ _ _ (.here lower) (.elsewhere signs) turned
    (.here lower) Word.wrappingNeg hd hs hs hsigns hs
  have hdist : upper.Distinct := by decide
  have hfits : (∃ v, lower.broadcastTo upper.dims = .ok v) ∧ ∃ w, signs.view.broadcastTo upper.dims = .ok w :=
    ⟨⟨lower,by decide⟩,signs.view,by decide⟩
  refine ⟨hdist,hcopy.2 rfl,hzip.1.2 hfits,?_⟩
  rw [(hmap hdist).2 rfl [4] (by decide)]
  decide

end View

end Strided
