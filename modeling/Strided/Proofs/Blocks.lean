import Strided.Proofs.Slabs
import Strided.Snapshot.Copy

set_option autoImplicit false

/-!
Fresh arrays by the function that their elements are the values of. The function may fault; then so does the making
of the array, by a fault that one of the indices has. Whatever makes an array out of others is described by what it
does to the function.
-/
namespace Strided

theorem Shape.span_le_maxSigned {s : Shape} (h : s.span ≤ 2^50) : (s.span : Int) ≤ Address.maxSigned := by
  simp only [Address.maxSigned]
  omega

namespace Layout

theorem rowMajor_eq_packed {s : Shape} (h : s.span ≤ 2^50) : rowMajor s = .ok (packed s) :=
  rowMajor_eq_ok (Shape.span_le_maxSigned h)

theorem rowMajor_cons_eq_packed (d : Nat) {s : Shape} (h : s.span ≤ 2^50) : rowMajor (d :: s) = .ok (packed (d :: s)) := by
  rw [rowMajor,rowMajorAxes_cons_eq_ok d (by simp only [Address.maxSigned]; omega)]
  rfl

theorem size_packed {s : Shape} (h : s.span ≤ 2^50) : (packed s).size = .ok s.volume := by
  rw [size,dims_packed,Shape.size_eq_ok (Nat.le_trans h (by decide))]

theorem swing_packedAxes_lt (s : Shape) : swing (packedAxes s) < s.span := by
  induction s with
  | nil => simp [packedAxes,swing,Shape.span]
  | cons d s ih =>
    obtain ⟨k,hk⟩ : ∃ k, max d 1 = k+1 := ⟨max d 1-1,by omega⟩
    have hd : d-1 = k := by omega
    have hv := Nat.mul_le_mul_left k (Shape.volume_le_span s)
    simp only [packedAxes,swing,Shape.span,hk,Nat.succ_mul,Int.natAbs_natCast]
    rw [hd,Nat.mul_comm _ k]
    omega

theorem step_le_span {s : Shape} {a : Axis} (h : a ∈ packedAxes s) : a.stride.natAbs*max a.extent 1 ≤ s.span := by
  induction s with
  | nil => simp [packedAxes] at h
  | cons d s ih =>
    rcases List.mem_cons.1 h with rfl | h
    · rw [Int.natAbs_natCast,Nat.mul_comm]
      exact Nat.mul_le_mul_left _ (Shape.volume_le_span s)
    · exact Nat.le_trans (ih h) (Shape.span_tail_le d s)

end Layout

theorem View.sound_of_packed {v : View} {s : Shape} {length : Nat} (hl : v.layout = Layout.packed s)
    (hs : s.span ≤ 2^50) (hsw : v.start.natAbs+Layout.swing (Layout.packedAxes s) ≤ 2^51)
    (hin : ∀ r : Nat, r < s.volume → 0 ≤ v.start+r ∧ v.start+r < length) : v.Sound length where
  span_le := by rwa [dims,hl,Layout.dims_packed]
  swing_le := by
    rw [hl]
    exact hsw
  step_le a ha := by
    rw [hl] at ha
    exact Nat.le_trans (Layout.step_le_span ha) (by omega)
  inside index hi := by
    rw [dims,hl,Layout.dims_packed] at hi
    rw [hl,Layout.distance,Layout.packed,Layout.distanceAlong_packedAxes]
    exact hin _ (Shape.rank_lt hi)

theorem Capacity.reserve_of_le {α : Type} [Element α] {n : Nat} (h : n ≤ 2^50) :
    reserve (Element.width α) n = .ok () := by
  have hw : Element.width α*n ≤ 8127*2^50 := Nat.mul_le_mul Element.width_le h
  exact if_pos (Nat.le_trans hw (by decide))

theorem Block.stack_eq_of_forall₂ {ι κ α : Type} [Element α] {dimsOf : ι → Shape} {dimsOf' : κ → Shape}
    {walkOf : ι → Result (Walk α)} {walkOf' : κ → Result (Walk α)} {xs : List ι} {ys : List κ} (itemDims : Shape)
    (h : List.Forall₂ (fun x y => dimsOf x = dimsOf' y ∧ walkOf x = walkOf' y) xs ys) :
    stack dimsOf walkOf itemDims xs = stack dimsOf' walkOf' itemDims ys := by
  have hfind : (xs.find? fun x => dimsOf x ≠ itemDims).map dimsOf =
      (ys.find? fun y => dimsOf' y ≠ itemDims).map dimsOf' := by
    have hd := congrArg (List.find? fun d => decide (d ≠ itemDims)) (map_eq_of_forall₂ (h.imp fun _ _ h => h.1))
    rwa [List.find?_map,List.find?_map] at hd
  have hrows : (xs.mapM fun x => do (← walkOf x).toList) = (ys.mapM fun y => do (← walkOf' y).toList) :=
    mapM_eq_of_forall₂ (h.imp fun _ _ h => by rw [h.2])
  rw [stack,stack,h.length_eq,hrows]
  cases hx : xs.find? fun x => dimsOf x ≠ itemDims with
  | none =>
    rw [hx] at hfind
    simp only [Option.map_eq_none_iff.1 hfind.symm]
  | some bad =>
    rw [hx] at hfind
    obtain ⟨bad',hy,hd⟩ := Option.map_eq_some_iff.1 hfind.symm
    simp only [hy,hd]

theorem Shape.exists_map_indices {α : Type} [Element α] {s : Shape} {xs : List α} (hl : xs.length = s.volume) :
    ∃ x : List Nat → α, s.indices.map x = xs := by
  refine ⟨fun index => (xs[s.rank index]?).getD Element.blank,?_⟩
  have hm : s.indices.map (fun index => (xs[s.rank index]?).getD Element.blank) =
      (s.indices.map s.rank).map fun r => (xs[r]?).getD Element.blank := by
    rw [List.map_map]
    rfl
  rw [hm,map_rank_indices,← hl]
  refine List.ext_getElem (by simp) fun k h1 h2 => ?_
  simp [h2]

namespace Block

variable {α β : Type}

/-- The result is the packed block of what `g` gives at all indices of the shape, or a fault that it has at one. -/
def Tabulates (s : Shape) (g : List Nat → Result α) : Result (Block α) → Prop
  | .ok b => b.layout = Layout.packed s ∧ s.indices.mapM g = .ok b.data
  | .error cause => ∃ index, s.Contains index ∧ g index = .error cause

variable {s : Shape} {g g' : List Nat → Result α} {r : Result (Block α)} {b : Block α}

theorem Tabulates.length_data (h : Tabulates s g (.ok b)) : b.data.length = s.volume := by
  rw [length_of_mapM_eq_ok h.2,Shape.length_indices]

theorem Tabulates.dims_eq (h : Tabulates s g (.ok b)) : b.dims = s := by
  rw [dims,h.1,Layout.dims_packed]

theorem Tabulates.exists_value (h : Tabulates s g (.ok b)) {index : List Nat} (hi : s.Contains index) :
    ∃ x, g index = .ok x := by
  have hm : g index ∈ b.data.map .ok := by
    rw [← mapM_eq_ok.1 h.2]
    exact List.mem_map_of_mem (Shape.mem_indices.2 hi)
  obtain ⟨x,-,hx⟩ := List.mem_map.1 hm
  exact ⟨x,hx.symm⟩

theorem Tabulates.congr (h : Tabulates s g r) (hg : ∀ index, s.Contains index → g index = g' index) :
    Tabulates s g' r := by
  cases r with
  | ok b =>
    refine ⟨h.1,?_⟩
    rw [← h.2]
    exact mapM_congr fun index hi => (hg index (Shape.mem_indices.1 hi)).symm
  | error cause =>
    obtain ⟨index,hi,he⟩ := h
    exact ⟨index,hi,by rw [← hg index hi,he]⟩

theorem Tabulates.exists_ok (h : Tabulates s g r) (hg : ∀ index, s.Contains index → ∃ x, g index = .ok x) :
    ∃ b, r = .ok b := by
  cases r with
  | ok b => exact ⟨b,rfl⟩
  | error cause =>
    obtain ⟨index,hi,he⟩ := h
    obtain ⟨x,hx⟩ := hg index hi
    rw [he] at hx
    cases hx

theorem tabulates_of_mapM {k : List α → Result (Block α)}
    (hk : ∀ data, s.indices.mapM g = .ok data → Tabulates s g (k data)) : Tabulates s g (s.indices.mapM g >>= k) := by
  cases hm : s.indices.mapM g with
  | ok data => exact hk data hm
  | error cause =>
    obtain ⟨index,hi,he⟩ := exists_of_mapM_eq_error hm
    exact ⟨index,Shape.mem_indices.1 hi,he⟩

/-- What is done with a block element by element is done with the function. -/
theorem Tabulates.bind {k : List Nat → α → Result β} {step : Block α → Result (Block β)} (h : Tabulates s g r)
    (hstep : ∀ b, Tabulates s g (.ok b) → Tabulates s (fun index => do k index (← g index)) (step b)) :
    Tabulates s (fun index => do k index (← g index)) (r >>= step) := by
  cases r with
  | ok b => exact hstep b h
  | error cause =>
    obtain ⟨index,hi,he⟩ := h
    exact ⟨index,hi,by simp only [he,error_bind]⟩

theorem Tabulates.foldlM {ι : Type} {k : ι → List Nat → α → Result α} {step : Block α → ι → Result (Block α)}
    {xs : List ι} (h : Tabulates s g r)
    (hstep : ∀ x ∈ xs, ∀ g' b, Tabulates s g' (.ok b) →
      Tabulates s (fun index => do k x index (← g' index)) (step b x)) :
    Tabulates s (fun index => do xs.foldlM (fun y x => k x index y) (← g index)) (do xs.foldlM step (← r)) := by
  induction xs generalizing g r with
  | nil =>
    cases r with
    | ok b => simpa using h
    | error cause => simpa using h
  | cons x xs ih =>
    have hx : Tabulates s (fun index => do k x index (← g index)) (r >>= fun b => step b x) :=
      h.bind fun b hb => hstep x (by simp) g b hb
    have hr := ih hx fun y hy => hstep y (by simp [hy])
    simpa only [List.foldlM_cons,bind_assoc] using hr

theorem Tabulates.sound (h : Tabulates s g (.ok b)) (hs : s.span ≤ 2^50) : b.snapshot.Sound := by
  have hz : b.snapshot.view.start = 0 := Address.signed_of_le_two_pow (n := 0) (by decide)
  have hlength : b.snapshot.heap.length b.snapshot.view.buffer = s.volume := by rw [← h.length_data]; rfl
  have hsw := Layout.swing_packedAxes_lt s
  refine View.sound_of_packed h.1 hs (by rw [hz,Int.natAbs_zero]; omega) fun r hr => ?_
  rw [hz,hlength]
  omega

theorem Tabulates.cellOf_eq (h : Tabulates s g (.ok b)) (hv : (s.volume : Int) ≤ Address.maxSigned) {index : List Nat}
    (hi : s.Contains index) : b.snapshot.view.cellOf index = .ok (s.rank index) := by
  have hd : b.snapshot.view.layout.dims.Contains index := by
    have hd : b.snapshot.view.layout.dims = s := h.dims_eq
    rwa [hd]
  have hl : b.snapshot.view.layout = Layout.packed s := h.1
  have hz : Address.signed b.snapshot.view.offset = 0 := Address.signed_of_le_two_pow (n := 0) (by decide)
  have hr := Shape.rank_lt hi
  have hs : (s.rank index : Int) ≤ Address.maxSigned := by omega
  have hu := Address.unsigned_of_nonneg (Int.natCast_nonneg (s.rank index)) hs
  rw [View.cellOf,Layout.checkedOffsetOf_of_contains hd,hl,Layout.offsetOf_packed hi hv,ok_bind,View.cellAt,hz,
    Address.add_eq_ok (by rw [Int.zero_add]; exact Address.isSigned_natCast hs),ok_bind,Int.zero_add]
  exact congrArg Except.ok (Int.ofNat.inj hu)

theorem Tabulates.get_eq_of_countable (h : Tabulates s g (.ok b)) (hv : (s.volume : Int) ≤ Address.maxSigned)
    {index : List Nat} (hi : s.Contains index) : b.snapshot.get index = g index := by
  have hg : (s.indices.map g)[s.rank index]? = (b.data.map .ok)[s.rank index]? := by rw [mapM_eq_ok.1 h.2]
  have hr : s.rank index < b.data.length := by rw [h.length_data]; exact Shape.rank_lt hi
  simp only [List.getElem?_map,Shape.getElem?_indices hi,Option.map_some,List.getElem?_eq_getElem hr,
    Option.some.injEq] at hg
  have hx : b.snapshot.heap.read b.snapshot.view.buffer (s.rank index) = .ok b.data[s.rank index] := by
    have hcells : b.snapshot.heap.cells b.snapshot.view.buffer = b.data.toArray := rfl
    simp [Heap.read,hcells,hr]
  rw [Snapshot.get,h.cellOf_eq hv hi,ok_bind,hx,hg]

theorem Tabulates.get_eq (h : Tabulates s g (.ok b)) (hs : s.span ≤ 2^50) {index : List Nat}
    (hi : s.Contains index) : b.snapshot.get index = g index := by
  have hv := Shape.volume_le_of_span_le hs
  exact h.get_eq_of_countable (by simp only [Address.maxSigned]; omega) hi

theorem Tabulates.size_eq (h : Tabulates s g (.ok b)) (hs : s.span ≤ 2^50) : b.layout.size = .ok b.data.length := by
  rw [h.1,Layout.size_packed hs,h.length_data]

theorem Tabulates.walk_eq (h : Tabulates s g (.ok b)) (hs : s.span ≤ 2^50) : b.walk = .ok (Walk.ofList b.data) := by
  rw [walk,h.size_eq hs,ok_bind]

theorem Tabulates.assign (h : Tabulates s g (.ok b)) (hs : s.span ≤ 2^50) {w : Walk α} (hl : w.length = s.volume)
    (hw : w.toList = s.indices.mapM g') : Tabulates s g' (b.assign w) := by
  rw [Block.assign,h.size_eq hs,h.length_data,ok_bind,if_pos hl.symm,hw]
  exact tabulates_of_mapM fun data hm => ⟨h.1,hm⟩

theorem ofList_eq (hs : s.span ≤ 2^50) {data : List α} (hl : data.length = s.volume) :
    ofList s data = .ok { layout := Layout.packed s, data } := by
  rw [ofList,Layout.rowMajor_eq_packed hs,ok_bind,Layout.size_packed hs,ok_bind,if_pos hl.symm]

theorem tabulates_ofList (hs : s.span ≤ 2^50) (g : List Nat → Result α) :
    Tabulates s g (do let data ← s.indices.mapM g; ofList s data) :=
  tabulates_of_mapM fun data hm => by
    rw [ofList_eq hs (by simpa using length_of_mapM_eq_ok hm)]
    exact ⟨rfl,hm⟩

theorem layout_ofVector {data : List α} {n : Nat} (hl : data.length = n) :
    (ofVector data).layout = Layout.packed [n] := by
  rw [← hl]
  rfl

variable [Element α]

theorem exists_tabulates (hl : b.layout = Layout.packed s) (hn : b.data.length = s.volume) :
    ∃ x : List Nat → α, s.indices.map x = b.data ∧ Tabulates s (fun index => .ok (x index)) (.ok b) := by
  obtain ⟨x,hx⟩ := Shape.exists_map_indices hn
  exact ⟨x,hx,hl,(mapM_ok fun _ _ => rfl).trans (by rw [hx])⟩

theorem tabulates_filled (hs : s.span ≤ 2^50) (x : α) : Tabulates s (fun _ => .ok x) (filled s x) := by
  have hv := Nat.le_trans s.volume_le_span hs
  have hm : s.indices.mapM (fun _ => (.ok x : Result α)) = .ok (List.replicate s.volume x) := by
    simp [mapM_eq_ok,List.map_const']
  rw [filled,Layout.rowMajor_eq_packed hs,ok_bind,Layout.size_packed hs,ok_bind,Capacity.reserve_of_le hv,ok_bind]
  exact ⟨rfl,hm⟩

theorem Tabulates.zip_eq (h : Tabulates s g (.ok b)) (hs : s.span ≤ 2^50) (f : α → α → Result α) {t : Snapshot α}
    (ht : t.dims = s) :
    (Walk.zipWith f (Walk.ofList b.data) (Walk.ofList t.values)).collect =
      s.indices.mapM (fun index => do f (← g index) (t.valueAt index)) := by
  have hn : (Walk.zipWith f (Walk.ofList b.data) (Walk.ofList t.values)).length ≤ 2^50 := by
    have hv := Nat.le_trans s.volume_le_span hs
    simp only [Walk.length_zipWith,Walk.length_ofList,h.length_data,Snapshot.length_values]
    omega
  rw [Walk.collect_eq_toList hn,Walk.toList_zipWith_ofList,Snapshot.values,ht]
  exact mapM_zip_map h.2 t.valueAt f

/-- Items of one shape, one for each first coordinate, are stacked into the block of the larger shape. Only the number
of its elements has to be in range: items without elements may be any number. -/
theorem tabulates_stack_of_rows {ι : Type} {dimsOf : ι → Shape} {walkOf : ι → Result (Walk α)} {items : List ι} {n : Nat}
    (hs : s.span ≤ 2^50) (hv : n*s.volume ≤ 2^50) (hn : items.length = n) (hd : ∀ item ∈ items, dimsOf item = s)
    {rows : List (List α)} (hrows : (items.mapM fun item => do (← walkOf item).toList) = .ok rows)
    (hg : ∀ i xs, rows[i]? = some xs → s.indices.mapM (fun index => g (i :: index)) = .ok xs) :
    Tabulates (n :: s) g (stack dimsOf walkOf s items) := by
  have hl : rows.length = n := (length_of_mapM_eq_ok hrows).trans hn
  have hfind : (items.find? fun item => dimsOf item ≠ s) = none :=
    List.find?_eq_none.2 fun item hi => by simp [hd item hi]
  have hsize : Shape.size s = .ok s.volume := Shape.size_eq_ok (Nat.le_trans hs (by decide))
  have hcount : Address.mulCount n s.volume = .ok (n*s.volume) :=
    if_pos (Nat.le_trans hv (by decide))
  have hdata : (Shape.indices (n :: s)).mapM g = .ok rows.flatten := by
    rw [mapM_eq_ok,Shape.indices,List.map_flatMap,List.map_flatten,← List.flatMap_def,List.flatMap_def,List.flatMap_def]
    congr 1
    -- Row by row: the indices of a row are those that start with its number.
    refine List.ext_getElem? fun i => ?_
    by_cases hi : i < n
    · obtain ⟨xs,hxs⟩ : ∃ xs, rows[i]? = some xs := ⟨rows[i],List.getElem?_eq_getElem (by omega)⟩
      have hx := mapM_eq_ok.1 (hg i xs hxs)
      simpa [hi,hxs,Function.comp_def] using hx
    · simp [hi,hl]
  rw [stack,hfind]
  simp only [hn,hsize,hcount,ok_bind,Capacity.reserve_of_le hv,Layout.rowMajor_cons_eq_packed n hs,hrows]
  exact ⟨rfl,hdata⟩

theorem tabulates_stackBlocks {n : Nat} (hs : Shape.span (n :: s) ≤ 2^50) {parts : List (Block α)}
    (hn : parts.length = n) (h : ∀ i b, parts[i]? = some b → Tabulates s (fun index => g (i :: index)) (.ok b)) :
    Tabulates (n :: s) g (stackBlocks s parts) := by
  have hs' := Nat.le_trans (Shape.span_tail_le n s) hs
  have hv : n*s.volume ≤ 2^50 := Nat.le_trans (Shape.volume_le_span (n :: s)) hs
  have hp (b : Block α) (hb : b ∈ parts) : ∃ i, Tabulates s (fun index => g (i :: index)) (.ok b) := by
    obtain ⟨i,hi⟩ := List.mem_iff_getElem?.1 hb
    exact ⟨i,h i b hi⟩
  have hrows : (parts.mapM fun b => do (← b.walk).toList) = .ok (parts.map data) := by
    refine mapM_ok fun b hb => ?_
    obtain ⟨i,hi⟩ := hp b hb
    rw [hi.walk_eq hs',ok_bind,Walk.toList_ofList]
  refine tabulates_stack_of_rows hs' hv hn (fun b hb => (hp b hb).choose_spec.dims_eq) hrows fun i xs hx => ?_
  obtain ⟨b,hb,rfl⟩ : ∃ b, parts[i]? = some b ∧ data b = xs := by simpa using hx
  exact (h i b hb).2

theorem tabulates_stack {n : Nat} (hs : Shape.span (n :: s) ≤ 2^50) {part : Nat → Result (Block α)}
    (h : ∀ i, i < n → Tabulates s (fun index => g (i :: index)) (part i)) :
    Tabulates (n :: s) g (do let parts ← (List.range n).mapM part; stackBlocks s parts) := by
  cases hm : (List.range n).mapM part with
  | error cause =>
    obtain ⟨i,hi,he⟩ := exists_of_mapM_eq_error hm
    have hi := List.mem_range.1 hi
    obtain ⟨index,hx,hg⟩ : ∃ index, s.Contains index ∧ g (i :: index) = .error cause := by
      have hp := h i hi
      rwa [he] at hp
    exact ⟨i :: index,⟨hi,hx⟩,hg⟩
  | ok parts =>
    have hl : parts.length = n := by simpa using length_of_mapM_eq_ok hm
    refine tabulates_stackBlocks hs hl fun i b hb => ?_
    have hi : i < n := by rw [← hl]; exact (List.getElem?_eq_some_iff.1 hb).1
    have hg : ((List.range n).map part)[i]? = (parts.map .ok)[i]? := by rw [mapM_eq_ok.1 hm]
    simp only [List.getElem?_map,List.getElem?_range hi,hb,Option.map_some,Option.some.injEq] at hg
    have hp := h i hi
    rwa [hg] at hp

end Block

theorem Snapshot.Sound.deepCopy {α : Type} [Element α] {s : Snapshot α} (h : s.Sound) :
    Block.Tabulates s.dims (fun index => .ok (s.valueAt index)) s.deepCopy := by
  have hr : Layout.rowMajor s.dims = .ok (Layout.packed s.dims) := Layout.rowMajor_eq_packed h.span_le
  rw [Snapshot.deepCopy,h.toList_eq,ok_bind,hr,ok_bind]
  exact ⟨rfl,mapM_ok fun _ _ => rfl⟩

namespace Block

variable {α : Type} [Element α] {s : Shape} {g : List Nat → Result α} {b : Block α}

theorem Tabulates.toList_eq (h : Tabulates s g (.ok b)) (hs : s.span ≤ 2^50) : b.snapshot.toList = .ok b.data := by
  have hd : b.snapshot.dims = s := h.dims_eq
  have hm := (h.sound hs).mapM_get
  rw [hd,mapM_congr fun index hi => h.get_eq hs (Shape.mem_indices.1 hi),h.2] at hm
  rw [(h.sound hs).toList_eq,hm]

/-- The last of `d` slabs of a block along an axis has the extents of another block and its values in order. -/
def EndsIn (axis d : Nat) (b r : Block α) : Prop :=
  ∃ last xs, b.snapshot.view.slabAlong axis (d-1) = .ok last ∧ last.dims = r.dims ∧
    (b.snapshot.through last).toList = .ok xs ∧ r.snapshot.toList = .ok xs

theorem Tabulates.endsIn {axis d : Nat} {r : Block α} (hb : Tabulates s g (.ok b)) (hs : s.span ≤ 2^50)
    (hd : s[axis]? = some d) (hpos : 0 < d)
    (hr : Tabulates (s.eraseIdx axis) (fun index => g (index.insertIdx axis (d-1))) (.ok r)) : EndsIn axis d b r := by
  have hspan := Nat.le_trans (Shape.span_eraseIdx_le s axis) hs
  have hdims : b.snapshot.dims = s := hb.dims_eq
  have hsound := hb.sound hs
  have hd' : b.snapshot.view.layout.dims[axis]? = some d := by
    have hl : b.snapshot.view.layout.dims = s := hb.dims_eq
    rw [hl,hd]
  obtain ⟨a,ha,hae⟩ := Layout.exists_axis hd'
  have hi : d-1 < a.extent := by omega
  have hlast : (b.snapshot.view.slabbed axis (d-1)).dims = s.eraseIdx axis := by
    rw [View.dims_slabbed]
    exact congrArg (·.eraseIdx axis) hdims
  refine ⟨_,r.data,View.Near.slabAlong_eq hsound.toNear ha hi,by rw [hlast,hr.dims_eq],?_,hr.toList_eq hspan⟩
  have hslab := hsound.through_slabbed ha hi
  have hget : ∀ index ∈ Shape.indices (s.eraseIdx axis),
      (b.snapshot.through (b.snapshot.view.slabbed axis (d-1))).get index = g (index.insertIdx axis (d-1)) := by
    intro index hx
    have hx := Shape.mem_indices.1 hx
    have hx' : Shape.Contains (b.snapshot.dims.eraseIdx axis) index := by rwa [hdims]
    rw [hslab.get_eq (by rw [← hlast] at hx; exact hx),hsound.valueAt_slabbed ha hi hx',
      ← hb.get_eq hs (Shape.Contains.insertIdx hd hx (by omega)),
      hsound.get_eq (by rw [hdims]; exact Shape.Contains.insertIdx hd hx (by omega))]
  have hm := hslab.mapM_get
  have hdl : (b.snapshot.through (b.snapshot.view.slabbed axis (d-1))).dims = s.eraseIdx axis := hlast
  rw [hdl,mapM_congr hget,hr.2] at hm
  rw [hslab.toList_eq,hm]

end Block

end Strided
