import Mathlib.Data.List.Nodup
import Mathlib.Logic.Function.Iterate
import Strided.Proofs.Values
import Strided.Proofs.Writes

set_option autoImplicit false

/-!
What writes through a view leave behind. As long as no source reads a cell that has been written, the heap is left as
if all values had been computed before the first of them was stored; a source that reads from another buffer never
does. Where each cell is read just before it is written, a cell that comes up again is written again.
-/
namespace Strided

variable {α β γ ι : Type}

namespace Heap

theorem length_put (h : Heap α) (buffer cell : Nat) (x : α) (b : Nat) : (h.put buffer cell x).length b = h.length b :=
  (h.sameBut_put buffer cell x).length_eq b

theorem read_congr {h h' : Heap α} {buffer : Nat} (hc : h'.cells buffer = h.cells buffer) (cell : Nat) :
    h'.read buffer cell = h.read buffer cell := by
  rw [read,read,length,length,hc]

theorem read_put {h : Heap α} {buffer cell : Nat} (hl : cell < h.length buffer) (x : α) :
    (h.put buffer cell x).read buffer cell = .ok x := by
  rw [length] at hl
  simp [read,cells_put,hl]

end Heap

namespace Update

@[simp] theorem ofResult_ok_bind (x : β) (f : β → Update α γ) : (ofResult (.ok x) >>= f) = f x := by
  funext h
  rw [bind_apply]
  rfl

@[simp] theorem ofResult_error_bind (e : Fault) (f : β → Update α γ) :
    (ofResult (.error e) >>= f) = ofResult (.error e) := by
  funext h
  rw [bind_apply]
  rfl

theorem bind_of_ok {u : Update α β} {h h' : Heap α} {x : β} (hu : u h = (.ok x,h')) (f : β → Update α γ) :
    (u >>= f) h = f x h' := by
  rw [bind_apply,hu]

theorem write_of_lt {buffer cell : Nat} {h : Heap α} (hc : cell < h.length buffer) (x : α) :
    write buffer cell x h = (.ok (),h.put buffer cell x) := by
  rw [write,if_pos hc]

/-- On every heap that differs from a given one in a given buffer only, the value is the same. -/
def Yields (u : Update α β) (buffer : Nat) (h : Heap α) (x : β) : Prop :=
  ∀ h', h.SameBut buffer h' → u h' = (.ok x,h')

variable {buffer : Nat} {h : Heap α}

theorem yields_ofResult (x : β) : Yields (ofResult (.ok x)) buffer h x := fun _ _ => rfl

theorem Yields.bind {u : Update α β} {f : β → Update α γ} {x : β} {y : γ} (hu : u.Yields buffer h x)
    (hf : (f x).Yields buffer h y) : (u >>= f).Yields buffer h y := by
  intro h' hs
  rw [bind_of_ok (hu h' hs),hf h' hs]

theorem yields_read {source cell : Nat} (hb : source ≠ buffer) {x : α} (hr : h.read source cell = .ok x) :
    (read source cell).Yields buffer h x := by
  intro h' hs
  rw [read,Heap.read_congr (hs.cells_eq source hb),hr]

end Update

namespace Heap

/-- Values stored one after the other, each in the cell that belongs to it. A value may depend on what has been stored
before. -/
def writeEach (h : Heap α) (buffer : Nat) (cell : ι → Nat) (x : Heap α → ι → α) (places : List ι) : Heap α :=
  places.foldl (fun h i => h.put buffer (cell i) (x h i)) h

theorem sameBut_writeEach (h : Heap α) (buffer : Nat) (cell : ι → Nat) (x : Heap α → ι → α) (places : List ι) :
    h.SameBut buffer (h.writeEach buffer cell x places) := by
  induction places generalizing h with
  | nil => exact SameBut.refl buffer h
  | cons i places ih => exact (h.sameBut_put buffer (cell i) (x h i)).trans (ih _)

def putEach (h : Heap α) (buffer : Nat) (cell : ι → Nat) (x : ι → α) (places : List ι) : Heap α :=
  h.writeEach buffer cell (fun _ => x) places

theorem sameBut_putEach (h : Heap α) (buffer : Nat) (cell : ι → Nat) (x : ι → α) (places : List ι) :
    h.SameBut buffer (h.putEach buffer cell x places) := h.sameBut_writeEach buffer cell (fun _ => x) places

theorem putEach_cons (h : Heap α) (buffer : Nat) (cell : ι → Nat) (x : ι → α) (i : ι) (places : List ι) :
    h.putEach buffer cell x (i :: places) = (h.put buffer (cell i) (x i)).putEach buffer cell x places := rfl

theorem putEach_congr {h : Heap α} {buffer : Nat} {cell cell' : ι → Nat} {x x' : ι → α} {places : List ι}
    (hc : ∀ i ∈ places, cell i = cell' i) (hx : ∀ i ∈ places, x i = x' i) :
    h.putEach buffer cell x places = h.putEach buffer cell' x' places := by
  induction places generalizing h with
  | nil => rfl
  | cons i places ih =>
    rw [putEach_cons,putEach_cons,hc i (by simp),hx i (by simp),ih (fun j hj => hc j (by simp [hj]))]
    exact fun j hj => hx j (by simp [hj])

/-- A cell has the value that is stored in it, or that it had, if there is but one such value. -/
theorem cells_putEach {h : Heap α} {buffer c : Nat} {cell : ι → Nat} {x : ι → α} {y : α} {places : List ι}
    (hl : c < h.length buffer) (hx : ∀ i ∈ places, cell i = c → x i = y)
    (hc : c ∈ places.map cell ∨ (h.cells buffer)[c]? = some y) :
    ((h.putEach buffer cell x places).cells buffer)[c]? = some y := by
  -- As the run goes on, the cell is still to come up or already has the value.
  induction places generalizing h with
  | nil => exact hc.resolve_left (by simp)
  | cons i places ih =>
    rw [putEach_cons]
    refine ih (by rwa [length_put]) (fun j hj => hx j (by simp [hj])) ?_
    rw [cells_put,if_pos rfl]
    by_cases hi : cell i = c
    · subst hi
      rw [hx i (by simp) rfl]
      exact Or.inr (Array.getElem?_setIfInBounds_self_of_lt hl)
    · rw [Array.getElem?_setIfInBounds_ne hi]
      exact hc.imp_left fun hm => (List.mem_cons.1 hm).resolve_left (Ne.symm hi)

theorem getElem?_cells_putEach {h : Heap α} {buffer c : Nat} {cell : ι → Nat} (x : ι → α) {places : List ι}
    (hc : ∀ i ∈ places, cell i ≠ c) :
    ((h.putEach buffer cell x places).cells buffer)[c]? = (h.cells buffer)[c]? := by
  induction places generalizing h with
  | nil => rfl
  | cons i places ih =>
    rw [putEach_cons,ih fun j hj => hc j (by simp [hj]),cells_put,if_pos rfl]
    exact Array.getElem?_setIfInBounds_ne (hc i (by simp))

def mapEach [Element α] (h : Heap α) (buffer : Nat) (cell : ι → Nat) (f : α → α) (places : List ι) : Heap α :=
  h.writeEach buffer cell (fun h i => f (h.valueIn buffer (cell i))) places

theorem sameBut_mapEach [Element α] (h : Heap α) (buffer : Nat) (cell : ι → Nat) (f : α → α) (places : List ι) :
    h.SameBut buffer (h.mapEach buffer cell f places) :=
  h.sameBut_writeEach buffer cell (fun h i => f (h.valueIn buffer (cell i))) places

theorem mapEach_cons [Element α] (h : Heap α) (buffer : Nat) (cell : ι → Nat) (f : α → α) (i : ι) (places : List ι) :
    h.mapEach buffer cell f (i :: places) =
      (h.put buffer (cell i) (f (h.valueIn buffer (cell i)))).mapEach buffer cell f places := rfl

theorem valueIn_put [Element α] {h : Heap α} {buffer cell : Nat} (hl : cell < h.length buffer) (x : α) (c : Nat) :
    (h.put buffer cell x).valueIn buffer c = if c = cell then x else h.valueIn buffer c := by
  rw [length] at hl
  by_cases hc : c = cell
  · subst hc
    simp [valueIn,cells_put,hl]
  · simp [valueIn,cells_put,hc,Array.getElem?_setIfInBounds_ne (Ne.symm hc)]

theorem valueIn_mapEach [Element α] {h : Heap α} {buffer : Nat} {cell : ι → Nat} {f : α → α} {places : List ι}
    (hl : ∀ i ∈ places, cell i < h.length buffer) (c : Nat) :
    (h.mapEach buffer cell f places).valueIn buffer c = f^[(places.map cell).count c] (h.valueIn buffer c) := by
  induction places generalizing h with
  | nil => rfl
  | cons i places ih =>
    have hrest : ∀ j ∈ places, cell j < (h.put buffer (cell i) (f (h.valueIn buffer (cell i)))).length buffer :=
      fun j hj => by rw [length_put]; exact hl j (by simp [hj])
    rw [mapEach_cons,ih hrest,valueIn_put (hl i (by simp))]
    by_cases hc : c = cell i
    · subst hc
      simp [Function.iterate_succ_apply]
    · simp [hc,List.count_cons_of_ne (Ne.symm hc)]

theorem getElem?_cells [Element α] {h : Heap α} {buffer c : Nat} (hl : c < h.length buffer) :
    (h.cells buffer)[c]? = some (h.valueIn buffer c) := by
  rw [length] at hl
  simp [valueIn,hl]

theorem valueIn_putEach [Element α] {h : Heap α} {buffer c : Nat} {cell : ι → Nat} {f : α → α} {places : List ι}
    (hl : c < h.length buffer) :
    (h.putEach buffer cell (fun i => f (h.valueIn buffer (cell i))) places).valueIn buffer c =
      if c ∈ places.map cell then f (h.valueIn buffer c) else h.valueIn buffer c := by
  by_cases hm : c ∈ places.map cell
  · have hc := cells_putEach (x := fun i => f (h.valueIn buffer (cell i))) hl (fun i _ hi => by rw [hi]) (Or.inl hm)
    rw [valueIn,hc,if_pos hm,Option.getD_some]
  · have hne : ∀ i ∈ places, cell i = c → f (h.valueIn buffer (cell i)) = h.valueIn buffer c :=
      fun i hi he => absurd (List.mem_map.2 ⟨i,hi,he⟩) hm
    have hc := cells_putEach hl hne (Or.inr (getElem?_cells hl))
    rw [valueIn,hc,if_neg hm,Option.getD_some]

/-- Mapping cell by cell comes to the same as computing all values first exactly if, for each cell that comes up, going
through `f` as often as it does comes to the same as going through it once. -/
theorem mapEach_eq_putEach_iff [Element α] {h : Heap α} {buffer : Nat} {cell : ι → Nat} {f : α → α} {places : List ι}
    (hl : ∀ i ∈ places, cell i < h.length buffer) :
    h.mapEach buffer cell f places = h.putEach buffer cell (fun i => f (h.valueIn buffer (cell i))) places ↔
      ∀ i ∈ places, f^[(places.map cell).count (cell i)] (h.valueIn buffer (cell i)) =
        f (h.valueIn buffer (cell i)) := by
  constructor
  · intro he i hi
    have hv := congrArg (fun h' => h'.valueIn buffer (cell i)) he
    simp only [valueIn_mapEach hl,valueIn_putEach (hl i hi),List.mem_map_of_mem hi,↓reduceIte] at hv
    exact hv
  · intro hf
    have h1 := h.sameBut_mapEach buffer cell f places
    have h2 := h.sameBut_putEach buffer cell (fun i => f (h.valueIn buffer (cell i))) places
    refine h1.eq_of_cells_eq h2 (Array.ext_getElem? fun c => ?_)
    by_cases hc : c < h.length buffer
    · rw [getElem?_cells (by rwa [h1.length_eq]),getElem?_cells (by rwa [h2.length_eq]),valueIn_mapEach hl,
        valueIn_putEach hc]
      by_cases hm : c ∈ places.map cell
      · obtain ⟨i,hi,rfl⟩ := List.mem_map.1 hm
        rw [if_pos hm,hf i hi]
      · rw [if_neg hm,List.count_eq_zero_of_not_mem hm,Function.iterate_zero_apply]
    · have hle1 := h1.length_eq buffer
      have hle2 := h2.length_eq buffer
      rw [length] at hle1 hle2
      rw [Array.getElem?_eq_none (by omega),Array.getElem?_eq_none (by omega)]

/-- The values stored at the addresses of a view in row-major order of their indices; a later value takes the place of
an earlier one. -/
def storeAll (h : Heap α) (dest : View) (x : List Nat → α) : Heap α :=
  h.putEach dest.buffer (fun index => (dest.address index).toNat) x dest.dims.indices

end Heap

namespace View

open Update

/-- Sources that yield their values whatever has been written: the run stores these values in order. -/
theorem perform_putEach {buffer : Nat} {cell : ι → Nat} {source : ι → Update α α} {x : ι → α} {places : List ι}
    {h : Heap α} (hc : ∀ i ∈ places, cell i < h.length buffer) (hs : ∀ i ∈ places, (source i).Yields buffer h (x i)) :
    perform (Steps.ofList (places.map fun i => source i >>= write buffer (cell i))) h =
      (.ok (),h.putEach buffer cell x places) := by
  -- What is written so far is in the buffer, and no source looks there.
  induction places generalizing h with
  | nil => rfl
  | cons i places ih =>
    have hp := h.sameBut_put buffer (cell i) (x i)
    have hw : (source i >>= write buffer (cell i)) h = (.ok (),h.put buffer (cell i) (x i)) := by
      rw [bind_of_ok (hs i (by simp) h (Heap.SameBut.refl buffer h)),write_of_lt (hc i (by simp))]
    have hrest := ih (h := h.put buffer (cell i) (x i)) (fun j hj => by rw [Heap.length_put]; exact hc j (by simp [hj]))
      fun j hj h' hs' => hs j (by simp [hj]) h' (hp.trans hs')
    simp only [List.map_cons,Steps.ofList,perform,hw,hrest,Heap.putEach_cons]

theorem perform_mapEach [Element α] {buffer : Nat} {cell : ι → Nat} {f : α → α} {places : List ι} {h : Heap α}
    (hl : ∀ i ∈ places, cell i < h.length buffer) :
    perform (Steps.ofList (places.map fun i =>
      (read buffer (cell i) >>= fun x => ofResult (.ok (f x))) >>= write buffer (cell i))) h =
      (.ok (),h.mapEach buffer cell f places) := by
  induction places generalizing h with
  | nil => rfl
  | cons i places ih =>
    have hi := hl i (by simp)
    have hr : read buffer (cell i) h = (.ok (h.valueIn buffer (cell i)),h) := by
      show (h.read buffer (cell i),h) = _
      rw [Heap.read_eq_ok hi Element.blank]
      rfl
    have hw : ((read buffer (cell i) >>= fun x => ofResult (.ok (f x))) >>= write buffer (cell i)) h =
        (.ok (),h.put buffer (cell i) (f (h.valueIn buffer (cell i)))) := by
      rw [bind_of_ok ((bind_of_ok hr _).trans rfl),write_of_lt hi]
    have hrest := ih (h := h.put buffer (cell i) (f (h.valueIn buffer (cell i)))) fun j hj => by
      rw [Heap.length_put]
      exact hl j (by simp [hj])
    simp only [List.map_cons,Steps.ofList,perform,hw,hrest,Heap.mapEach_cons]

variable {h : Heap α} {dest source : View} {x : List Nat → α}

theorem Near.set_eq (hd : dest.Near (h.length dest.buffer)) {index : List Nat} (hi : dest.dims.Contains index) (y : α) :
    dest.set index y h = (.ok (),h.put dest.buffer (dest.cell index) y) := by
  rw [set,hd.cellOf_eq hi,ofResult_ok_bind,write_of_lt (hd.cell_lt hi)]

theorem WellFormed.putEach_cell {length : Nat} (hd : dest.WellFormed length) (h : Heap α) (x : List Nat → α) :
    h.putEach dest.buffer dest.cell x dest.dims.indices = h.storeAll dest x := by
  refine Heap.putEach_congr (fun index hi => ?_) fun _ _ => rfl
  have := hd.cell_eq (Shape.mem_indices.1 hi)
  omega

theorem Drains.assignEach_eq_perform (hd : dest.Drains) (hn : dest.size = .ok dest.dims.volume)
    (work : List Nat → Update α α) :
    dest.assignEach (Walk.ofList (dest.dims.indices.map work)) =
      perform (Steps.ofList (dest.dims.indices.map fun index =>
        work index >>= write dest.buffer (dest.cell index))) := by
  obtain ⟨o,ho,hw⟩ := hd.walk_offsets
  have hl : ¬ (Walk.ofList (dest.dims.indices.map work)).length ≠ dest.dims.volume := by simp
  rw [assignEach,hn,ofResult_ok_bind,if_neg hl,ho,ofResult_ok_bind,hw,Walk.zipWith_ofList_ok]
  rfl

theorem Drains.assign_eq (hd : dest.Drains) (hn : dest.size = .ok dest.dims.volume)
    (hc : ∀ index ∈ dest.dims.indices, dest.cell index < h.length dest.buffer) :
    dest.assign (dest.dims.indices.map x) h = (.ok (),h.putEach dest.buffer dest.cell x dest.dims.indices) := by
  rw [assign,yields,Walk.map_ofList_ok,List.map_map]
  exact (congrFun (hd.assignEach_eq_perform hn _) h).trans
    (perform_putEach hc fun index _ => yields_ofResult (x index))

theorem Sound.assign_eq (hd : dest.Sound (h.length dest.buffer)) :
    dest.assign (dest.dims.indices.map x) h = (.ok (),h.putEach dest.buffer dest.cell x dest.dims.indices) :=
  hd.offsets_answers.assign_eq hd.size_eq hd.cells_lt

theorem WellFormed.assignEach_eq_perform {length : Nat} (hd : dest.WellFormed length) (work : List Nat → Update α α) :
    dest.assignEach (Walk.ofList (dest.dims.indices.map work)) =
      perform (Steps.ofList (dest.dims.indices.map fun index =>
        work index >>= write dest.buffer (dest.cell index))) :=
  hd.sound.offsets_answers.assignEach_eq_perform hd.sound.size_eq work

theorem WellFormed.assignEach_eq (hd : dest.WellFormed (h.length dest.buffer)) {work : List Nat → Update α α}
    (hs : ∀ index, dest.dims.Contains index → (work index).Yields dest.buffer h (x index)) :
    dest.assignEach (Walk.ofList (dest.dims.indices.map work)) h = (.ok (),h.storeAll dest x) := by
  rw [hd.assignEach_eq_perform,← hd.putEach_cell]
  exact perform_putEach hd.sound.cells_lt fun index hi => hs index (Shape.mem_indices.1 hi)

theorem WellFormed.assign_eq (hd : dest.WellFormed (h.length dest.buffer)) :
    dest.assign (dest.dims.indices.map x) h = (.ok (),h.storeAll dest x) := by
  rw [hd.sound.assign_eq,hd.putEach_cell]

end View

end Strided
