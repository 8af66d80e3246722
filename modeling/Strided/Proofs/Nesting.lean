import Mathlib.Data.List.Induction
import Strided.Proofs.Acceptance
import Strided.Proofs.Placed
import Strided.Session.Fresh

set_option autoImplicit false

/-!
Nested sequences by the paths into them. A path takes an item at every level; where it ends at a list there is a length
to compare, and where it ends at a scalar it is the index of that scalar. The extents are read along the path of first
items alone, so it is the check of all other lists that makes the values of a sequence the values of its array.
-/
namespace Strided

variable {α β γ : Type}

theorem forM_cases (f : β → Result Unit) (xs : List β) :
    (xs.forM f = .ok () ∧ ∀ x ∈ xs, f x = .ok ()) ∨
      ∃ (i : Nat) (x : β) (cause : Fault), xs[i]? = some x ∧ f x = .error cause ∧ xs.forM f = .error cause ∧
        ∀ (j : Nat) (y : β), j < i → xs[j]? = some y → f y = .ok () := by
  induction xs with
  | nil => exact Or.inl ⟨rfl,by simp⟩
  | cons x xs ih =>
    have hcons : (x :: xs).forM f = f x >>= fun _ => xs.forM f := rfl
    rw [hcons]
    cases hx : f x with
    | error cause => exact Or.inr ⟨0,x,cause,rfl,hx,rfl,fun j y hj => by omega⟩
    | ok u =>
      rw [ok_bind]
      rcases ih with ⟨hok,hall⟩ | ⟨i,y,cause,hi,hy,hc,hbefore⟩
      · refine Or.inl ⟨hok,fun y hy => ?_⟩
        rcases List.mem_cons.1 hy with rfl | hy
        · exact hx
        · exact hall y hy
      · refine Or.inr ⟨i+1,y,cause,hi,hy,hc,fun j z hj hz => ?_⟩
        cases j with
        | zero =>
          obtain rfl := Option.some.inj hz
          exact hx
        | succ j => exact hbefore j z (by omega) hz

theorem flatMap_range {xs : List β} {f : Nat → List γ} {g : β → List γ}
    (h : ∀ (i : Nat) (x : β), xs[i]? = some x → f i = g x) : (List.range xs.length).flatMap f = xs.flatMap g := by
  induction xs generalizing f with
  | nil => rfl
  | cons x xs ih =>
    rw [List.length_cons,List.range_succ_eq_map,List.flatMap_cons,List.flatMap_map,List.flatMap_cons,h 0 x rfl,
      ih fun i y hy => h (i+1) y hy]

namespace Nested

def items {n : Nat} (xs : Nested α (n+1)) : List (Nested α n) := xs

def lengthAt : (n : Nat) → Nested α n → List Nat → Option Nat
  | 0, _, _ => none
  | _+1, xs, [] => some xs.items.length
  | n+1, xs, i :: path => xs.items[i]?.bind fun x => lengthAt n x path

def scalarAt : (n : Nat) → Nested α n → List Nat → Option α
  | 0, x, [] => some x
  | n+1, xs, i :: index => xs.items[i]?.bind fun x => scalarAt n x index
  | _, _, _ => none

/-- The length of the list that is the first item at every level above; 0 where there is no such list. -/
def leftmost (n : Nat) (x : Nested α n) (level : Nat) : Nat := (lengthAt n x (List.replicate level 0)).getD 0

def Rectangular (n : Nat) (x : Nested α n) : Prop :=
  ∀ (p q : List Nat) (l m : Nat), p.length = q.length → lengthAt n x p = some l → lengthAt n x q = some m → l = m

/-- At the path is a list that is not as long as the leftmost one of its level. -/
def Uneven (n : Nat) (x : Nested α n) (path : List Nat) : Prop :=
  ∃ l, lengthAt n x path = some l ∧ l ≠ leftmost n x path.length

/-- The first uneven list in pre-order: paths are compared step by step, and a path comes before those that lead on
from it. -/
def FirstUneven (n : Nat) (x : Nested α n) (path : List Nat) : Prop :=
  Uneven n x path ∧ ∀ other, Uneven n x other → ¬ other < path

def itemCount : (n : Nat) → Nested α n → Nat → Nat
  | _, _, 0 => 1
  | 0, _, _+1 => 0
  | n+1, xs, k+1 => (xs.items.map fun x => itemCount n x k).sum

/-- What a machine can hold at once: the items of every level can be counted, and the scalars have a place in memory,
`width` bytes each. -/
structure Stored (width n : Nat) (x : Nested α n) : Prop where
  width_pos : 0 < width
  items_le : ∀ k, itemCount n x k ≤ Address.maxUnsigned
  bytes_le : width*(leaves n x).length ≤ Capacity.maxBytes

variable {n : Nat}

theorem lengthAt_cons_eq_some {xs : Nested α (n+1)} {i : Nat} {path : List Nat} {l : Nat} :
    lengthAt (n+1) xs (i :: path) = some l ↔
      ∃ x, xs.items[i]? = some x ∧ lengthAt n x path = some l := by
  simp [lengthAt,Option.bind_eq_some_iff]

theorem length_lt_of_lengthAt {x : Nested α n} {path : List Nat} {l : Nat} (h : lengthAt n x path = some l) :
    path.length < n := by
  induction n generalizing path with
  | zero => cases h
  | succ n ih =>
    cases path with
    | nil => exact Nat.succ_pos n
    | cons i path =>
      obtain ⟨y,-,hy⟩ := lengthAt_cons_eq_some.1 h
      exact Nat.succ_lt_succ (ih hy)

theorem exists_lengthAt_append {x : Nested α n} {path : List Nat} {i : Nat} :
    (∃ l, lengthAt n x (path++[i]) = some l) ↔ path.length+1 < n ∧ ∃ l, lengthAt n x path = some l ∧ i < l := by
  induction n generalizing path with
  | zero => simp [lengthAt]
  | succ n ih =>
    cases path with
    | nil =>
      cases n with
      | zero => simp [lengthAt]
      | succ n => simp [lengthAt,Option.bind_eq_some_iff,← Option.isSome_iff_exists]
    | cons j path =>
      simp only [List.cons_append,lengthAt_cons_eq_some,List.length_cons,Nat.add_lt_add_iff_right]
      constructor
      · rintro ⟨l,y,hy,hl⟩
        obtain ⟨hlt,m,hm,hi⟩ := ih.1 ⟨l,hl⟩
        exact ⟨hlt,m,⟨y,hy,hm⟩,hi⟩
      · rintro ⟨hlt,m,⟨y,hy,hm⟩,hi⟩
        obtain ⟨l,hl⟩ := ih.2 ⟨hlt,m,hm,hi⟩
        exact ⟨l,y,hy,hl⟩

theorem Rectangular.exists_leftmost {x : Nested α n} (h : Rectangular n x) {path : List Nat} {l : Nat}
    (hl : lengthAt n x path = some l) : ∃ m, lengthAt n x (List.replicate path.length 0) = some m := by
  induction path using List.reverseRecOn generalizing l with
  | nil => exact ⟨l,hl⟩
  | append_singleton path i ih =>
    obtain ⟨hlt,k,hk,hi⟩ := exists_lengthAt_append.1 ⟨l,hl⟩
    obtain ⟨m,hm⟩ := ih hk
    have hkm : k = m := h path (List.replicate path.length 0) k m (by simp) hk hm
    rw [List.length_append,List.length_singleton,List.replicate_succ']
    exact exists_lengthAt_append.2 ⟨by simpa using hlt,m,hm,by omega⟩

theorem rectangular_iff {x : Nested α n} : Rectangular n x ↔ ∀ path, ¬ Uneven n x path := by
  constructor
  · rintro h path ⟨l,hl,hne⟩
    obtain ⟨m,hm⟩ := h.exists_leftmost hl
    rw [leftmost,hm] at hne
    exact hne (h path _ l m (by simp) hl hm)
  · intro h p q l m hpq hp hq
    have hl : l = leftmost n x p.length := by_contra fun hne => h p ⟨l,hp,hne⟩
    have hm : m = leftmost n x q.length := by_contra fun hne => h q ⟨m,hq,hne⟩
    rw [hl,hm,hpq]

def Misfits (n : Nat) (x : Nested α n) (dims : Shape) (path : List Nat) : Prop :=
  ∃ l, lengthAt n x path = some l ∧ dims[path.length]? ≠ some l

theorem misfits_nil {xs : Nested α (n+1)} {dims : Shape} :
    Misfits (n+1) xs dims [] ↔ dims.head? ≠ some xs.items.length := by
  simp [Misfits,lengthAt,List.head?_eq_getElem?]

theorem misfits_cons {xs : Nested α (n+1)} {dims : Shape} {i : Nat} {path : List Nat} :
    Misfits (n+1) xs dims (i :: path) ↔ ∃ x, xs.items[i]? = some x ∧ Misfits n x dims.tail path := by
  simp only [Misfits,lengthAt_cons_eq_some,List.length_cons,List.getElem?_tail]
  constructor
  · rintro ⟨l,⟨x,hx,hl⟩,hd⟩
    exact ⟨x,hx,l,hl,hd⟩
  · rintro ⟨x,hx,l,hl,hd⟩
    exact ⟨l,⟨x,hx,hl⟩,hd⟩

/-- The check passes if no list misfits, and otherwise names the level of the first that does. -/
theorem checkShape_cases (n : Nat) (x : Nested α n) (dims : Shape) (depth : Nat) :
    (checkShape n x dims depth = .ok () ∧ ∀ path, ¬ Misfits n x dims path) ∨
      ∃ path, checkShape n x dims depth = refuse (.raggedSequence (depth+path.length)) ∧ Misfits n x dims path ∧
        ∀ other, Misfits n x dims other → ¬ other < path := by
  induction n generalizing dims depth with
  | zero => exact Or.inl ⟨rfl,by simp [Misfits,lengthAt]⟩
  | succ n ih =>
    by_cases hd : dims.head? ≠ some x.items.length
    · exact Or.inr ⟨[],if_pos hd,misfits_nil.2 hd,fun other _ => List.not_lt_nil other⟩
    have hnil : ¬ Misfits (n+1) x dims [] := fun h => hd (misfits_nil.1 h)
    have hitem (y : Nested α n) (hy : checkShape n y dims.tail (depth+1) = .ok ()) (path : List Nat) :
        ¬ Misfits n y dims.tail path := by
      rcases ih y dims.tail (depth+1) with ⟨-,hfit⟩ | ⟨_,he,-⟩
      · exact hfit path
      · rw [he] at hy
        cases hy
    have hcheck : checkShape (n+1) x dims depth = x.items.forM fun y => checkShape n y dims.tail (depth+1) := if_neg hd
    rw [hcheck]
    rcases forM_cases (fun y => checkShape n y dims.tail (depth+1)) x.items with
      ⟨hok,hall⟩ | ⟨i,y,cause,hi,hy,hc,hbefore⟩
    · refine Or.inl ⟨hok,fun path hm => ?_⟩
      cases path with
      | nil => exact hnil hm
      | cons i path =>
        obtain ⟨y,hi,hm⟩ := misfits_cons.1 hm
        exact hitem y (hall y (List.mem_of_getElem? hi)) path hm
    · rcases ih y dims.tail (depth+1) with ⟨hok,-⟩ | ⟨path,he,hm,hfirst⟩
      · rw [hok] at hy
        cases hy
      rw [he] at hy
      refine Or.inr ⟨i :: path,?_,misfits_cons.2 ⟨y,hi,hm⟩,fun other hother hlt => ?_⟩
      · rw [hc,← hy,List.length_cons,Nat.add_assoc,Nat.add_comm 1]
      -- A misfit before this one is in an earlier item, which has passed, or earlier in the same item.
      cases other with
      | nil => exact hnil hother
      | cons j other =>
        obtain ⟨z,hj,hz⟩ := misfits_cons.1 hother
        rcases List.cons_lt_cons_iff.1 hlt with hji | ⟨rfl,hrest⟩
        · exact hitem z (hbefore j z hji hj) other hz
        · obtain rfl := Option.some.inj (hi.symm.trans hj)
          exact hfirst other hz hrest

theorem leadingShape_of_nil {xs : Nested α (n+1)} (h : xs.items = []) :
    leadingShape (n+1) xs = List.replicate (n+1) 0 := by
  obtain rfl : xs = [] := h
  rfl

theorem leadingShape_of_cons {xs : Nested α (n+1)} {y : Nested α n} {ys : List (Nested α n)} (h : xs.items = y :: ys) :
    leadingShape (n+1) xs = (ys.length+1) :: leadingShape n y := by
  obtain rfl : xs = y :: ys := h
  rfl

theorem length_leadingShape (n : Nat) (x : Nested α n) : (leadingShape n x).length = n := by
  induction n with
  | zero => rfl
  | succ n ih =>
    cases h : x.items with
    | nil => rw [leadingShape_of_nil h,List.length_replicate]
    | cons y ys => rw [leadingShape_of_cons h,List.length_cons,ih y]

theorem getElem?_leadingShape {x : Nested α n} {k : Nat} (hk : k < n) :
    (leadingShape n x)[k]? = some (leftmost n x k) := by
  induction n generalizing k with
  | zero => omega
  | succ n ih =>
    cases h : x.items with
    | nil =>
      rw [leadingShape_of_nil h,List.getElem?_replicate_of_lt hk]
      cases k <;> simp [leftmost,lengthAt,List.replicate_succ,h]
    | cons y ys =>
      rw [leadingShape_of_cons h]
      cases k with
      | zero => simp [leftmost,lengthAt,h]
      | succ k =>
        rw [List.getElem?_cons_succ,ih (Nat.lt_of_succ_lt_succ hk)]
        simp [leftmost,lengthAt,List.replicate_succ,h]

theorem misfits_leadingShape {x : Nested α n} {path : List Nat} :
    Misfits n x (leadingShape n x) path ↔ Uneven n x path := by
  constructor
  · rintro ⟨l,hl,hd⟩
    rw [getElem?_leadingShape (length_lt_of_lengthAt hl)] at hd
    exact ⟨l,hl,fun he => hd (congrArg some he.symm)⟩
  · rintro ⟨l,hl,hd⟩
    refine ⟨l,hl,?_⟩
    rw [getElem?_leadingShape (length_lt_of_lengthAt hl)]
    exact fun he => hd (Option.some.inj he).symm

theorem shape_cases (n : Nat) (x : Nested α n) :
    (shape n x = .ok (leadingShape n x) ∧ Rectangular n x) ∨
      ∃ path, shape n x = refuse (.raggedSequence path.length) ∧ FirstUneven n x path := by
  rcases checkShape_cases n x (leadingShape n x) 0 with ⟨hok,hfit⟩ | ⟨path,he,hm,hfirst⟩
  · refine Or.inl ⟨by rw [shape,hok,ok_bind],rectangular_iff.2 fun path hu => ?_⟩
    exact hfit path (misfits_leadingShape.2 hu)
  · refine Or.inr ⟨path,?_,misfits_leadingShape.1 hm,fun other hu => hfirst other (misfits_leadingShape.2 hu)⟩
    rw [shape,he,Nat.zero_add]
    rfl

theorem FirstUneven.length_eq {x : Nested α n} {p q : List Nat} (hp : FirstUneven n x p) (hq : FirstUneven n x q) :
    p.length = q.length :=
  congrArg List.length (List.le_antisymm (List.not_lt.1 (hp.2 q hq.1)) (List.not_lt.1 (hq.2 p hp.1)))

theorem exists_inner_dims {xs : Nested α (n+1)} {dims : Shape} (hl : dims.length = n+1)
    (h : ∀ path, ¬ Misfits (n+1) xs dims path) :
    ∃ s : Shape, dims = xs.items.length :: s ∧ s.length = n ∧ ∀ x ∈ xs.items, ∀ path, ¬ Misfits n x s path := by
  cases dims with
  | nil => cases hl
  | cons d s =>
    have hd : d = xs.items.length := by simpa using mt misfits_nil.2 (h [])
    refine ⟨s,by rw [hd],Nat.succ.inj hl,fun x hx path hm => ?_⟩
    obtain ⟨i,hi⟩ := List.mem_iff_getElem?.1 hx
    exact h (i :: path) (misfits_cons.2 ⟨x,hi,hm⟩)

theorem map_leaves {x : Nested α n} {dims : Shape} (hl : dims.length = n) (h : ∀ path, ¬ Misfits n x dims path) :
    (leaves n x).map some = dims.indices.map (scalarAt n x) := by
  induction n generalizing dims with
  | zero =>
    obtain rfl := List.eq_nil_of_length_eq_zero hl
    rfl
  | succ n ih =>
    obtain ⟨s,rfl,hs,hfit⟩ := exists_inner_dims hl h
    have hitem (i : Nat) (y : Nested α n) (hi : x.items[i]? = some y) :
        (s.indices.map (i :: ·)).map (scalarAt (n+1) x) = (leaves n y).map some := by
      rw [ih hs (hfit y (List.mem_of_getElem? hi)),List.map_map]
      refine List.map_congr_left fun index _ => ?_
      simp [scalarAt,hi]
    have hleaves : leaves (n+1) x = x.items.flatMap (leaves n) := rfl
    rw [hleaves,Shape.indices,List.map_flatMap,List.map_flatMap,flatMap_range hitem]

theorem itemCount_eq {x : Nested α n} {dims : Shape} (hl : dims.length = n) (h : ∀ path, ¬ Misfits n x dims path)
    {k : Nat} (hk : k ≤ n) : itemCount n x k = Shape.volume (dims.take k) := by
  induction n generalizing dims k with
  | zero =>
    obtain rfl := Nat.le_zero.1 hk
    rfl
  | succ n ih =>
    cases k with
    | zero => rfl
    | succ k =>
      obtain ⟨s,rfl,hs,hfit⟩ := exists_inner_dims hl h
      have hitem : ∀ y ∈ x.items, itemCount n y k = Shape.volume (s.take k) := fun y hy =>
        ih hs (hfit y hy) (Nat.le_of_succ_le_succ hk)
      rw [itemCount,List.map_congr_left hitem,List.map_const',List.sum_replicate_nat]
      rfl

/-- Below an empty list there are no strides but 0 and 1; otherwise no stride exceeds the number of scalars. -/
theorem volume_drop_leadingShape_le (n : Nat) (x : Nested α n) (k : Nat) :
    Shape.volume ((leadingShape n x).drop k) ≤ max 1 (Shape.volume (leadingShape n x)) := by
  induction n generalizing k with
  | zero => simp [leadingShape,Shape.volume]
  | succ n ih =>
    cases h : x.items with
    | nil =>
      rw [leadingShape_of_nil h,List.drop_replicate]
      refine Nat.le_trans ?_ (Nat.le_max_left 1 _)
      cases n+1-k <;> simp [Shape.volume,List.replicate_succ]
    | cons y ys =>
      rw [leadingShape_of_cons h]
      cases k with
      | zero => exact Nat.le_max_right _ _
      | succ k =>
        have hy := ih y k
        have hv : Shape.volume (leadingShape n y) ≤ (ys.length+1)*Shape.volume (leadingShape n y) :=
          Nat.le_mul_of_pos_left _ (Nat.succ_pos ys.length)
        rw [List.drop_succ_cons,Shape.volume]
        omega

section Room

variable {x : Nested α n}

theorem Rectangular.not_misfits (h : Rectangular n x) (path : List Nat) : ¬ Misfits n x (leadingShape n x) path :=
  mt misfits_leadingShape.1 (rectangular_iff.1 h path)

theorem Rectangular.shape_eq (h : Rectangular n x) : shape n x = .ok (leadingShape n x) := by
  rcases shape_cases n x with ⟨hok,-⟩ | ⟨path,-,hu,-⟩
  · exact hok
  · exact absurd hu (rectangular_iff.1 h path)

theorem Rectangular.length_leaves (h : Rectangular n x) : (leaves n x).length = Shape.volume (leadingShape n x) := by
  simpa using congrArg List.length (map_leaves (length_leadingShape n x) h.not_misfits)

variable {width : Nat}

theorem Stored.volume_le (hs : Stored width n x) (h : Rectangular n x) :
    (Shape.volume (leadingShape n x) : Int) ≤ Address.maxSigned := by
  have hle := Nat.le_trans (Nat.le_mul_of_pos_left _ hs.width_pos) hs.bytes_le
  rw [h.length_leaves] at hle
  simp only [Capacity.maxBytes] at hle
  simp only [Address.maxSigned]
  omega

theorem Stored.size_eq (hs : Stored width n x) (h : Rectangular n x) :
    Shape.size (leadingShape n x) = .ok (Shape.volume (leadingShape n x)) := by
  refine Shape.size_eq_ok_of_take fun k => ?_
  have hl := length_leadingShape n x
  rcases Nat.le_total k n with hk | hk
  · rw [← itemCount_eq hl h.not_misfits hk]
    exact hs.items_le k
  · have hall := itemCount_eq hl h.not_misfits (Nat.le_refl n)
    rw [List.take_of_length_le (Nat.le_of_eq hl)] at hall
    rw [List.take_of_length_le (by omega),← hall]
    exact hs.items_le n

theorem Stored.rowMajor_eq (hs : Stored width n x) (h : Rectangular n x) :
    Layout.rowMajor (leadingShape n x) = .ok (Layout.packed (leadingShape n x)) := by
  have hv := hs.volume_le h
  rw [Layout.rowMajor,Layout.rowMajorAxes_eq_ok_of_drop fun k => ?_]
  · rfl
  · have hle := volume_drop_leadingShape_le n x (k+1)
    simp only [Address.maxSigned] at hv ⊢
    omega

theorem Stored.size_packed_eq (hs : Stored width n x) (h : Rectangular n x) :
    (Layout.packed (leadingShape n x)).size = .ok (Shape.volume (leadingShape n x)) := by
  rw [Layout.size,Layout.dims_packed,hs.size_eq h]

theorem Stored.reserve_eq (hs : Stored width n x) (h : Rectangular n x) :
    Capacity.reserve width (Shape.volume (leadingShape n x)) = .ok () := by
  rw [← h.length_leaves]
  exact if_pos hs.bytes_le

variable [Element α]

theorem Stored.toBlock_eq (hs : Stored (Element.width α) n x) (h : Rectangular n x) :
    toBlock n x = .ok { layout := Layout.packed (leadingShape n x), data := leaves n x } := by
  rw [toBlock,h.shape_eq,ok_bind,hs.size_eq h,ok_bind,hs.reserve_eq h,ok_bind,Block.ofList,hs.rowMajor_eq h,ok_bind,
    hs.size_packed_eq h,ok_bind,if_pos h.length_leaves.symm]

theorem Stored.get_eq (hs : Stored (Element.width α) n x) (h : Rectangular n x) {b : Block α} (hb : toBlock n x = .ok b)
    (heap : Heap α) {index : List Nat} (hi : b.dims.Contains index) :
    ∃ y, scalarAt n x index = some y ∧ (heap.placed b).get index = .ok y := by
  rw [hs.toBlock_eq h] at hb
  have hl : b.layout = Layout.packed (leadingShape n x) := by rw [← Except.ok.inj hb]
  have hd : b.data = leaves n x := by rw [← Except.ok.inj hb]
  obtain ⟨value,hvalue,ht⟩ := Block.exists_tabulates hl (by rw [hd,h.length_leaves])
  have hi : Shape.Contains (leadingShape n x) index := by rwa [← ht.dims_eq]
  have hm := map_leaves (length_leadingShape n x) h.not_misfits
  rw [← hd,← hvalue,List.map_map] at hm
  refine ⟨value index,(List.map_inj_left.1 hm index (Shape.mem_indices.2 hi)).symm,?_⟩
  rw [Snapshot.get_placed,ht.get_eq_of_countable (hs.volume_le h) hi]

end Room

end Nested

namespace Session

open Nested (Rectangular FirstUneven Stored leftmost scalarAt leadingShape)

namespace Fresh

variable (as : Abilities α) (s : State α) {n : Nat} {x : Nested α n}

end Fresh

def bytes : Nested (Word ⟨true,.w8⟩) 2 :=
  [[Word.ofInt _ 1,Word.ofInt _ 2,Word.ofInt _ 3],[Word.ofInt _ 4,Word.ofInt _ 5,Word.ofInt _ 6]]

end Session

end Strided
