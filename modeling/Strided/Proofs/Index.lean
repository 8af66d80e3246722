import Mathlib.Algebra.Group.Int.Defs
import Mathlib.Algebra.GroupWithZero.Nat
import Strided.Offsets

set_option autoImplicit false

namespace Strided.Shape

def volume : Shape → Nat
  | [] => 1
  | d :: s => d*volume s

/-- The volume with every extent 0 counted as 1. No product of some of the extents exceeds it. -/
def span : Shape → Nat
  | [] => 1
  | d :: s => max d 1*span s

/-- An index has one coordinate for each axis, and each lies below its extent. -/
def Contains : Shape → List Nat → Prop
  | [], [] => True
  | d :: s, i :: index => i < d ∧ Contains s index
  | _, _ => False

instance decidableContains : (s : Shape) → (index : List Nat) → Decidable (s.Contains index)
  | [], [] => isTrue trivial
  | [], _ :: _ => isFalse id
  | _ :: _, [] => isFalse id
  | d :: s, i :: index =>
    have := decidableContains s index
    inferInstanceAs (Decidable (i < d ∧ Contains s index))

/-- All indices in row-major order: the last coordinate moves fastest. -/
def indices : Shape → List (List Nat)
  | [] => [[]]
  | d :: s => (List.range d).flatMap fun i => (indices s).map (i :: ·)

def rank : Shape → List Nat → Nat
  | _ :: s, i :: index => i*volume s+rank s index
  | _, _ => 0

theorem span_pos (s : Shape) : 0 < s.span := by
  induction s with
  | nil => simp [span]
  | cons d s ih => exact Nat.mul_pos (by omega) ih

theorem volume_le_span (s : Shape) : s.volume ≤ s.span := by
  induction s with
  | nil => simp [volume,span]
  | cons d s ih => exact Nat.mul_le_mul (Nat.le_max_left d 1) ih

theorem volume_le_of_span_le {s : Shape} (h : s.span ≤ 2^50) : s.volume ≤ 2^50 :=
  Nat.le_trans (Nat.le_trans s.volume_le_span h) (by decide)

theorem span_tail_le (d : Nat) (s : Shape) : s.span ≤ span (d :: s) :=
  Nat.le_mul_of_pos_left _ (by omega)

theorem extent_le_span (d : Nat) (s : Shape) : max d 1 ≤ span (d :: s) :=
  Nat.le_mul_of_pos_right _ s.span_pos

theorem span_take_le (s : Shape) (k : Nat) : span (s.take k) ≤ s.span := by
  induction s generalizing k with
  | nil => simp
  | cons d s ih =>
    cases k with
    | zero => exact span_pos (d :: s)
    | succ k => exact Nat.mul_le_mul_left _ (ih k)

theorem span_drop_le (s : Shape) (k : Nat) : span (s.drop k) ≤ s.span := by
  induction s generalizing k with
  | nil => simp
  | cons d s ih =>
    cases k with
    | zero => exact Nat.le_refl _
    | succ k => exact Nat.le_trans (ih k) (span_tail_le d s)

theorem span_eraseIdx_le (s : Shape) (axis : Nat) : span (s.eraseIdx axis) ≤ s.span := by
  induction s generalizing axis with
  | nil => simp
  | cons d s ih =>
    cases axis with
    | zero => exact span_tail_le d s
    | succ axis => exact Nat.mul_le_mul_left _ (ih axis)

theorem extent_le_span_of_getElem? {s : Shape} {axis d : Nat} (h : s[axis]? = some d) : d ≤ s.span := by
  induction s generalizing axis with
  | nil => simp at h
  | cons e s ih =>
    cases axis with
    | zero =>
      have he := extent_le_span e s
      simp only [List.getElem?_cons_zero,Option.some.injEq] at h
      omega
    | succ axis => exact Nat.le_trans (ih (by simpa using h)) (span_tail_le e s)

theorem volume_eq_zero_iff (s : Shape) : s.volume = 0 ↔ 0 ∈ s := by
  induction s with
  | nil => simp [volume]
  | cons d s ih => rw [volume,Nat.mul_eq_zero,ih,List.mem_cons,eq_comm (a := d)]

theorem Contains.length_eq {s : Shape} {index : List Nat} (h : s.Contains index) : index.length = s.length := by
  induction s generalizing index with
  | nil => cases index <;> simp_all [Contains]
  | cons d s ih =>
    cases index with
    | nil => exact h.elim
    | cons i index => simpa using ih h.2

theorem contains_iff_getElem? {s : Shape} {index : List Nat} :
    s.Contains index ↔ index.length = s.length ∧ ∀ (k i d : Nat), index[k]? = some i → s[k]? = some d → i < d := by
  induction s generalizing index with
  | nil => cases index <;> simp [Contains]
  | cons d s ih =>
    cases index with
    | nil => simp [Contains]
    | cons i index =>
      simp only [Contains,ih,List.length_cons,Nat.add_right_cancel_iff]
      constructor
      · rintro ⟨hi,hl,h⟩
        refine ⟨hl,fun k j e hj he => ?_⟩
        cases k with
        | zero => simp_all
        | succ k => exact h k j e (by simpa using hj) (by simpa using he)
      · rintro ⟨hl,h⟩
        exact ⟨h 0 i d rfl rfl,hl,fun k j e hj he => h (k+1) j e (by simpa using hj) (by simpa using he)⟩

theorem Contains.exists_coordinate {s : Shape} {index : List Nat} (h : s.Contains index) {axis d : Nat}
    (hd : s[axis]? = some d) : ∃ i, index[axis]? = some i ∧ i < d := by
  obtain ⟨hl,hlt⟩ := contains_iff_getElem?.1 h
  have ha : axis < index.length := by rw [hl]; exact (List.getElem?_eq_some_iff.1 hd).1
  exact ⟨index[axis],List.getElem?_eq_getElem ha,hlt axis _ d (List.getElem?_eq_getElem ha) hd⟩

theorem mem_indices {s : Shape} {index : List Nat} : index ∈ s.indices ↔ s.Contains index := by
  induction s generalizing index with
  | nil => cases index <;> simp [indices,Contains]
  | cons d s ih => cases index <;> simp [indices,Contains,ih]

theorem volume_eq_span {s : Shape} (h : 0 ∉ s) : s.volume = s.span := by
  induction s with
  | nil => rfl
  | cons d s ih =>
    simp only [List.mem_cons,not_or] at h
    rw [volume,span,ih h.2,Nat.max_eq_left (by omega)]

theorem not_contains_of_mem {s : Shape} (h : 0 ∈ s) (index : List Nat) : ¬ s.Contains index := by
  induction s generalizing index with
  | nil => simp at h
  | cons d s ih =>
    cases index with
    | nil => exact id
    | cons i index =>
      rintro ⟨hi,hs⟩
      rcases List.mem_cons.1 h with h | h
      · omega
      · exact ih h index hs

theorem range_mul (m n : Nat) :
    List.range (m*n) = (List.range m).flatMap fun i => (List.range n).map (i*n+·) := by
  induction m with
  | zero => simp
  | succ m ih => simp [Nat.succ_mul,List.range_add,List.range_succ,ih]

theorem map_rank_indices (s : Shape) : s.indices.map s.rank = List.range s.volume := by
  induction s with
  | nil => simp [indices,rank,volume]
  | cons d s ih =>
    have h (i : Nat) : ((indices s).map (i :: ·)).map (rank (d :: s)) =
        (List.range (volume s)).map (i*volume s+·) := by
      simp [← ih,Function.comp_def,rank]
    simp only [indices,List.map_flatMap,h,volume,range_mul]

@[simp] theorem length_indices (s : Shape) : s.indices.length = s.volume := by
  simpa using congrArg List.length s.map_rank_indices

theorem nodup_indices (s : Shape) : s.indices.Nodup := by
  have hm : (s.indices.map s.rank).Nodup := by
    rw [map_rank_indices]
    exact List.nodup_range
  exact (List.pairwise_map.1 hm).imp fun hij he => hij (congrArg s.rank he)

theorem indices_singleton (d : Nat) : indices [d] = (List.range d).map fun i => [i] := by
  simp [indices,List.map_eq_flatMap]

theorem rank_of_getElem? {s : Shape} {r : Nat} {index : List Nat} (h : s.indices[r]? = some index) :
    s.rank index = r := by
  have hr : r < s.volume := by simpa using (List.getElem?_eq_some_iff.1 h).1
  have hm : (s.indices.map s.rank)[r]? = some r := by simp [map_rank_indices,hr]
  simpa [h] using hm

theorem rank_lt {s : Shape} {index : List Nat} (h : s.Contains index) : s.rank index < s.volume := by
  have hm := List.mem_map_of_mem (f := s.rank) (mem_indices.2 h)
  simpa [map_rank_indices] using hm

theorem indices_sorted (s : Shape) : s.indices.Pairwise (· < ·) := by
  induction s with
  | nil => simp [indices]
  | cons d s ih =>
    refine List.pairwise_flatMap.2 ⟨fun i _ => ?_,?_⟩
    · exact List.pairwise_map.2 (ih.imp fun h => List.cons_lt_cons_self.2 h)
    · refine List.pairwise_lt_range.imp fun {i j} hij => ?_
      intro x hx y hy
      obtain ⟨x,-,rfl⟩ := List.mem_map.1 hx
      obtain ⟨y,-,rfl⟩ := List.mem_map.1 hy
      exact List.cons_lt_cons_iff.2 (Or.inl hij)

/-- Successive remainders and quotients take a rank apart again, and leave what was put on top of it. -/
theorem digits_add_rank {s : Shape} {index : List Nat} (h : s.Contains index) (n : Nat) :
    Offsets.digits s (n*s.volume+s.rank index) = (index,n) := by
  induction s generalizing index n with
  | nil => cases index <;> simp_all [Contains,Offsets.digits,volume,rank]
  | cons d s ih =>
    cases index with
    | nil => exact h.elim
    | cons i index =>
      have hd : max d 1 = d := by have := h.1; omega
      have hn : n*volume (d :: s)+rank (d :: s) (i :: index) = (n*d+i)*volume s+rank s index := by
        simp only [volume,rank,Nat.add_mul,Nat.mul_assoc,Nat.add_assoc]
      rw [hn,Offsets.digits,ih h.2]
      simp only [hd]
      rw [Nat.add_comm,Nat.add_mul_mod_self_right,Nat.mod_eq_of_lt h.1,
        Nat.add_mul_div_right _ _ (by have := h.1; omega),Nat.div_eq_of_lt h.1,Nat.zero_add]

theorem digits_rank {s : Shape} {index : List Nat} (h : s.Contains index) :
    Offsets.digits s (s.rank index) = (index,0) := by
  have hd := digits_add_rank h 0
  rwa [Nat.zero_mul,Nat.zero_add] at hd

theorem rank_injective {s : Shape} {i j : List Nat} (hi : s.Contains i) (hj : s.Contains j)
    (h : s.rank i = s.rank j) : i = j := by
  have hd := digits_rank hi
  rw [h,digits_rank hj] at hd
  exact (Prod.mk.inj hd).1.symm

theorem getElem?_indices {s : Shape} {index : List Nat} (h : s.Contains index) :
    s.indices[s.rank index]? = some index := by
  have hr : s.rank index < s.indices.length := by simpa using rank_lt h
  have hm := mem_indices.1 (List.getElem_mem hr)
  rw [List.getElem?_eq_getElem hr,
    rank_injective hm h (rank_of_getElem? (List.getElem?_eq_getElem hr))]

theorem exists_getElem?_indices {s : Shape} {r : Nat} (h : r < s.volume) :
    ∃ index, s.Contains index ∧ s.indices[r]? = some index := by
  have hr : r < s.indices.length := by simpa using h
  exact ⟨s.indices[r],mem_indices.1 (List.getElem_mem hr),List.getElem?_eq_getElem hr⟩

theorem exists_rank_eq {s : Shape} {r : Nat} (h : r < s.volume) :
    ∃ index, s.Contains index ∧ s.rank index = r := by
  obtain ⟨index,hi,hg⟩ := exists_getElem?_indices h
  exact ⟨index,hi,rank_of_getElem? hg⟩

theorem contains_origin {s : Shape} (h : 0 ∉ s) : s.Contains s.origin := by
  induction s with
  | nil => exact trivial
  | cons d s ih =>
    simp only [List.mem_cons,not_or] at h
    exact ⟨Nat.pos_of_ne_zero (Ne.symm h.1),ih h.2⟩

theorem rank_origin (s : Shape) : s.rank s.origin = 0 := by
  induction s with
  | nil => rfl
  | cons d s ih => simpa [rank,origin] using ih

theorem volume_append (s t : Shape) : volume (s++t) = s.volume*t.volume := by
  induction s with
  | nil => simp [volume]
  | cons d s ih => simp [volume,ih,Nat.mul_assoc]

theorem volume_perm {s t : Shape} (h : s.Perm t) : s.volume = t.volume := by
  induction h with
  | nil => rfl
  | cons d _ ih => simp only [volume,ih]
  | swap d e s => simp only [volume,Nat.mul_left_comm]
  | trans _ _ ih ih' => exact ih.trans ih'

theorem Contains.append {s t : Shape} {i j : List Nat} (h : s.Contains i) (h' : t.Contains j) :
    Contains (s++t) (i++j) := by
  induction s generalizing i with
  | nil => cases i <;> simp_all [Contains]
  | cons d s ih =>
    cases i with
    | nil => exact h.elim
    | cons k i => exact ⟨h.1,ih h.2⟩

theorem rank_append {s : Shape} {i : List Nat} (h : s.Contains i) (t : Shape) (j : List Nat) :
    rank (s++t) (i++j) = s.rank i*t.volume+t.rank j := by
  induction s generalizing i with
  | nil => cases i <;> simp_all [Contains,rank]
  | cons d s ih =>
    cases i with
    | nil => exact h.elim
    | cons k i => simp [rank,ih h.2,volume_append,Nat.add_mul,Nat.mul_assoc,Nat.add_assoc]

/-- At the last index the odometer wraps round to the first one; from any other it goes on to the next. -/
theorem advance_spec {s : Shape} {index : List Nat} (h : s.Contains index) :
    (s.rank index+1 = s.volume ∧ s.advance index = (true,s.origin)) ∨
      ∃ next, s.advance index = (false,next) ∧ s.Contains next ∧ s.rank next = s.rank index+1 := by
  induction s generalizing index with
  | nil => cases index <;> simp_all [Contains,advance,rank,volume,origin]
  | cons d s ih =>
    cases index with
    | nil => exact h.elim
    | cons i index =>
      have ho : (0 :: origin s) = origin (d :: s) := rfl
      rcases ih h.2 with ⟨hr,ha⟩ | ⟨next,ha,hc,hr⟩
      · have hs : 0 ∉ s := fun hz => not_contains_of_mem hz index h.2
        by_cases hi : i+1 < d
        · refine Or.inr ⟨(i+1) :: origin s,?_,⟨hi,contains_origin hs⟩,?_⟩
          · simp only [advance,ha,hi,↓reduceIte]
          · simp only [rank,rank_origin s,Nat.succ_mul]
            omega
        · have hd : d = i+1 := by have := h.1; omega
          refine Or.inl ⟨?_,?_⟩
          · simp only [rank,volume,hd,Nat.succ_mul]
            omega
          · simp only [advance,ha,hi,↓reduceIte,ho]
      · refine Or.inr ⟨i :: next,?_,⟨h.1,hc⟩,?_⟩
        · simp only [advance,ha]
        · simp only [rank,hr,Nat.add_assoc]

end Strided.Shape
