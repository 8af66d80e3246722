import Mathlib.Data.List.Nodup
import Mathlib.Data.List.Perm.Subperm
import Strided.Proofs.Result
import Strided.Shape

set_option autoImplicit false

/-!
Which lists are permutations of the axes. While a list is checked, the marks that are set are those of the axes it has
named so far, so a mark is there for every axis that is looked up, and it tells whether the axis came before. As many
entries as there are axes, all of them axes and none twice, leave no axis out; any other list is refused for the first
entry that is no axis or came before.
-/
namespace Strided.Permutation

variable {perm : List Nat} {rank : Nat}

/-- The marks of the axes below `rank` when those in `visited` have been marked. -/
def marksOf (rank : Nat) (visited : List Nat) : List Bool :=
  (List.range rank).map fun axis => decide (axis ∈ visited)

theorem marksOf_nil (rank : Nat) : marksOf rank [] = List.replicate rank false := by
  simp [marksOf,List.map_const']

theorem getElem?_marksOf {visited : List Nat} {axis : Nat} (h : axis < rank) :
    (marksOf rank visited)[axis]? = some (decide (axis ∈ visited)) := by
  simp [marksOf,h]

theorem set_marksOf (visited : List Nat) (p : Nat) :
    (marksOf rank visited).set p true = marksOf rank (visited++[p]) := by
  refine List.ext_getElem (by simp [marksOf]) fun axis h _ => ?_
  by_cases hp : p = axis <;> simp [marksOf,hp,eq_comm]

def refusalOf (rank axis : Nat) : ArrayError := if rank ≤ axis then .invalidAxis axis rank else .duplicateAxis axis

theorem refusalOf_eq_invalidAxis_iff {axis other n : Nat} :
    refusalOf rank axis = .invalidAxis other n ↔ rank ≤ axis ∧ other = axis ∧ n = rank := by
  by_cases hr : rank ≤ axis <;> simp [refusalOf,hr,eq_comm]

theorem refusalOf_eq_duplicateAxis_iff {axis other : Nat} :
    refusalOf rank axis = .duplicateAxis other ↔ axis < rank ∧ other = axis := by
  by_cases hr : rank ≤ axis
  · simp [refusalOf,hr,Nat.not_lt_of_le hr]
  · simp [refusalOf,hr,Nat.lt_of_not_le hr,eq_comm]

theorem markEntries_marksOf_cons (visited rest : List Nat) (p : Nat) :
    markEntries rank (marksOf rank visited) (p :: rest) =
      if rank ≤ p ∨ p ∈ visited then refuse (refusalOf rank p)
      else markEntries rank (marksOf rank (visited++[p])) rest := by
  rw [markEntries]
  by_cases hr : rank ≤ p
  · rw [if_pos hr,if_pos (Or.inl hr),refusalOf,if_pos hr]
  · rw [if_neg hr,getElem?_marksOf (Nat.lt_of_not_le hr)]
    by_cases hm : p ∈ visited
    · simp [hm,refusalOf,hr]
    · simp [hm,hr,set_marksOf]

/-- The entry at position `k` is no axis below `rank`, or it is one of the entries before. -/
def Faulty (rank : Nat) (perm : List Nat) (k : Nat) : Prop :=
  ∃ axis, perm[k]? = some axis ∧ (rank ≤ axis ∨ axis ∈ perm.take k)

theorem faulty_append_iff {visited rest : List Nat} {p : Nat} :
    Faulty rank (visited++p :: rest) visited.length ↔ rank ≤ p ∨ p ∈ visited := by
  simp [Faulty]

structure FirstFault (rank : Nat) (perm : List Nat) (k axis : Nat) : Prop where
  entry : perm[k]? = some axis
  faulty : Faulty rank perm k
  earliest : ∀ j < k, ¬ Faulty rank perm j

theorem FirstFault.unique {k l axis other : Nat} (h : FirstFault rank perm k axis)
    (h' : FirstFault rank perm l other) : axis = other := by
  have hkl : k = l := by
    rcases Nat.lt_trichotomy k l with hlt | heq | hgt
    · exact absurd h.faulty (h'.earliest k hlt)
    · exact heq
    · exact absurd h'.faulty (h.earliest l hgt)
  have he := h.entry
  rw [hkl,h'.entry,Option.some.injEq] at he
  exact he.symm

theorem forall_not_faulty_iff : (∀ k, ¬ Faulty rank perm k) ↔ perm.Nodup ∧ ∀ p ∈ perm, p < rank := by
  constructor
  · intro h
    have hlater (j k p : Nat) (hjk : j < k) (hj : perm[j]? = some p) : perm[k]? ≠ some p := fun hk =>
      h k ⟨p,hk,Or.inr (List.mem_of_getElem? (by rwa [List.getElem?_take_of_lt hjk]))⟩
    refine ⟨List.nodup_iff_getElem?_ne_getElem?.2 fun j k hjk hk he => ?_,fun p hp => ?_⟩
    · have hkp := List.getElem?_eq_getElem hk
      exact hlater j k _ hjk (he.trans hkp) hkp
    · obtain ⟨k,hk⟩ := List.mem_iff_getElem?.1 hp
      by_contra hr
      exact h k ⟨p,hk,Or.inl (by omega)⟩
  · rintro ⟨hn,hlt⟩ k ⟨axis,hk,hr | hm⟩
    · have := hlt axis (List.mem_of_getElem? hk)
      omega
    · have hd : axis ∈ perm.drop k := List.mem_of_getElem? (i := 0) (by simpa using hk)
      rw [← List.take_append_drop k perm] at hn
      exact (List.nodup_append.1 hn).2.2 axis hm axis hd rfl

theorem FirstFault.mem_take_iff {k axis : Nat} (h : FirstFault rank perm k axis) : axis ∈ perm.take k ↔ axis < rank := by
  constructor
  · intro hm
    obtain ⟨j,hj⟩ := List.mem_iff_getElem?.1 hm
    rw [List.getElem?_take] at hj
    split at hj
    · rename_i hjk
      by_contra hr
      exact h.earliest j hjk ⟨axis,hj,Or.inl (Nat.le_of_not_lt hr)⟩
    · cases hj
  · intro hlt
    obtain ⟨p,hp,hf⟩ := h.faulty
    rw [h.entry,Option.some.injEq] at hp
    subst hp
    exact hf.resolve_left (Nat.not_le_of_lt hlt)

/-- When the entries that are done are marked and none of them is at fault, the check goes through the others, or it ends
at the first fault among them. -/
theorem markEntries_cases {visited rest : List Nat} (hv : ∀ j < visited.length, ¬ Faulty rank (visited++rest) j) :
    (markEntries rank (marksOf rank visited) rest = .ok () ∧ ∀ k, ¬ Faulty rank (visited++rest) k) ∨
      ∃ k axis, FirstFault rank (visited++rest) k axis ∧
        markEntries rank (marksOf rank visited) rest = refuse (refusalOf rank axis) := by
  induction rest generalizing visited with
  | nil =>
    refine Or.inl ⟨rfl,fun k hk => ?_⟩
    have ⟨axis,ha,_⟩ := hk
    exact hv k (by simpa using (List.getElem?_eq_some_iff.1 ha).1) hk
  | cons p rest ih =>
    rw [markEntries_marksOf_cons]
    by_cases hf : rank ≤ p ∨ p ∈ visited
    · exact Or.inr ⟨visited.length,p,⟨by simp,faulty_append_iff.2 hf,hv⟩,if_pos hf⟩
    · rw [if_neg hf]
      have happ : (visited++[p])++rest = visited++p :: rest := by simp
      have hrest := @ih (visited++[p]) fun j hj => by
        rw [happ]
        rcases Nat.lt_succ_iff_lt_or_eq.1 (by simpa using hj) with hlt | rfl
        · exact hv j hlt
        · exact fun h => hf (faulty_append_iff.1 h)
      rwa [happ] at hrest

theorem perm_range_iff_nodup :
    perm.Perm (List.range rank) ↔ perm.length = rank ∧ perm.Nodup ∧ ∀ p ∈ perm, p < rank := by
  constructor
  · intro h
    exact ⟨by simpa using h.length_eq,h.nodup_iff.2 List.nodup_range,fun p hp => List.mem_range.1 (h.mem_iff.1 hp)⟩
  · rintro ⟨hl,hn,hlt⟩
    exact (hn.subperm fun p hp => List.mem_range.2 (hlt p hp)).perm_of_length_le (by simp [hl])

theorem perm_range_iff_count :
    perm.Perm (List.range rank) ↔ perm.length = rank ∧ ∀ axis < rank, perm.count axis = 1 := by
  constructor
  · intro h
    have hn : perm.Nodup := h.nodup_iff.2 List.nodup_range
    exact ⟨by simpa using h.length_eq,fun axis ha =>
      List.count_eq_one_of_mem hn (h.mem_iff.2 (List.mem_range.2 ha))⟩
  · rintro ⟨hl,hc⟩
    have hs : List.range rank ⊆ perm := fun axis ha =>
      List.count_pos_iff.1 (by rw [hc axis (List.mem_range.1 ha)]; exact Nat.one_pos)
    exact ((List.nodup_range.subperm hs).perm_of_length_le (by simp [hl])).symm

/-- Every way for the check to end. -/
theorem validate_cases (perm : List Nat) (rank : Nat) :
    (validate perm rank = .ok () ∧ perm.Perm (List.range rank)) ∨
      (validate perm rank = refuse (.rankMismatch perm.length rank) ∧ perm.length ≠ rank) ∨
      ∃ k axis, validate perm rank = refuse (refusalOf rank axis) ∧ perm.length = rank ∧ FirstFault rank perm k axis := by
  by_cases hl : perm.length = rank
  · have hv : validate perm rank = markEntries rank (marksOf rank []) perm := by rw [validate,if_pos hl,marksOf_nil]
    rw [hv]
    rcases @markEntries_cases rank [] perm (by simp) with ⟨hok,hf⟩ | ⟨k,axis,hk,hr⟩
    · exact Or.inl ⟨hok,perm_range_iff_nodup.2 ⟨hl,forall_not_faulty_iff.1 hf⟩⟩
    · exact Or.inr (Or.inr ⟨k,axis,hr,hl,hk⟩)
  · exact Or.inr (Or.inl ⟨if_neg hl,hl⟩)

theorem FirstFault.not_perm {k axis : Nat} (h : FirstFault rank perm k axis) : ¬ perm.Perm (List.range rank) := fun hp =>
  forall_not_faulty_iff.2 (perm_range_iff_nodup.1 hp).2 k h.faulty

theorem validate_eq_ok_iff : validate perm rank = .ok () ↔ perm.Perm (List.range rank) := by
  rcases validate_cases perm rank with ⟨hv,hp⟩ | ⟨hv,hl⟩ | ⟨k,axis,hv,-,hk⟩
  · exact iff_of_true hv hp
  · exact iff_of_false (by simp [hv,refuse]) fun hp => hl (by simpa using hp.length_eq)
  · exact iff_of_false (by simp [hv,refuse]) hk.not_perm

/-- The check accepts the lists of the right length that name every axis once, and only a wrong length is a mismatch of
ranks. Of any other list it reports the entry at the earliest position at fault, either as out of range or as a repeated
one, depending on which of them it is. It never looks for a mark that is not there, nor ends in any other way. -/
theorem validate_exact (perm : List Nat) (rank : Nat) :
    (validate perm rank = .ok () ↔ perm.length = rank ∧ ∀ axis < rank, perm.count axis = 1) ∧
    (∀ m n, validate perm rank = refuse (.rankMismatch m n) ↔ perm.length ≠ rank ∧ m = perm.length ∧ n = rank) ∧
    (perm.length = rank → validate perm rank ≠ .ok () → ∃ k axis, FirstFault rank perm k axis ∧
      (validate perm rank = refuse (.invalidAxis axis rank) ∨ validate perm rank = refuse (.duplicateAxis axis))) ∧
    (∀ axis n, validate perm rank = refuse (.invalidAxis axis n) ↔
      perm.length = rank ∧ n = rank ∧ ∃ k, FirstFault rank perm k axis ∧ rank ≤ axis) ∧
    (∀ axis, validate perm rank = refuse (.duplicateAxis axis) ↔
      perm.length = rank ∧ ∃ k, FirstFault rank perm k axis ∧ axis ∈ perm.take k) ∧
    ∀ cause, validate perm rank ≠ abort cause := by
  refine ⟨validate_eq_ok_iff.trans perm_range_iff_count,?_⟩
  rcases validate_cases perm rank with ⟨hv,hp⟩ | ⟨hv,hl⟩ | ⟨k,axis,hv,hl,hk⟩
  · have hl : perm.length = rank := by simpa using hp.length_eq
    have hno (k axis : Nat) : ¬ FirstFault rank perm k axis := fun hk => hk.not_perm hp
    simp [hv,hl,hno,refuse,abort]
  · simp [hv,hl,refuse,abort,eq_comm]
  · have hsame {l other : Nat} (h : FirstFault rank perm l other) : other = axis := h.unique hk
    rw [hv]
    refine ⟨fun m n => ?_,fun _ _ => ⟨k,axis,hk,?_⟩,fun other n => ?_,fun other => ?_,fun cause => by simp [refuse,abort]⟩
    · by_cases hr : rank ≤ axis <;> simp [refusalOf,hr,refuse,hl]
    · by_cases hr : rank ≤ axis <;> simp [refusalOf,hr]
    · constructor
      · intro he
        obtain ⟨hr,rfl,rfl⟩ := refusalOf_eq_invalidAxis_iff.1 (refuse_inj.1 he)
        exact ⟨hl,rfl,k,hk,hr⟩
      · rintro ⟨-,rfl,l,h,hr⟩
        exact refuse_inj.2 (refusalOf_eq_invalidAxis_iff.2 ⟨hsame h ▸ hr,hsame h,rfl⟩)
    · constructor
      · intro he
        obtain ⟨hr,rfl⟩ := refusalOf_eq_duplicateAxis_iff.1 (refuse_inj.1 he)
        exact ⟨hl,k,hk,hk.mem_take_iff.2 hr⟩
      · rintro ⟨-,l,h,hm⟩
        exact refuse_inj.2 (refusalOf_eq_duplicateAxis_iff.2 ⟨hsame h ▸ h.mem_take_iff.1 hm,hsame h⟩)

end Strided.Permutation
