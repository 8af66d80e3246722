import Strided.Proofs.Blocks

set_option autoImplicit false

namespace Strided

namespace Shape

theorem visitOnto_eq {s : Shape} {n : Nat} {index : List Nat} (h : s.Contains index)
    (hn : s.rank index+n ≤ s.volume) (visited : List (List Nat)) :
    s.visitOnto n index visited = visited.reverse++(s.indices.drop (s.rank index)).take n := by
  induction n generalizing index visited with
  | zero => simp [visitOnto]
  | succ n ih =>
    have hdrop : s.indices.drop (s.rank index) = index :: s.indices.drop (s.rank index+1) := by
      obtain ⟨hlt,hg⟩ := List.getElem?_eq_some_iff.1 (getElem?_indices h)
      rw [List.drop_eq_getElem_cons hlt,hg]
    rw [hdrop,List.take_succ_cons,visitOnto]
    rcases advance_spec h with ⟨hlast,-⟩ | ⟨next,ha,hc,hr⟩
    · -- The odometer wraps at the last index only, and that is the last one asked for.
      obtain rfl : n = 0 := by omega
      simp [visitOnto]
    · rw [ha,ih hc (by omega),hr,List.reverse_cons,List.append_assoc]
      rfl

theorem visit_volume (s : Shape) : s.visit s.volume = s.indices := by
  by_cases h0 : 0 ∈ s
  · have hv := (volume_eq_zero_iff s).2 h0
    have hi : s.indices = [] := List.eq_nil_of_length_eq_zero (by rw [length_indices,hv])
    rw [hv,hi]
    rfl
  · have h := visitOnto_eq (contains_origin h0) (n := s.volume) (by rw [rank_origin]; omega) []
    rw [visit,h,rank_origin,List.drop_zero,← length_indices,List.take_length]
    rfl

end Shape

namespace Block

variable {σ α : Type}

def noted (f : List Nat → α) (index : List Nat) : StateT (List (List Nat)) Result α :=
  fun calls => .ok (f index,calls++[index])

theorem run_mapM_noted (f : List Nat → α) (indices calls : List (List Nat)) :
    (indices.mapM (noted f)).run calls = .ok (indices.map f,calls++indices) := by
  induction indices generalizing calls with
  | nil => simp
  | cons index indices ih =>
    have hstep : ((index :: indices).mapM (noted f)).run calls = (do
        let (xs,calls) ← (indices.mapM (noted f)).run (calls++[index])
        .ok (f index :: xs,calls)) := by
      rw [List.mapM_cons]
      rfl
    rw [hstep,ih,ok_bind,List.append_assoc]
    rfl

variable [Element α] {s : Shape}

/-- What `f` does is done for all indices in row-major order, once for each. -/
theorem ofFnM_eq {m : Type → Type} [Monad m] [LawfulMonad m] [MonadLiftT (Except Fault) m]
    [LawfulMonadLiftT (Except Fault) m] (hs : s.span ≤ 2^50) (f : List Nat → m α) :
    ofFnM s f = (do
      let data ← s.indices.mapM f
      pure { layout := Layout.packed s, data }) := by
  have hv := Nat.le_trans s.volume_le_span hs
  rw [ofFnM,Layout.rowMajor_eq_packed hs,← pure_eq_ok,liftM_pure,pure_bind,Layout.size_packed hs,← pure_eq_ok,liftM_pure,
    pure_bind,Capacity.reserve_of_le hv,← pure_eq_ok,liftM_pure,pure_bind,Shape.visit_volume]

theorem tabulates_ofFn (hs : s.span ≤ 2^50) (g : List Nat → Result α) : Tabulates s g (ofFn s g) := by
  rw [ofFn,ofFnM_eq hs]
  exact tabulates_of_mapM fun _ hm => ⟨rfl,hm⟩

/-- An array of at most `2^50` elements from a function: the row-major indices are the indices inside the extents, each
once. The function is asked for all of them in that order and for no other, so whatever it keeps in its memory or ends
with is what it comes to when it is asked for them in turn, and its answers are read back at their own indices. -/
theorem ofFn_read_back (hs : s.span ≤ 2^50) :
    (s.indices.Pairwise (· < ·) ∧ ∀ index, index ∈ s.indices ↔ s.Contains index) ∧
      ∃ layout, Layout.rowMajor s = .ok layout ∧
        (∀ f : List Nat → StateT σ Result α, ofFnM s f = (do
          let data ← s.indices.mapM f
          pure { layout, data })) ∧
        (∀ data : List α, data.length = s.volume → s.indices.mapM (Block.mk layout data).snapshot.get = .ok data) ∧
        ∀ f : List Nat → α, ∃ b, ofFn s (fun index => .ok (f index)) = .ok b ∧
          (ofFnM s (noted f)).run [] = .ok (b,s.indices) ∧ b.layout = layout ∧ b.dims = s ∧
          ∀ index, s.Contains index →
            b.snapshot.get index = .ok (f index) ∧ b.snapshot.getPromised index = .ok (f index) := by
  refine ⟨⟨s.indices_sorted,fun _ => Shape.mem_indices⟩,Layout.packed s,Layout.rowMajor_eq_packed hs,
    fun f => ofFnM_eq hs f,fun data hl => ?_,fun f => ?_⟩
  · obtain ⟨x,hx,ht⟩ := exists_tabulates (b := { layout := Layout.packed s, data }) rfl hl
    rw [mapM_congr fun index hi => ht.get_eq hs (Shape.mem_indices.1 hi)]
    exact ht.2
  · have ht := tabulates_ofFn hs fun index => .ok (f index)
    obtain ⟨b,hb⟩ := ht.exists_ok fun index _ => ⟨f index,rfl⟩
    rw [hb] at ht
    have hdata : b.data = s.indices.map f := Except.ok.inj (ht.2.symm.trans (mapM_ok fun _ _ => rfl))
    refine ⟨b,hb,?_,ht.1,ht.dims_eq,fun index hi => ?_⟩
    · have hrun := run_mapM_noted f s.indices []
      rw [List.nil_append,← hdata] at hrun
      rw [ofFnM_eq hs,StateT.run_bind,hrun,ok_bind,← ht.1]
      rfl
    · have hget := ht.get_eq hs hi
      refine ⟨hget,?_⟩
      rw [Snapshot.getPromised,hget]
      rfl

def decimal (index : List Nat) : Word ⟨true,.w8⟩ := Word.ofInt _ (index.foldl (fun n i => 10*n+i) 0 : Nat)

theorem decimal_read_back : Shape.span [2,1,2] ≤ 2^50 ∧
    (∃ layout, Layout.rowMajor [2,1,2] = .ok layout ∧ [3,1,4,1].length = Shape.volume [2,1,2] ∧
      (Shape.indices [2,1,2]).mapM (Block.mk layout ([3,1,4,1].map (Word.ofInt ⟨true,.w8⟩))).snapshot.get =
        .ok ([3,1,4,1].map (Word.ofInt _))) ∧
    ∃ b, (ofFnM [2,1,2] (noted decimal)).run [] = .ok (b,[[0,0,0],[0,0,1],[1,0,0],[1,0,1]]) ∧
      Shape.Contains [2,1,2] [1,0,1] ∧ b.snapshot.get [1,0,1] = .ok (Word.ofInt _ 101) := by
  have h : Shape.span [2,1,2] ≤ 2^50 := by decide
  obtain ⟨-,layout,hl,-,hdata,hf⟩ := @ofFn_read_back Unit (Word ⟨true,.w8⟩) _ [2,1,2] h
  obtain ⟨b,-,hcalls,-,-,hget⟩ := hf decimal
  exact ⟨h,⟨layout,hl,rfl,hdata _ rfl⟩,b,hcalls,by decide,(hget [1,0,1] (by decide)).1⟩

end Block

end Strided
