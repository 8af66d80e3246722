import Strided.Proofs.Faults

set_option autoImplicit false

namespace Strided

namespace Permutation

variable {perm : List Nat} {n : Nat}

theorem validate_eq_refuse (h : ¬ perm.Perm (List.range n)) : ∃ error, validate perm n = refuse error := by
  cases hv : validate perm n with
  | ok x => exact absurd (validate_eq_ok_iff.1 hv) h
  | error cause =>
    rcases faultsOnly_validate (P := fun _ => False) perm n cause hv with ⟨error,rfl⟩ | hf
    · exact ⟨error,rfl⟩
    · exact hf.elim

end Permutation

theorem Layout.permuted_eq_ok {l : Layout} {perm : List Nat} (hp : Permutation.validate perm l.rank = .ok ()) :
    l.permuted perm = .ok ⟨Permutation.arrange perm l.axes⟩ := by
  rw [permuted,hp,ok_bind]

theorem View.permuted_eq {v : View} {perm : List Nat} (hp : Permutation.validate perm v.rank = .ok ()) :
    v.permuted perm = .ok { v with layout := ⟨Permutation.arrange perm v.layout.axes⟩ } := by
  rw [permuted,Layout.permuted_eq_ok hp,ok_bind]

theorem View.exists_permuted {v : View} {perm : List Nat} (hp : Permutation.validate perm v.rank = .ok ()) :
    ∃ w, v.permuted perm = .ok w ∧ w.dims = Permutation.arrange perm v.dims :=
  ⟨_,permuted_eq hp,Permutation.map_arrange _ _⟩

namespace Snapshot

variable {α : Type} [Element α] {s : Snapshot α}

omit [Element α] in
theorem Sound.through_permuted (hs : s.Sound) {perm : List Nat} {w : View} (hw : s.view.permuted perm = .ok w) :
    (s.through w).Sound := by
  rw [Sound,through,(View.translates_of_permuted hw).buffer_eq]
  exact (View.Sound.permuted hs hw).2

/-- Each element of the view is the one that the coordinates lead to when each is put back along its own axis. -/
theorem Sound.get_restore (hs : s.Sound) {perm : List Nat} {w : View} (hw : s.view.permuted perm = .ok w)
    {index : List Nat} (hi : w.dims.Contains index) :
    s.dims.Contains (Permutation.restore perm index) ∧
      s.get (Permutation.restore perm index) = .ok (s.valueAt (Permutation.restore perm index)) ∧
      (s.through w).get index = .ok (s.valueAt (Permutation.restore perm index)) := by
  have ht := View.translates_of_permuted hw
  have hc := ht.contains index hi
  refine ⟨hc,hs.get_eq hc,?_⟩
  rw [(hs.through_permuted hw).get_eq hi,valueAt_of_translates ht hi]

/-- The copy and the view are there for exactly the permutations of all axes. Then the copy is row-major, has the
extents of the view and at each index the element of the view, which is that of the array at the index whose
coordinate along axis `perm[k]` is coordinate `k`. Every other list is refused, by both with the same error. -/
theorem WellFormed.transposeAxes_permuted (h : s.WellFormed) (perm : List Nat) :
    (perm.Perm (List.range s.rank) → ∃ b w, s.transposeAxes perm = .ok b ∧ s.view.permuted perm = .ok w ∧
      w.dims = Permutation.arrange perm s.dims ∧ b.Holds w.dims (s.through w).get ∧
      ∀ index, w.dims.Contains index → ∃ source : List Nat, s.dims.Contains source ∧
        (∀ k p : Nat, perm[k]? = some p → source[p]? = index[k]?) ∧ b.snapshot.get index = s.get source) ∧
    (¬ perm.Perm (List.range s.rank) → ∃ error, s.transposeAxes perm = refuse error ∧
      s.view.permuted perm = refuse error) := by
  refine ⟨fun hr => ?_,fun hr => ?_⟩
  · have hs : s.Sound := h.sound
    have hp : Permutation.validate perm s.rank = .ok () := Permutation.validate_eq_ok_iff.2 hr
    obtain ⟨w,hw,hd⟩ := View.exists_permuted hp
    have hspan : w.dims.span ≤ 2^50 := (hs.through_permuted hw).span_le
    have ht := hs.tabulates_transposeAxes hp
    rw [dims,← hd] at ht
    obtain ⟨b,hb,hh⟩ : ∃ b, s.transposeAxes perm = .ok b ∧ b.Holds w.dims (s.through w).get :=
      ht.exists_holds hspan fun index hi => ⟨_,rfl,(hs.get_restore hw hi).2.2⟩
    refine ⟨b,w,hb,hw,hd,hh,fun index hi => ?_⟩
    obtain ⟨hc,hget,hview⟩ := hs.get_restore hw hi
    obtain ⟨x,hx,hcopy⟩ := hh.get_eq index hi
    have hl : index.length = s.rank := by
      rw [hi.length_eq,hd,(Permutation.arrange_perm hp s.view.length_dims).length_eq]
      exact s.view.length_dims
    refine ⟨_,hc,fun k p hk => Permutation.getElem?_restore hp hl hk,?_⟩
    rw [hcopy,hget,← hview,hx]
  · obtain ⟨error,he⟩ := Permutation.validate_eq_refuse hr
    have hl : s.view.layout.permuted perm = refuse error := by
      rw [Layout.permuted,show Permutation.validate perm s.view.layout.rank = refuse error from he]
      rfl
    exact ⟨error,by rw [transposeAxes,he]; rfl,by rw [View.permuted,hl]; rfl⟩

theorem zigzag_transposeAxes_permuted : zigzag.WellFormed ∧
    (∃ b w, zigzag.transposeAxes [1,0] = .ok b ∧ zigzag.view.permuted [1,0] = .ok w ∧ b.dims = [3,2] ∧
      b.snapshot.get [2,1] = zigzag.get [1,2]) ∧
    ∃ error, zigzag.transposeAxes [1,1] = refuse error ∧ zigzag.view.permuted [1,1] = refuse error := by
  have h : zigzag.WellFormed := by decide
  obtain ⟨b,w,hb,hw,hd,hh,hget⟩ := (h.transposeAxes_permuted [1,0]).1 (by decide)
  have hdims : w.dims = [3,2] := hd
  obtain ⟨source,hc,hsource,hcopy⟩ := hget [2,1] (by rw [hdims]; decide)
  have h0 : source[0]? = some 1 := hsource 1 0 rfl
  have h1 : source[1]? = some 2 := hsource 0 1 rfl
  have hl : source = [1,2] := by
    have hn : source.length = 2 := hc.length_eq
    obtain ⟨i,j,rfl⟩ := List.length_eq_two.1 hn
    simp_all
  exact ⟨h,⟨b,w,hb,hw,hh.dims_eq.trans hdims,by rw [hcopy,hl]⟩,(h.transposeAxes_permuted [1,1]).2 (by decide)⟩

end Snapshot

end Strided
