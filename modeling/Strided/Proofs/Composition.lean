import Mathlib.Data.List.Nodup
import Strided.Proofs.PermutedCopy
import Strided.Proofs.Placed

set_option autoImplicit false

namespace Strided

namespace Permutation

variable {β : Type} {p q perm : List Nat} {n : Nat}

/-- The permutation that puts every axis back: entry `perm[k]` is `k`. -/
def inverse (perm : List Nat) : List Nat := (List.range perm.length).map perm.idxOf

theorem length_of_validate (hp : validate perm n = .ok ()) : perm.length = n := (validate_spec hp).2.1

theorem validate_arrange (hp : validate p n = .ok ()) (hq : validate q n = .ok ()) :
    validate (arrange q p) n = .ok () :=
  validate_eq_ok_iff.2 ((arrange_perm hq (length_of_validate hp)).trans (perm_range_of_validate hp))

theorem arrange_arrange {xs : List β} (hp : ∀ k ∈ p, k < xs.length) :
    arrange q (arrange p xs) = arrange (arrange q p) xs := by
  have hx : ((arrange p xs)[·]?) = fun k => p[k]?.bind (xs[·]?) := funext fun k => getElem?_arrange hp k
  rw [arrange,hx,arrange,arrange,List.filterMap_filterMap]

theorem getElem?_inverse (hp : validate perm n = .ok ()) {k i : Nat} : perm[k]? = some i ↔ (inverse perm)[i]? = some k := by
  obtain ⟨hn,hl,hlt⟩ := validate_spec hp
  constructor
  · intro hk
    obtain ⟨hk,hi⟩ := List.getElem?_eq_some_iff.1 hk
    have hr : i < perm.length := by rw [hl]; exact hlt i (by rw [← hi]; exact List.getElem_mem hk)
    have hx : perm.idxOf i = k := by rw [← hi]; exact hn.idxOf_getElem k hk
    simp [inverse,hr,hx]
  · intro hi
    have hr : i < perm.length := by simpa [inverse] using (List.getElem?_eq_some_iff.1 hi).1
    have hm : i ∈ perm := (perm_range_of_validate hp).mem_iff.2 (List.mem_range.2 (by omega))
    have hx : perm.idxOf i = k := by simpa [inverse,hr] using hi
    rw [← hx]
    exact List.getElem?_idxOf hm

theorem arrange_inverse (hp : validate perm n = .ok ()) : arrange (inverse perm) perm = List.range n := by
  have hl := length_of_validate hp
  have hlt : ∀ k ∈ inverse perm, k < perm.length := fun k hk => by
    obtain ⟨i,hi⟩ := List.mem_iff_getElem?.1 hk
    exact (List.getElem?_eq_some_iff.1 ((getElem?_inverse hp).2 hi)).1
  refine List.ext_getElem? fun i => ?_
  rw [getElem?_arrange hlt]
  cases hi : (inverse perm)[i]? with
  | none =>
    have hn : n ≤ i := by simpa [inverse,hl] using List.getElem?_eq_none_iff.1 hi
    simp [hn]
  | some k =>
    have hr : i < n := by simpa [inverse,hl] using (List.getElem?_eq_some_iff.1 hi).1
    simpa [hr] using (getElem?_inverse hp).2 hi

theorem validate_inverse (hp : validate perm n = .ok ()) : validate (inverse perm) n = .ok () := by
  have hl := length_of_validate hp
  have hn : (inverse perm).Nodup := by
    refine List.nodup_range.map_on fun i hi j hj he => ?_
    have hi := (perm_range_of_validate hp).mem_iff.2 (by rwa [hl] at hi)
    exact (List.idxOf_inj hi).1 he
  refine validate_eq_ok_iff.2 ((hn.subperm fun k hk => ?_).perm_of_length_le (by simp [inverse,hl]))
  obtain ⟨i,hi⟩ := List.mem_iff_getElem?.1 hk
  have hk := (List.getElem?_eq_some_iff.1 ((getElem?_inverse hp).2 hi)).1
  exact List.mem_range.2 (by omega)

theorem validate_reverse (n : Nat) : validate (List.range n).reverse n = .ok () :=
  validate_eq_ok_iff.2 (List.reverse_perm _)

theorem arrange_reverse (n : Nat) : arrange (List.range n).reverse (List.range n).reverse = List.range n := by
  have hr := arrange_range (List.range n).reverse
  rw [List.length_reverse,List.length_range] at hr
  rw [arrange,List.filterMap_reverse,← arrange,hr,List.reverse_reverse]

theorem length_restore (perm xs : List Nat) : (restore perm xs).length = perm.length := by simp [restore]

theorem restore_restore (hp : validate p n = .ok ()) (hq : validate q n = .ok ()) {index : List Nat}
    (hl : index.length = n) : restore p (restore q index) = restore (arrange q p) index := by
  have hr := validate_arrange hp hq
  have hlq : (restore q index).length = n := by rw [length_restore,length_of_validate hq]
  have hlp : (restore p (restore q index)).length = n := by rw [length_restore,length_of_validate hp]
  refine arrange_injective hr hlp (by rw [length_restore,length_of_validate hr]) ?_
  rw [arrange_restore hr hl,← arrange_arrange (by rw [hlp]; exact (validate_spec hp).2.2),arrange_restore hp hlq,
    arrange_restore hq hl]

theorem restore_range {index : List Nat} (hl : index.length = n) : restore (List.range n) index = index := by
  have hv : validate (List.range n) n = .ok () := validate_eq_ok_iff.2 (List.Perm.refl _)
  have hr := arrange_range (restore (List.range n) index)
  rw [length_restore,List.length_range,arrange_restore hv hl] at hr
  exact hr.symm

end Permutation

namespace View

variable {v : View} {p q : List Nat} {n : Nat}

theorem permuted_permuted (hv : v.rank = n) (hp : Permutation.validate p n = .ok ())
    (hq : Permutation.validate q n = .ok ()) :
    ∃ w u, v.permuted p = .ok w ∧ w.permuted q = .ok u ∧ v.permuted (Permutation.arrange q p) = .ok u := by
  subst hv
  have hlt : ∀ k ∈ p, k < v.layout.axes.length := (Permutation.validate_spec hp).2.2
  have hrank : View.rank { v with layout := ⟨Permutation.arrange p v.layout.axes⟩ } = v.rank :=
    (Permutation.arrange_perm hp rfl).length_eq
  refine ⟨_,_,permuted_eq hp,permuted_eq (by rwa [hrank]),?_⟩
  rw [permuted_eq (Permutation.validate_arrange hp hq),← Permutation.arrange_arrange hlt]

theorem permuted_range (v : View) : v.permuted (List.range v.rank) = .ok v := by
  have hv : Permutation.validate (List.range v.rank) v.rank = .ok () :=
    Permutation.validate_eq_ok_iff.2 (List.Perm.refl _)
  have hr : Permutation.arrange (List.range v.rank) v.layout.axes = v.layout.axes :=
    Permutation.arrange_range v.layout.axes
  rw [permuted_eq hv,hr]

end View

namespace Block

variable {α : Type} {s : Shape} {g : List Nat → Result α} {b c : Block α}

theorem Tabulates.unique (hb : Tabulates s g (.ok b)) (hc : Tabulates s g (.ok c)) : b = c := by
  cases b
  cases c
  rw [mk.injEq]
  exact ⟨hb.1.trans hc.1.symm,Except.ok.inj (hb.2.symm.trans hc.2)⟩

theorem Tabulates.transposeAxes_placed [Element α] (hb : Tabulates s g (.ok b)) (hs : s.span ≤ 2^50) (h : Heap α)
    {perm : List Nat} (hp : Permutation.validate perm s.length = .ok ()) :
    Tabulates (Permutation.arrange perm s) (fun index => g (Permutation.restore perm index))
      ((h.placed b).transposeAxes perm) := by
  have hsound := hb.sound_placed hs h
  have hdims := hb.dims_placed h
  have hp' : Permutation.validate perm (h.placed b).rank = .ok () := by
    rwa [Snapshot.rank,View.rank_eq (s := s) hdims]
  have ht := hsound.tabulates_transposeAxes hp'
  rw [hdims] at ht
  refine ht.congr fun index hi => ?_
  have hc := (Shape.contains_restore hp hi).1
  rw [← hb.get_eq hs hc,← Snapshot.get_placed h b,hsound.get_eq (by rwa [hdims])]

end Block

namespace Snapshot

open Block (Tabulates)
open Permutation (arrange restore inverse validate)

variable {α : Type} [Element α] {s : Snapshot α} {p q : List Nat} {n : Nat}

theorem rank_of_transposeAxes {b : Block α} (h : s.transposeAxes p = .ok b) : s.rank = p.length := by
  obtain ⟨⟨⟩,hp,-⟩ := bind_eq_ok.1 h
  exact (Permutation.length_of_validate hp).symm

theorem Sound.exists_transposeAxes_twice (hs : s.Sound) (hr : s.rank = n) (hp : validate p n = .ok ())
    (hq : validate q n = .ok ()) (h : Heap α) :
    ∃ b c, s.transposeAxes p = .ok b ∧ (h.placed b).transposeAxes q = .ok c ∧
      Tabulates (arrange (arrange q p) s.dims) (fun index => .ok (s.valueAt (restore (arrange q p) index))) (.ok c) := by
  subst hr
  have hl : s.dims.length = s.rank := s.view.length_dims
  have harr : (arrange p s.dims).Perm s.dims := Permutation.arrange_perm hp hl
  have hspan : Shape.span (arrange p s.dims) ≤ 2^50 := le_of_eq_of_le (Shape.span_perm harr) hs.span_le
  have ht := hs.tabulates_transposeAxes hp
  obtain ⟨b,hb⟩ := ht.exists_ok fun _ _ => ⟨_,rfl⟩
  rw [hb] at ht
  have hq' : validate q (arrange p s.dims).length = .ok () := by rwa [harr.length_eq,hl]
  have ht' := ht.transposeAxes_placed hspan h hq'
  obtain ⟨c,hc⟩ := ht'.exists_ok fun _ _ => ⟨_,rfl⟩
  rw [hc,Permutation.arrange_arrange (by rw [hl]; exact (Permutation.validate_spec hp).2.2)] at ht'
  refine ⟨b,c,hb,hc,ht'.congr fun index hi => ?_⟩
  have hi : index.length = s.rank := by
    rw [hi.length_eq,(Permutation.arrange_perm (Permutation.validate_arrange hp hq) hl).length_eq,hl]
  simp only [Permutation.restore_restore hp hq hi]

theorem Sound.exists_transposeAxes_back (hs : s.Sound) (hr : s.rank = n) (hp : validate p n = .ok ())
    (hq : validate q n = .ok ()) (hpq : arrange q p = List.range n) (h : Heap α) :
    ∃ b c, s.transposeAxes p = .ok b ∧ (h.placed b).transposeAxes q = .ok c ∧ c.Holds s.dims s.get := by
  obtain ⟨b,c,hb,hc,ht⟩ := hs.exists_transposeAxes_twice hr hp hq h
  have hl : s.dims.length = n := s.view.length_dims.trans hr
  have hd : arrange (List.range n) s.dims = s.dims := by rw [← hl,Permutation.arrange_range]
  rw [hpq,hd] at ht
  have hholds : ∃ d, (.ok c : Result (Block α)) = .ok d ∧ d.Holds s.dims s.get :=
    ht.exists_holds hs.span_le fun index hi => by
      rw [Permutation.restore_range (hi.length_eq.trans hl)]
      exact ⟨_,rfl,hs.get_eq hi⟩
  obtain ⟨d,hd,hh⟩ := hholds
  obtain rfl := Except.ok.inj hd
  exact ⟨b,c,hb,hc,hh⟩

/-- Permuting the axes by `p` and then by `q` is permuting them by the list that has at `k` the entry of `p` at
`q[k]`, and permuting by `p` and then by its inverse is nothing: for every view, which gets the same layout, and for
copies of every well-formed array, wherever the first copy is put. Transposing twice gives the array again. -/
theorem permutations_compose (hp : p.Perm (List.range n)) (hq : q.Perm (List.range n)) :
    (∀ k : Nat, (arrange q p)[k]? = (q[k]?).bind (p[·]?)) ∧ (∀ k i : Nat, p[k]? = some i ↔ (inverse p)[i]? = some k) ∧
    (∀ v : View, v.rank = n →
      (∃ w u, v.permuted p = .ok w ∧ w.permuted q = .ok u ∧ v.permuted (arrange q p) = .ok u) ∧
      ∃ w, v.permuted p = .ok w ∧ w.permuted (inverse p) = .ok v) ∧
    ∀ s : Snapshot α, s.WellFormed → s.rank = n → ∀ h : Heap α,
      (∃ b c, s.transposeAxes p = .ok b ∧ (h.placed b).transposeAxes q = .ok c ∧
        s.transposeAxes (arrange q p) = .ok c) ∧
      (∃ b c, s.transposeAxes p = .ok b ∧ (h.placed b).transposeAxes (inverse p) = .ok c ∧ c.Holds s.dims s.get) ∧
      ∃ b c, s.transpose = .ok b ∧ (h.placed b).transpose = .ok c ∧ c.Holds s.dims s.get := by
  have hp := Permutation.validate_eq_ok_iff.2 hp
  have hq := Permutation.validate_eq_ok_iff.2 hq
  have hi := Permutation.validate_inverse hp
  have hpi := Permutation.arrange_inverse hp
  refine ⟨fun k => ?_,fun k i => Permutation.getElem?_inverse hp,fun v hv => ⟨View.permuted_permuted hv hp hq,?_⟩,
    fun s hs hr h => ⟨?_,hs.sound.exists_transposeAxes_back hr hp hi hpi h,?_⟩⟩
  · have hlt : ∀ i ∈ q, i < p.length := by
      rw [Permutation.length_of_validate hp]
      exact (Permutation.validate_spec hq).2.2
    exact Permutation.getElem?_arrange hlt k
  · obtain ⟨w,u,hw,hu,hvu⟩ := View.permuted_permuted hv hp hi
    rw [hpi,← hv,View.permuted_range,Except.ok.injEq] at hvu
    exact ⟨w,hw,by rw [hu,hvu]⟩
  · obtain ⟨b,c,hb,hc,ht⟩ := hs.sound.exists_transposeAxes_twice hr hp hq h
    have hpq : validate (arrange q p) s.rank = .ok () := by rw [hr,Permutation.validate_arrange hp hq]
    have htr := hs.sound.tabulates_transposeAxes hpq
    obtain ⟨d,hd⟩ := htr.exists_ok fun _ _ => ⟨_,rfl⟩
    rw [hd] at htr
    exact ⟨b,c,hb,hc,by rw [hd,htr.unique ht]⟩
  · obtain ⟨b,c,hb,hc,hh⟩ := hs.sound.exists_transposeAxes_back hr (Permutation.validate_reverse n)
      (Permutation.validate_reverse n) (Permutation.arrange_reverse n) h
    have hrank : (h.placed b).rank = n := by simpa using rank_of_transposeAxes hc
    refine ⟨b,c,?_,?_,hh⟩
    · rw [transpose,hr,hb]
    · rw [transpose,hrank,hc]

def stair : Snapshot (Word ⟨true,.w8⟩) where
  heap := zigzag.heap
  view := { buffer := 0, layout := ⟨[⟨2,1⟩,⟨1,7⟩,⟨3,-2⟩]⟩, offset := 4 }

theorem stair_permutations : stair.WellFormed ∧ List.Perm [2,0,1] (List.range 3) ∧
    arrange [2,0,1] [2,0,1] = [1,2,0] ∧ inverse [2,0,1] = [1,2,0] ∧
    (∃ w u, stair.view.permuted [2,0,1] = .ok w ∧ w.permuted [2,0,1] = .ok u ∧ u.permuted [2,0,1] = .ok stair.view) ∧
    ∃ b c, stair.transposeAxes [2,0,1] = .ok b ∧ (stair.heap.placed b).transposeAxes [1,2,0] = .ok c ∧
      c.dims = [2,1,3] ∧ c.snapshot.get [1,0,2] = .ok (Word.ofInt _ 1) := by
  have h : stair.WellFormed := by decide
  have hp : List.Perm [2,0,1] (List.range 3) := by decide
  have hq : List.Perm [1,2,0] (List.range 3) := by decide
  obtain ⟨-,-,hviews,hcopies⟩ := permutations_compose (α := Word ⟨true,.w8⟩) hp hp
  obtain ⟨⟨w,u,hw,hu,hvu⟩,-⟩ := hviews stair.view rfl
  obtain ⟨-,-,hturns,-⟩ := permutations_compose (α := Word ⟨true,.w8⟩) hq hp
  obtain ⟨⟨u',v,hu',hv,hback⟩,-⟩ := hturns stair.view rfl
  obtain rfl := Except.ok.inj (hvu.symm.trans hu')
  obtain rfl := Except.ok.inj (hback.symm.trans (View.permuted_range stair.view))
  obtain ⟨-,⟨b,c,hb,hc,hh⟩,-⟩ := hcopies stair h rfl stair.heap
  have hget : stair.get [1,0,2] = .ok (Word.ofInt _ 1) := by decide
  obtain ⟨x,hx,hcx⟩ := hh.get_eq [1,0,2] (by decide)
  exact ⟨h,hp,rfl,rfl,⟨w,u,hw,hu,hv⟩,b,c,hb,hc,hh.dims_eq,by rw [hcx,← hx,hget]⟩

end Snapshot

end Strided
