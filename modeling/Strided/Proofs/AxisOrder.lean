import Mathlib.Data.List.InsertIdx
import Strided.Proofs.Composition
import Strided.Proofs.FoldAway

set_option autoImplicit false

namespace Strided

namespace Permutation

variable {β : Type} {perm : List Nat} {n k q : Nat}

/-- The order of the other axes when entry `k` and the axis `q` that it names are gone; the axes behind `q` move up. -/
def without (perm : List Nat) (k q : Nat) : List Nat := (perm.eraseIdx k).map fun p => if q < p then p-1 else p

theorem arrange_eraseIdx {xs : List β} (h : ∀ p ∈ perm, p < xs.length) (k : Nat) :
    arrange (perm.eraseIdx k) xs = (arrange perm xs).eraseIdx k := by
  refine List.ext_getElem? fun j => ?_
  rw [getElem?_arrange fun p hp => h p (List.mem_of_mem_eraseIdx hp),List.getElem?_eraseIdx,List.getElem?_eraseIdx]
  split <;> rw [getElem?_arrange h]

theorem ne_of_mem_eraseIdx (hn : perm.Nodup) (hk : perm[k]? = some q) {p : Nat} (hp : p ∈ perm.eraseIdx k) : p ≠ q := by
  rintro rfl
  obtain ⟨j,hj,hjp⟩ := List.mem_eraseIdx_iff_getElem?.1 hp
  exact hj ((List.getElem?_inj (List.getElem?_eq_some_iff.1 hjp).1 hn).1 (hjp.trans hk.symm))

theorem getElem?_eraseIdx_of_ne (xs : List β) {p : Nat} (hp : p ≠ q) :
    (xs.eraseIdx q)[if q < p then p-1 else p]? = xs[p]? := by
  rw [List.getElem?_eraseIdx]
  split_ifs
  · omega
  · rw [Nat.sub_add_cancel (by omega)]
  · rfl
  · omega

theorem arrange_without {xs : List β} (hp : validate perm n = .ok ()) (hl : xs.length = n) (hk : perm[k]? = some q) :
    arrange (without perm k q) (xs.eraseIdx q) = (arrange perm xs).eraseIdx k := by
  obtain ⟨hn,-,hlt⟩ := validate_spec hp
  rw [← arrange_eraseIdx (hl ▸ hlt),arrange,arrange,without,List.filterMap_map]
  exact List.filterMap_congr fun p hm => getElem?_eraseIdx_of_ne xs (ne_of_mem_eraseIdx hn hk hm)

theorem validate_without (hp : validate perm n = .ok ()) (hk : perm[k]? = some q) :
    validate (without perm k q) (n-1) = .ok () := by
  obtain ⟨hn,hl,hlt⟩ := validate_spec hp
  obtain ⟨hkl,hq⟩ := List.getElem?_eq_some_iff.1 hk
  have hqn : q < n := hlt q (by rw [← hq]; exact List.getElem_mem hkl)
  have hmem {p : Nat} (hm : p ∈ perm.eraseIdx k) : p ≠ q ∧ p < n :=
    ⟨ne_of_mem_eraseIdx hn hk hm,hlt p (List.mem_of_mem_eraseIdx hm)⟩
  have hnodup : (without perm k q).Nodup := by
    refine (hn.sublist (List.eraseIdx_sublist perm k)).map_on fun i hi j hj hij => ?_
    have hi := (hmem hi).1
    have hj := (hmem hj).1
    split_ifs at hij <;> omega
  have hsub : without perm k q ⊆ List.range (n-1) := fun m hm => by
    obtain ⟨p,hp,rfl⟩ := List.mem_map.1 hm
    have hp := hmem hp
    rw [List.mem_range]
    split <;> omega
  have hlen : (without perm k q).length = n-1 := by
    rw [without,List.length_map,List.length_eraseIdx_of_lt hkl,hl]
  exact validate_eq_ok_iff.2 ((hnodup.subperm hsub).perm_of_length_le (by rw [hlen,List.length_range]))

theorem getElem?_arrange_of_entry {xs : List β} (hp : validate perm n = .ok ()) (hl : xs.length = n)
    (hk : perm[k]? = some q) : (arrange perm xs)[k]? = xs[q]? := by
  rw [getElem?_arrange (hl ▸ (validate_spec hp).2.2),hk,Option.bind_some]

theorem arrange_insertIdx {xs : List β} (hp : validate perm n = .ok ()) (hl : xs.length+1 = n) (hk : perm[k]? = some q)
    (x : β) : arrange perm (xs.insertIdx q x) = (arrange (without perm k q) xs).insertIdx k x := by
  have hq : q ≤ xs.length := by
    have hq := (validate_spec hp).2.2 q (List.mem_of_getElem? hk)
    omega
  have hl : (xs.insertIdx q x).length = n := by rw [List.length_insertIdx,if_pos hq,hl]
  have herase := arrange_without hp hl hk
  have hx : (arrange perm (xs.insertIdx q x))[k]? = some x := by
    rw [getElem?_arrange_of_entry hp hl hk,List.getElem?_insertIdx_self,if_pos hq]
  obtain ⟨hlt,hx⟩ := List.getElem?_eq_some_iff.1 hx
  have hback := List.insertIdx_eraseIdx_getElem hlt
  rw [hx,← herase,List.eraseIdx_insertIdx_self] at hback
  exact hback.symm

theorem arrange_set {xs : List β} (hp : validate perm n = .ok ()) (hl : xs.length = n) (hk : perm[k]? = some q) (x : β) :
    arrange perm (xs.set q x) = (arrange perm xs).set k x := by
  obtain ⟨hn,hlen,hlt⟩ := validate_spec hp
  have hkl := (List.getElem?_eq_some_iff.1 hk).1
  refine List.ext_getElem? fun j => ?_
  rw [getElem?_arrange (by simpa [hl] using hlt),List.getElem?_set,(arrange_perm hp hl).length_eq,
    getElem?_arrange (hl ▸ hlt)]
  split
  case isTrue hj =>
    subst hj
    have hq := hlt q (List.mem_of_getElem? hk)
    rw [hk,Option.bind_some,List.getElem?_set_self (by omega),if_pos (by omega)]
  case isFalse hj =>
    cases hp : perm[j]? with
    | none => rfl
    | some p =>
      have hpq : q ≠ p := by
        rintro rfl
        exact hj ((List.getElem?_inj hkl hn).1 (hk.trans hp.symm))
      rw [Option.bind_some,Option.bind_some,List.getElem?_set_ne hpq]

theorem restore_insertIdx {index : List Nat} (hp : validate perm n = .ok ()) (hl : index.length+1 = n)
    (hk : perm[k]? = some q) (i : Nat) :
    restore perm (index.insertIdx k i) = (restore (without perm k q) index).insertIdx q i := by
  have hw := validate_without hp hk
  have hkl := (List.getElem?_eq_some_iff.1 hk).1
  have hq := (validate_spec hp).2.2 q (List.mem_of_getElem? hk)
  have hn := length_of_validate hp
  have hr : (restore (without perm k q) index).length+1 = n := by
    rw [length_restore,length_of_validate hw]
    omega
  have hi : (index.insertIdx k i).length = n := by rw [List.length_insertIdx,if_pos (by omega),hl]
  refine arrange_injective hp (by rw [length_restore,hn]) (by rw [List.length_insertIdx,if_pos (by omega),hr]) ?_
  rw [arrange_restore hp hi,arrange_insertIdx hp hr hk,arrange_restore hw (by omega)]

theorem restore_set {index : List Nat} (hp : validate perm n = .ok ()) (hl : index.length = n) (hk : perm[k]? = some q)
    (i : Nat) : restore perm (index.set k i) = (restore perm index).set q i := by
  have hr : (restore perm index).length = n := by rw [length_restore,length_of_validate hp]
  refine arrange_injective hp (by rw [length_restore,length_of_validate hp]) (by rw [List.length_set,hr]) ?_
  rw [arrange_restore hp (by rw [List.length_set,hl]),arrange_set hp hr hk,arrange_restore hp hl]

end Permutation

theorem View.permuted_spec {v w : View} {perm : List Nat} (h : v.permuted perm = .ok w) :
    Permutation.validate perm v.rank = .ok () ∧ w.dims = Permutation.arrange perm v.dims ∧ w.dims.length = v.rank := by
  obtain ⟨l,hl,h⟩ := bind_eq_ok.1 h
  obtain ⟨⟨⟩,hp,hl⟩ := bind_eq_ok.1 hl
  obtain rfl := Except.ok.inj hl
  obtain rfl := Except.ok.inj h
  refine ⟨hp,Permutation.map_arrange _ _,?_⟩
  rw [length_dims]
  exact (Permutation.arrange_perm hp rfl).length_eq

theorem Block.Tabulates.exists_permuted {α : Type} [Element α] {s : Shape} {g : List Nat → Result α} {b : Block α}
    (hb : Tabulates s g (.ok b)) (hs : s.span ≤ 2^50) (h : Heap α) {perm : List Nat}
    (hp : Permutation.validate perm s.length = .ok ()) :
    ∃ w, (h.placed b).view.permuted perm = .ok w ∧ w.dims = Permutation.arrange perm s ∧
      ∀ index, w.dims.Contains index → ((h.placed b).through w).get index = g (Permutation.restore perm index) := by
  have hd : (h.placed b).view.dims = s := hb.dims_placed h
  obtain ⟨w,hw,hwd⟩ := View.exists_permuted (v := (h.placed b).view) (by rwa [View.rank_eq hd])
  have hwd : w.dims = Permutation.arrange perm s := by rw [hwd,hd]
  refine ⟨w,hw,hwd,fun index hi => ?_⟩
  obtain ⟨hc,hget,hview⟩ := (hb.sound_placed hs h).get_restore hw hi
  have hc : s.Contains (Permutation.restore perm index) := by rwa [← hb.dims_placed h]
  rw [hview,← hget,Snapshot.get_placed,hb.get_eq hs hc]

theorem Block.Tabulates.exists_holds_permuted {α : Type} [Element α] {s : Shape} {g : List Nat → Result α}
    {r r' : Result (Block α)} {perm : List Nat} (hc : Tabulates s g r') (hs : s.span ≤ 2^50)
    (hp : Permutation.validate perm s.length = .ok ()) (hg : ∀ index, s.Contains index → ∃ x, g index = .ok x)
    (hb : Tabulates (Permutation.arrange perm s) (fun index => g (Permutation.restore perm index)) r) (h : Heap α) :
    ∃ b c w, r = .ok b ∧ r' = .ok c ∧ (h.placed c).view.permuted perm = .ok w ∧
      b.Holds w.dims ((h.placed c).through w).get := by
  obtain ⟨c,rfl⟩ := hc.exists_ok hg
  obtain ⟨w,hw,hd,hget⟩ := hc.exists_permuted hs h hp
  have hspan : w.dims.span ≤ 2^50 := by rwa [hd,Shape.span_perm (Permutation.arrange_perm hp rfl)]
  rw [← hd] at hb
  obtain ⟨b,rfl,hh⟩ : ∃ b, r = .ok b ∧ b.Holds w.dims ((h.placed c).through w).get :=
    hb.exists_holds hspan fun index hi => by
      obtain ⟨x,hx⟩ := hg _ (Shape.contains_restore hp (by rwa [← hd])).1
      exact ⟨x,hx,by rw [hget index hi,hx]⟩
  exact ⟨b,c,w,rfl,rfl,hw,hh⟩

namespace Snapshot

open Block (Tabulates)
open Permutation (arrange restore validate without)

variable {α : Type} [Element α] {s : Snapshot α} {perm : List Nat} {w : View} {k q : Nat}

/-- The lines along axis `k` of the permuted view are those along the axis that `k` comes from. -/
theorem row_permuted (hw : s.view.permuted perm = .ok w) (hk : perm[k]? = some q) {d : Nat} (hd : w.dims[k]? = some d)
    {index : List Nat} (hi : Shape.Contains (w.dims.eraseIdx k) index) :
    (s.through w).row k d index = s.row q d (restore (without perm k q) index) := by
  obtain ⟨hp,-,hrank⟩ := View.permuted_spec hw
  have hl : index.length+1 = s.view.rank := by
    have hkd := (List.getElem?_eq_some_iff.1 hd).1
    rw [hi.length_eq,List.length_eraseIdx_of_lt hkd]
    omega
  refine List.map_congr_left fun i hi' => ?_
  have hc := hi.insertIdx hd (List.mem_range.1 hi')
  rw [valueAt_of_translates (View.translates_of_permuted hw) hc,Permutation.restore_insertIdx hp hl hk]

theorem rowUpTo_permuted (hw : s.view.permuted perm = .ok w) (hk : perm[k]? = some q) {index : List Nat}
    (hi : w.dims.Contains index) : (s.through w).rowUpTo k index = s.rowUpTo q (restore perm index) := by
  obtain ⟨hp,-,hrank⟩ := View.permuted_spec hw
  have hl : index.length = s.view.rank := by rw [hi.length_eq,hrank]
  rw [rowUpTo,rowUpTo,Permutation.getElem?_restore hp hl hk]
  refine List.map_congr_left fun i hi' => ?_
  have hc := contains_set hi (Nat.le_of_lt_succ (List.mem_range.1 hi'))
  rw [valueAt_of_translates (View.translates_of_permuted hw) hc,Permutation.restore_set hp hl hk]

theorem Sound.foldAxis_permuted (hs : s.Sound) (hw : s.view.permuted perm = .ok w) (hk : perm[k]? = some q) (init : α)
    (f : α → α → α) (h : Heap α) :
    ∃ b c u, (s.through w).foldAxis init (fun x y => .ok (f x y)) k = .ok b ∧
      s.foldAxis init (fun x y => .ok (f x y)) q = .ok c ∧
      (h.placed c).view.permuted (without perm k q) = .ok u ∧ b.Holds u.dims ((h.placed c).through u).get := by
  obtain ⟨hp,hwd,-⟩ := View.permuted_spec hw
  have hl : s.view.dims.length = s.view.rank := s.view.length_dims
  have hq : q < s.view.dims.length := by rw [hl]; exact (Permutation.validate_spec hp).2.2 q (List.mem_of_getElem? hk)
  have hd : s.view.dims[q]? = some s.view.dims[q] := List.getElem?_eq_getElem hq
  have hkd : w.dims[k]? = some s.view.dims[q] := by rw [hwd,Permutation.getElem?_arrange_of_entry hp hl hk,hd]
  have hdims : w.dims.eraseIdx k = arrange (without perm k q) (s.view.dims.eraseIdx q) := by
    rw [hwd,Permutation.arrange_without hp hl hk]
  have hb := (hs.through_permuted hw).tabulates_foldAxis f init hkd
  refine Tabulates.exists_holds_permuted (hs.tabulates_foldAxis f init hd) ?_ ?_ (fun _ _ => ⟨_,rfl⟩) ?_ h
  · exact Nat.le_trans (Shape.span_eraseIdx_le s.dims q) hs.span_le
  · rw [dims,List.length_eraseIdx_of_lt hq,hl]
    exact Permutation.validate_without hp hk
  · rw [dims,← hdims]
    exact hb.congr fun index hi => by rw [row_permuted hw hk hkd hi]

theorem Sound.scanAxis_permuted (hs : s.Sound) (hw : s.view.permuted perm = .ok w) (hk : perm[k]? = some q)
    (f : α → α → α) (h : Heap α) :
    ∃ b c u, (s.through w).scanAxis (fun x y => .ok (f x y)) k = .ok b ∧
      s.scanAxis (fun x y => .ok (f x y)) q = .ok c ∧
      (h.placed c).view.permuted perm = .ok u ∧ b.Holds u.dims ((h.placed c).through u).get := by
  obtain ⟨hp,hwd,hrank⟩ := View.permuted_spec hw
  have hq : q < s.rank := (Permutation.validate_spec hp).2.2 q (List.mem_of_getElem? hk)
  have hkw : k < (s.through w).rank := by
    have hkl := (List.getElem?_eq_some_iff.1 hk).1
    rw [Permutation.length_of_validate hp,← hrank,View.length_dims] at hkl
    exact hkl
  have hb : Tabulates (s.through w).dims
      (fun index => foldRow "scan" none (fun x y => .ok (f x y)) ((s.through w).rowUpTo k index))
      ((s.through w).scanAxis (fun x y => .ok (f x y)) k) := (hs.through_permuted hw).tabulates_scanAxis hkw
  have hc : Tabulates s.dims (fun index => foldRow "scan" none (fun x y => .ok (f x y)) (s.rowUpTo q index))
      (s.scanAxis (fun x y => .ok (f x y)) q) := hs.tabulates_scanAxis hq
  refine Tabulates.exists_holds_permuted hc hs.span_le ?_ ?_ ?_ h
  · rwa [dims,View.length_dims]
  · intro index _
    obtain ⟨y,ys,-,hx⟩ := exists_foldRow_eq_foldl "scan" (s.rowUpTo_ne_nil q index) f
    exact ⟨_,hx⟩
  · rw [dims,← hwd]
    exact hb.congr fun index hi => by rw [rowUpTo_permuted hw hk hi]

/-- For every permutation of the axes of a well-formed array: folding along axis `k` of the permuted array from `init`
gives the elements that folding along the axis `perm[k]` gives when the other axes are permuted in the same order; and
scanning along axis `k` gives the permuted scan along `perm[k]`. Nothing is asked of the function. -/
theorem WellFormed.axes_permuted (hs : s.WellFormed) (hp : perm.Perm (List.range s.rank)) (hk : perm[k]? = some q)
    (init : α) (f : α → α → α) (h : Heap α) :
    ∃ w, s.view.permuted perm = .ok w ∧
      (∃ b c u, (s.through w).foldAxis init (fun x y => .ok (f x y)) k = .ok b ∧
        s.foldAxis init (fun x y => .ok (f x y)) q = .ok c ∧
        (h.placed c).view.permuted (without perm k q) = .ok u ∧ b.Holds u.dims ((h.placed c).through u).get) ∧
      ∃ b c u, (s.through w).scanAxis (fun x y => .ok (f x y)) k = .ok b ∧
        s.scanAxis (fun x y => .ok (f x y)) q = .ok c ∧
        (h.placed c).view.permuted perm = .ok u ∧ b.Holds u.dims ((h.placed c).through u).get := by
  obtain ⟨w,hw,-⟩ := View.exists_permuted (v := s.view) (Permutation.validate_eq_ok_iff.2 hp)
  exact ⟨w,hw,hs.sound.foldAxis_permuted hw hk init f h,hs.sound.scanAxis_permuted hw hk f h⟩

theorem stair_axes_permuted : stair.WellFormed ∧ List.Perm [2,0,1] (List.range stair.rank) ∧
    without [2,0,1] 1 0 = [1,0] ∧ ∃ w, stair.view.permuted [2,0,1] = .ok w ∧
      (∃ b c u, (stair.through w).foldAxis (Word.ofInt _ 0) (fun x y => .ok (x.wrappingSub y)) 1 = .ok b ∧
        stair.foldAxis (Word.ofInt _ 0) (fun x y => .ok (x.wrappingSub y)) 0 = .ok c ∧
        (stair.heap.placed c).view.permuted [1,0] = .ok u ∧
        b.snapshot.get [1,0] = .ok (Word.ofInt _ (-5)) ∧
        ((stair.heap.placed c).through u).get [1,0] = .ok (Word.ofInt _ (-5))) ∧
      ∃ b c u, (stair.through w).scanAxis (fun x y => .ok (x.wrappingSub y)) 0 = .ok b ∧
        stair.scanAxis (fun x y => .ok (x.wrappingSub y)) 2 = .ok c ∧
        (stair.heap.placed c).view.permuted [2,0,1] = .ok u ∧ b.Holds u.dims ((stair.heap.placed c).through u).get := by
  have h : stair.WellFormed := by decide
  have hp : List.Perm [2,0,1] (List.range stair.rank) := by decide
  obtain ⟨w,hw,⟨b,c,u,hb,hc,hu,hh⟩,-⟩ :=
    h.axes_permuted hp (k := 1) (q := 0) rfl (Word.ofInt _ 0) Word.wrappingSub stair.heap
  obtain ⟨w',hw',-,hscan⟩ := h.axes_permuted hp (k := 0) (q := 2) rfl (Word.ofInt _ 0) Word.wrappingSub stair.heap
  obtain rfl := Except.ok.inj (hw.symm.trans hw')
  have hvalue : (do
      let w ← stair.view.permuted [2,0,1]
      let b ← (stair.through w).foldAxis (Word.ofInt _ 0) (fun x y => .ok (x.wrappingSub y)) 1
      let x ← b.snapshot.get [1,0]
      .ok (b.dims,x)) = .ok ([3,1],Word.ofInt _ (-5)) := by decide
  rw [hw,ok_bind,hb,ok_bind] at hvalue
  obtain ⟨y,hy,hby⟩ := bind_eq_ok.1 hvalue
  obtain ⟨hd,rfl⟩ := Prod.mk.inj (Except.ok.inj hby)
  obtain ⟨x,hx,hbx⟩ := hh.get_eq [1,0] (by rw [← hh.dims_eq,hd]; decide)
  obtain rfl := Except.ok.inj (hy.symm.trans hbx)
  exact ⟨h,hp,rfl,w,hw,⟨b,c,u,hb,hc,hu,hy,hx⟩,hscan⟩

end Snapshot

end Strided
