import Strided.Proofs.Distance
import Strided.Proofs.Validation

set_option autoImplicit false

/-!
Indices under another order of the axes and under stretched axes. Axes and coordinates that are permuted alike lead to
the same cell. An index of stretched axes leads where the index does that is left when the coordinates of the new axes
are dropped and those of the stretched ones are 0.
-/
namespace Strided

namespace Permutation

variable {β γ : Type} {perm : List Nat} {n : Nat}

theorem validate_spec (h : validate perm n = .ok ()) : perm.Nodup ∧ perm.length = n ∧ ∀ p ∈ perm, p < n := by
  obtain ⟨hl,hn,hlt⟩ := perm_range_iff_nodup.1 (validate_eq_ok_iff.1 h)
  exact ⟨hn,hl,hlt⟩

theorem perm_range_of_validate (h : validate perm n = .ok ()) : perm.Perm (List.range n) := validate_eq_ok_iff.1 h

theorem arrange_range (xs : List β) : arrange (List.range xs.length) xs = xs := by
  induction xs with
  | nil => rfl
  | cons x xs ih =>
    simp only [arrange] at ih
    simp [arrange,List.range_succ_eq_map,List.filterMap_map,ih]

theorem arrange_perm {xs : List β} (h : validate perm n = .ok ()) (hl : xs.length = n) : (arrange perm xs).Perm xs := by
  have hp := (perm_range_of_validate h).filterMap (xs[·]?)
  have hr := arrange_range xs
  simp only [arrange] at hr ⊢
  rwa [← hl,hr] at hp

theorem arrange_cons {xs : List β} {p : Nat} {x : β} (h : xs[p]? = some x) (ps : List Nat) :
    arrange (p :: ps) xs = x :: arrange ps xs := by
  simp [arrange,h]

theorem getElem?_arrange {xs : List β} (h : ∀ p ∈ perm, p < xs.length) (k : Nat) :
    (arrange perm xs)[k]? = perm[k]?.bind (xs[·]?) := by
  induction perm generalizing k with
  | nil => simp [arrange]
  | cons p ps ih =>
    rw [arrange_cons (List.getElem?_eq_getElem (h p (by simp)))]
    cases k with
    | zero => simp [h p]
    | succ k => simpa using ih (fun q hq => h q (by simp [hq])) k

theorem map_arrange (f : β → γ) (xs : List β) : (arrange perm xs).map f = arrange perm (xs.map f) := by
  simp [arrange,List.map_filterMap]

theorem arrange_zip {xs : List β} {ys : List γ} (h : ∀ p ∈ perm, p < xs.length) (hl : ys.length = xs.length) :
    (arrange perm xs).zip (arrange perm ys) = arrange perm (xs.zip ys) := by
  induction perm with
  | nil => rfl
  | cons p ps ih =>
    have hp := h p (by simp)
    have hx := List.getElem?_eq_getElem hp
    have hy : ys[p]? = some ys[p] := List.getElem?_eq_getElem (by omega)
    have hz : (xs.zip ys)[p]? = some (xs[p],ys[p]) := List.getElem?_zip_eq_some.2 ⟨hx,hy⟩
    rw [arrange_cons hx,arrange_cons hy,arrange_cons hz,List.zip_cons_cons,ih fun q hq => h q (by simp [hq])]

/-- The list whose entry at `perm[k]` is entry `k` of `xs`. -/
def restore (perm xs : List Nat) : List Nat := (List.range perm.length).map fun p => (xs[perm.idxOf p]?).getD 0

theorem getElem?_restore {xs : List Nat} (h : validate perm n = .ok ()) (hl : xs.length = n) {k p : Nat}
    (hp : perm[k]? = some p) : (restore perm xs)[p]? = xs[k]? := by
  obtain ⟨hn,hlen,hlt⟩ := validate_spec h
  obtain ⟨hk,hp⟩ := List.getElem?_eq_some_iff.1 hp
  have hr : p < perm.length := by rw [hlen]; exact hlt p (by rw [← hp]; exact List.getElem_mem hk)
  have hi : perm.idxOf p = k := by rw [← hp]; exact hn.idxOf_getElem k hk
  have hkx : k < xs.length := by omega
  simp [restore,hr,hi,hkx]

theorem arrange_restore {xs : List Nat} (h : validate perm n = .ok ()) (hl : xs.length = n) :
    arrange perm (restore perm xs) = xs := by
  obtain ⟨-,hlen,hlt⟩ := validate_spec h
  have hr : ∀ p ∈ perm, p < (restore perm xs).length := by simpa [restore,hlen] using hlt
  refine List.ext_getElem? fun k => ?_
  rw [getElem?_arrange hr]
  cases hp : perm[k]? with
  | none =>
    have hk := List.getElem?_eq_none_iff.1 hp
    simp [show xs.length ≤ k by omega]
  | some p => exact getElem?_restore h hl hp

end Permutation

namespace Shape

theorem contains_iff_zip {s : Shape} {index : List Nat} :
    s.Contains index ↔ index.length = s.length ∧ ∀ p ∈ s.zip index, p.2 < p.1 := by
  induction s generalizing index with
  | nil => cases index <;> simp [Contains]
  | cons d s ih => cases index <;> simp [Contains,ih,and_left_comm]

theorem contains_arrange {s : Shape} {perm index : List Nat} (hp : Permutation.validate perm s.length = .ok ())
    (hl : index.length = s.length) :
    Contains (Permutation.arrange perm s) (Permutation.arrange perm index) ↔ s.Contains index := by
  have hzip : (Permutation.arrange perm (s.zip index)).Perm (s.zip index) :=
    Permutation.arrange_perm hp (by simp [hl])
  rw [contains_iff_zip,contains_iff_zip,Permutation.arrange_zip (Permutation.validate_spec hp).2.2 hl,
    (Permutation.arrange_perm hp rfl).length_eq,(Permutation.arrange_perm hp hl).length_eq]
  simp only [hzip.mem_iff]

theorem span_perm {s t : Shape} (h : s.Perm t) : s.span = t.span := by
  induction h with
  | nil => rfl
  | cons d _ ih => simp only [span,ih]
  | swap d e s => simp only [span,Nat.mul_left_comm]
  | trans _ _ ih ih' => exact ih.trans ih'

theorem contains_reverse {s : Shape} {index : List Nat} : Contains s.reverse index.reverse ↔ s.Contains index := by
  simp only [contains_iff_zip,List.length_reverse,and_congr_right_iff]
  intro hl
  have hz : s.reverse.zip index.reverse = (s.zip index).reverse := (List.reverse_zipWith hl.symm).symm
  simp [hz]

/-- The index of an array that an index of a stretched view of it reads. The coordinates of new axes are dropped, and
along an axis of extent 1 there is only the coordinate 0. -/
def restrict (s : Shape) (index : List Nat) : List Nat :=
  List.zipWith (fun d i => if d = 1 then 0 else i) s (index.drop (index.length-s.length))

def restrictReversed (s : Shape) (index : List Nat) : List Nat :=
  List.zipWith (fun d i => if d = 1 then 0 else i) s index

theorem reverse_restrict {s : Shape} {index : List Nat} (hl : s.length ≤ index.length) :
    (s.restrict index).reverse = restrictReversed s.reverse index.reverse := by
  have hd : s.length = (index.drop (index.length-s.length)).length := by simp; omega
  have ht : restrictReversed s.reverse index.reverse =
      restrictReversed (s.reverse.take (min s.reverse.length index.reverse.length))
        (index.reverse.take (min s.reverse.length index.reverse.length)) := List.zipWith_eq_zipWith_take_min
  have hs : s.reverse.take s.length = s.reverse := List.take_of_length_le (by simp)
  rw [ht,restrict,List.reverse_zipWith hd,← List.take_reverse]
  simp [restrictReversed,Nat.min_eq_left hl,hs]

end Shape

namespace Layout

theorem distanceAlong_eq_foldr (axes : List Axis) (index : List Nat) :
    distanceAlong axes index = (axes.zip index).foldr (fun p x => (p.2 : Int)*p.1.stride+x) 0 := by
  induction axes generalizing index with
  | nil => rfl
  | cons a axes ih => cases index <;> simp [distanceAlong,ih]

/-- The same coordinates along the same axes lead to the same cell, in whatever order the axes are. -/
theorem distanceAlong_eq_of_perm {axes axes' : List Axis} {index index' : List Nat}
    (h : (axes.zip index).Perm (axes'.zip index')) : distanceAlong axes index = distanceAlong axes' index' := by
  rw [distanceAlong_eq_foldr,distanceAlong_eq_foldr]
  exact h.foldr_eq' (fun p _ q _ x => Int.add_left_comm (q.2*q.1.stride) (p.2*p.1.stride) x) 0

theorem distanceAlong_arrange {axes : List Axis} {perm index : List Nat}
    (hp : Permutation.validate perm axes.length = .ok ()) (hl : index.length = axes.length) :
    distanceAlong (Permutation.arrange perm axes) (Permutation.arrange perm index) = distanceAlong axes index := by
  have hzip : (Permutation.arrange perm (axes.zip index)).Perm (axes.zip index) :=
    Permutation.arrange_perm hp (by simp [hl])
  rw [← Permutation.arrange_zip (Permutation.validate_spec hp).2.2 hl] at hzip
  exact distanceAlong_eq_of_perm hzip

theorem distanceAlong_reverse {axes : List Axis} {index : List Nat} (hl : index.length = axes.length) :
    distanceAlong axes.reverse index.reverse = distanceAlong axes index := by
  have hz : axes.reverse.zip index.reverse = (axes.zip index).reverse := (List.reverse_zipWith hl.symm).symm
  have hp := List.reverse_perm (axes.zip index)
  rw [← hz] at hp
  exact distanceAlong_eq_of_perm hp

/-- What becomes of axes that are stretched, the innermost first: an axis is kept, or it has extent 1 and stands still,
and further out there are new axes, which stand still. -/
inductive Stretches : List Axis → Shape → List Axis → Prop
  | fresh (target : Shape) : Stretches [] target (target.map (⟨·,0⟩))
  | keep {axes axes' : List Axis} {target : Shape} (a : Axis) :
      Stretches axes target axes' → Stretches (a :: axes) (a.extent :: target) (a :: axes')
  | still {axes axes' : List Axis} {target : Shape} {a : Axis} {d : Nat} (ha : a.extent = 1) (hd : d ≠ 1) :
      Stretches axes target axes' → Stretches (a :: axes) (d :: target) (⟨d,0⟩ :: axes')

theorem stretchReversed_eq_some_iff {axes axes' : List Axis} {target : Shape} :
    stretchReversed axes target = some axes' ↔ Stretches axes target axes' := by
  constructor
  · intro h
    induction axes generalizing target axes' with
    | nil =>
      simp only [stretchReversed,Option.some.injEq] at h
      exact h ▸ .fresh target
    | cons a axes ih =>
      cases target with
      | nil => simp [stretchReversed] at h
      | cons d target =>
        by_cases he : a.extent = d
        · simp only [stretchReversed,he,↓reduceIte,Option.bind_eq_bind,Option.bind_some,Option.bind_eq_some_iff,
            Option.some.injEq] at h
          obtain ⟨rest,hrest,rfl⟩ := h
          exact he ▸ .keep a (ih hrest)
        · by_cases h1 : a.extent = 1
          · simp only [stretchReversed,if_neg he,if_pos h1,Option.bind_eq_bind,Option.bind_some,
              Option.bind_eq_some_iff,Option.some.injEq] at h
            obtain ⟨rest,hrest,rfl⟩ := h
            exact .still h1 (by omega) (ih hrest)
          · simp [stretchReversed,he,h1] at h
  · intro h
    induction h with
    | fresh target => rfl
    | keep a _ ih => simp [stretchReversed,ih]
    | still ha hd _ ih => simp [stretchReversed,ih,ha,Ne.symm hd]

namespace Stretches

variable {axes axes' : List Axis} {target : Shape}

theorem map_extent (h : Stretches axes target axes') : axes'.map Axis.extent = target := by
  induction h with
  | fresh target => simp [Function.comp_def]
  | keep a _ ih => simp [ih]
  | still _ _ _ ih => simp [ih]

theorem length_le (h : Stretches axes target axes') : axes.length ≤ target.length := by
  induction h with
  | fresh target => exact Nat.zero_le _
  | keep a _ ih => exact Nat.succ_le_succ ih
  | still _ _ _ ih => exact Nat.succ_le_succ ih

theorem sum_map_le (h : Stretches axes target axes') {m : Axis → Nat} (hm : ∀ d, m ⟨d,0⟩ = 0) :
    (axes'.map m).sum ≤ (axes.map m).sum := by
  induction h with
  | fresh target => simp [Function.comp_def,hm]
  | keep a _ ih => simpa using ih
  | still _ _ _ ih =>
    simp only [List.map_cons,List.sum_cons,hm]
    omega

theorem mem (h : Stretches axes target axes') {a : Axis} (ha : a ∈ axes') : a ∈ axes ∨ a.stride = 0 := by
  induction h with
  | fresh target =>
    obtain ⟨d,-,rfl⟩ := List.mem_map.1 ha
    exact Or.inr rfl
  | keep b _ ih => grind
  | still _ _ _ ih => grind

theorem distanceAlong_eq (h : Stretches axes target axes') {index : List Nat} (hi : target.Contains index) :
    Shape.Contains (axes.map Axis.extent) (Shape.restrictReversed (axes.map Axis.extent) index) ∧
      distanceAlong axes (Shape.restrictReversed (axes.map Axis.extent) index) = distanceAlong axes' index := by
  induction h generalizing index with
  | fresh target =>
    refine ⟨trivial,Eq.symm ?_⟩
    induction target generalizing index with
    | nil => cases index <;> rfl
    | cons d target ih =>
      cases index with
      | nil => exact hi.elim
      | cons i index => simpa [distanceAlong] using ih hi.2
  | keep a _ ih =>
    cases index with
    | nil => exact hi.elim
    | cons i index =>
      obtain ⟨hc,hd⟩ := ih hi.2
      have hia : i < a.extent := hi.1
      -- Along an axis of extent 1 that is kept the coordinate is 0 already.
      have hk : (if a.extent = 1 then 0 else i) = i := by
        split <;> omega
      simp only [Shape.restrictReversed,List.map_cons,List.zipWith_cons_cons,hk]
      exact ⟨⟨hia,hc⟩,by rw [distanceAlong,distanceAlong,← hd]; rfl⟩
  | still ha _ _ ih =>
    cases index with
    | nil => exact hi.elim
    | cons i index =>
      obtain ⟨hc,hd⟩ := ih hi.2
      simp only [Shape.restrictReversed,List.map_cons,List.zipWith_cons_cons,ha,↓reduceIte]
      exact ⟨⟨Nat.one_pos,hc⟩,by rw [distanceAlong,distanceAlong,← hd]; simp [Shape.restrictReversed]⟩

end Stretches

theorem broadcastTo_eq_ok_iff {l l' : Layout} {target : Shape} :
    l.broadcastTo target = .ok l' ↔ Stretches l.axes.reverse target.reverse l'.axes.reverse := by
  rw [← stretchReversed_eq_some_iff,broadcastTo]
  cases stretchReversed l.axes.reverse target.reverse with
  | none => simp [refuse]
  | some axes =>
    cases l' with
    | mk axes' => simp [List.reverse_eq_iff]

theorem distance_permuted {l l' : Layout} {perm index : List Nat} (h : l.permuted perm = .ok l')
    (hi : l'.dims.Contains index) :
    l.dims.Contains (Permutation.restore perm index) ∧
      l.distance (Permutation.restore perm index) = l'.distance index := by
  obtain ⟨⟨⟩,hp,h⟩ := bind_eq_ok.1 h
  obtain rfl := Except.ok.inj h
  have hd : l.dims.length = l.axes.length := List.length_map _
  have hl : index.length = l.axes.length := by
    rw [hi.length_eq,dims,List.length_map,(Permutation.arrange_perm hp rfl).length_eq]
  have hr : (Permutation.restore perm index).length = l.axes.length := by
    rw [Permutation.restore,List.length_map,List.length_range,(Permutation.validate_spec hp).2.1,rank]
  have ha := Permutation.arrange_restore hp hl
  rw [← ha,dims,Permutation.map_arrange] at hi
  refine ⟨(Shape.contains_arrange (by rwa [hd]) (by rw [hr,hd])).1 hi,?_⟩
  rw [distance,distance,← distanceAlong_arrange hp hr,ha]

theorem dims_of_broadcastTo {l l' : Layout} {target : Shape} (h : l.broadcastTo target = .ok l') : l'.dims = target := by
  have hm := (broadcastTo_eq_ok_iff.1 h).map_extent
  rwa [List.map_reverse,List.reverse_inj] at hm

theorem distance_broadcastTo {l l' : Layout} {target : Shape} {index : List Nat} (h : l.broadcastTo target = .ok l')
    (hi : l'.dims.Contains index) :
    l.dims.Contains (l.dims.restrict index) ∧ l.distance (l.dims.restrict index) = l'.distance index := by
  have hst := broadcastTo_eq_ok_iff.1 h
  have hle := hst.length_le
  have hd := dims_of_broadcastTo h
  have hd' : l'.axes.length = target.length := by rw [← hd,dims,List.length_map]
  have hl : l.dims.length ≤ index.length := by
    rw [hi.length_eq,hd]
    simpa [dims] using hle
  rw [hd] at hi
  obtain ⟨hc,hx⟩ := hst.distanceAlong_eq (Shape.contains_reverse.2 hi)
  rw [List.map_reverse,← dims,← Shape.reverse_restrict hl] at hc hx
  have hc := Shape.contains_reverse.1 hc
  have hr : (l.dims.restrict index).length = l.axes.length := by rw [hc.length_eq,dims,List.length_map]
  rw [distanceAlong_reverse hr,distanceAlong_reverse (by rw [hi.length_eq,hd'])] at hx
  exact ⟨hc,hx⟩

end Layout

end Strided
