import Strided.Proofs.Flattened
import Strided.Proofs.Order

set_option autoImplicit false

/-!
The least and the greatest element. Reducing to one of them keeps an accumulator and looks at one value after another;
a value replaces it if it is strictly less, or greater, and also if it does not equal itself. So the first of equal values
stays, and a value that is not ordered stays once it has come up, since nothing is less than it. The same is true of
every line along an axis.
-/
namespace Strided

variable {α : Type} {same less : α → α → Bool}

/-- What a row has as its first least element, in the order of `less`. It is a value without a place in the order just
when the row holds one. -/
structure FirstLeast (same less : α → α → Bool) (xs : List α) (m : α) : Prop where
  unordered_iff : same m m = false ↔ ∃ x ∈ xs, same x x = false
  first : (∀ x ∈ xs, same x x = true) → ∃ k, xs[k]? = some m ∧ (∀ x ∈ xs, AtMost same less m x) ∧
    ∀ (j : Nat) (y : α), j < k → xs[j]? = some y → ∃ x ∈ xs, ¬AtMost same less y x

def prefer (same less : α → α → Bool) (acc x : α) : α := if less x acc || !same x x then x else acc

def Reduction.preferring (name : String) (same less : α → α → Bool) : Reduction α where
  name := name
  identity := none
  combine acc x := .ok (prefer same less acc x)

theorem Reduction.min_eq [Comparable α] :
    (Reduction.min : Reduction α) = .preferring "min" Comparable.same Comparable.less := rfl

theorem Reduction.max_eq [Comparable α] :
    (Reduction.max : Reduction α) = .preferring "max" Comparable.same fun x y => Comparable.less y x := rfl

namespace FirstLeast

variable {xs : List α} {acc x : α}

theorem singleton (same less : α → α → Bool) (x : α) : FirstLeast same less [x] x where
  unordered_iff := by simp
  first hx := by
    refine ⟨0,rfl,fun y hy => ?_,fun j y hj => absurd hj (Nat.not_lt_zero j)⟩
    obtain rfl := List.mem_singleton.1 hy
    exact Or.inr (hx y hy)

theorem append_unordered (xs : List α) (hx : same x x = false) : FirstLeast same less (xs++[x]) x where
  unordered_iff := iff_of_true hx ⟨x,by simp,hx⟩
  first ho := absurd (ho x (by simp)) (by simp [hx])

theorem append_less (h : LinearlyOrdered same less) (hm : FirstLeast same less xs acc) (hl : less x acc = true) :
    FirstLeast same less (xs++[x]) x := by
  obtain ⟨hle,hnot⟩ := (h.less_iff x acc).1 hl
  have hx := h.same_left hle
  constructor
  case unordered_iff =>
    have hnone : ¬∃ y ∈ xs, same y y = false := fun he => by simpa [h.same_right hle] using hm.unordered_iff.2 he
    simpa [hx] using hnone
  case first =>
    intro ho
    obtain ⟨-,-,hmin,-⟩ := hm.first fun y hy => ho y (List.mem_append_left _ hy)
    refine ⟨xs.length,by simp,fun y hy => ?_,fun j y hj hy => ⟨x,by simp,fun hyx => ?_⟩⟩
    · rcases List.mem_append.1 hy with hy | hy
      · exact h.trans x acc y hle (hmin y hy)
      · obtain rfl := List.mem_singleton.1 hy
        exact Or.inr hx
    · -- An earlier value is not less than the accumulator, so it is not at most the new value either.
      rw [List.getElem?_append_left hj] at hy
      exact hnot (h.trans acc y x (hmin y (List.mem_of_getElem? hy)) hyx)

theorem append_of_not_less (h : LinearlyOrdered same less) (hm : FirstLeast same less xs acc) (hx : same x x = true)
    (hl : ¬less x acc = true) : FirstLeast same less (xs++[x]) acc where
  unordered_iff := by
    rw [hm.unordered_iff]
    simp [or_and_right,exists_or,hx]
  first ho := by
    have ho' : ∀ y ∈ xs, same y y = true := fun y hy => ho y (List.mem_append_left _ hy)
    obtain ⟨k,hk,hmin,hfirst⟩ := hm.first ho'
    refine ⟨k,?_,fun y hy => ?_,fun j y hj hy => ?_⟩
    · rw [List.getElem?_append_left (List.getElem?_eq_some_iff.1 hk).1,hk]
    · rcases List.mem_append.1 hy with hy | hy
      · exact hmin y hy
      · exact List.mem_singleton.1 hy ▸ h.atMost_of_not_less hx (ho' acc (List.mem_of_getElem? hk)) hl
    · rw [List.getElem?_append_left (hj.trans (List.getElem?_eq_some_iff.1 hk).1)] at hy
      obtain ⟨z,hz,hyz⟩ := hfirst j y hj hy
      exact ⟨z,List.mem_append_left _ hz,hyz⟩

theorem append (h : LinearlyOrdered same less) (hm : FirstLeast same less xs acc) (x : α) :
    FirstLeast same less (xs++[x]) (prefer same less acc x) := by
  rw [prefer]
  split
  · rename_i hp
    rcases Bool.or_eq_true_iff.1 hp with hl | hx
    · exact hm.append_less h hl
    · exact append_unordered xs (by simpa using hx)
  · rename_i hp
    simp only [Bool.or_eq_true,Bool.not_eq_true',not_or,Bool.not_eq_false] at hp
    exact hm.append_of_not_less h hp.2 hp.1

theorem foldl (h : LinearlyOrdered same less) (hm : FirstLeast same less xs acc) (ys : List α) :
    FirstLeast same less (xs++ys) (ys.foldl (prefer same less) acc) := by
  induction ys generalizing xs acc with
  | nil => simpa using hm
  | cons y ys ih => simpa using ih (hm.append h y)

theorem foldRow (h : LinearlyOrdered same less) (name : String) (hx : xs ≠ []) :
    ∃ m, Snapshot.foldRow name none (fun acc x => .ok (prefer same less acc x)) xs = .ok m ∧
      FirstLeast same less xs m := by
  obtain ⟨y,ys,rfl,hf⟩ := Snapshot.exists_foldRow_eq_foldl name hx (prefer same less)
  exact ⟨_,hf,(singleton same less y).foldl h ys⟩

end FirstLeast

namespace Snapshot

variable [Element α] {s : Snapshot α}

theorem Sound.reduceWith_preferring (hs : s.Sound) (h : LinearlyOrdered same less) (name : String) (hz : 0 ∉ s.dims) :
    ∃ m, s.reduceWith (.preferring name same less) = .ok m ∧ FirstLeast same less s.values m := by
  have hne : s.values ≠ [] := by
    rw [← List.length_pos_iff,length_values]
    exact Nat.pos_of_ne_zero fun he => hz ((Shape.volume_eq_zero_iff _).1 he)
  rw [hs.reduceWith_eq]
  exact FirstLeast.foldRow h name hne

theorem Sound.reduceWith_preferring_empty (hs : s.Sound) (name : String) (hz : 0 ∈ s.dims) :
    s.reduceWith (.preferring name same less) = refuse (.emptyReduction name) := by
  have hnil : s.values = [] := by
    rw [← List.length_eq_zero_iff,length_values]
    exact (Shape.volume_eq_zero_iff _).2 hz
  rw [hs.reduceWith_eq,hnil]
  rfl

/-- The array without an axis holds the first least element of every line along it. -/
structure LeastAlong (s : Snapshot α) (same less : α → α → Bool) (axis d : Nat) (b : Block α) : Prop where
  dims_eq : b.dims = s.dims.eraseIdx axis
  least : ∀ index, Shape.Contains (s.dims.eraseIdx axis) index →
    ∃ xs m, s.line axis d index = .ok xs ∧ b.snapshot.get index = .ok m ∧ FirstLeast same less xs m

theorem Sound.reduceAxis_preferring (hs : s.Sound) (h : LinearlyOrdered same less) (name : String) {axis d : Nat}
    (hd : s.dims[axis]? = some d) (hpos : 0 < d) :
    ∃ b, s.reduceAxis (.preferring name same less) axis = .ok b ∧ s.LeastAlong same less axis d b := by
  have ht : Block.Tabulates (s.dims.eraseIdx axis)
      (fun index => foldRow name none (fun acc x => .ok (prefer same less acc x)) (s.row axis d index))
      (s.reduceAxis (.preferring name same less) axis) := hs.tabulates_foldAlong hd fun _ => Nat.ne_of_gt hpos
  have hrow (index : List Nat) := FirstLeast.foldRow h name (s.row_ne_nil axis hpos index)
  obtain ⟨b,hb⟩ := ht.exists_ok fun index _ => ⟨_,(hrow index).choose_spec.1⟩
  rw [hb] at ht
  refine ⟨b,hb,ht.dims_eq,fun index hi => ?_⟩
  obtain ⟨m,hm,hleast⟩ := hrow index
  have hspan := Nat.le_trans (Shape.span_eraseIdx_le s.dims axis) hs.span_le
  exact ⟨_,m,hs.line_eq hd hi,by rw [ht.get_eq hspan hi,hm],hleast⟩

/-- A well-formed array whose elements compare linearly, apart from those that do not equal themselves, has as its least
element the first one in row-major order that is at most every element, and as its greatest the first that is at least
every element; both are unordered values just when the array holds one. Without elements there are neither. Along an
axis that is not empty the same holds of every line. -/
theorem WellFormed.extrema [Comparable α] (h : Comparable.Linear α) (hs : s.WellFormed) :
    (0 ∈ s.dims → s.min = refuse (.emptyReduction "min") ∧ s.max = refuse (.emptyReduction "max")) ∧
    (0 ∉ s.dims → ∃ xs m m', s.dims.indices.mapM s.get = .ok xs ∧ s.min = .ok m ∧ s.max = .ok m' ∧
      FirstLeast Comparable.same Comparable.less xs m ∧
      FirstLeast Comparable.same (fun x y => Comparable.less y x) xs m') ∧
    ∀ axis d, s.dims[axis]? = some d → 0 < d →
      ∃ b b', s.reduceAxis Reduction.min axis = .ok b ∧ s.reduceAxis Reduction.max axis = .ok b' ∧
        s.LeastAlong Comparable.same Comparable.less axis d b ∧
        s.LeastAlong Comparable.same (fun x y => Comparable.less y x) axis d b' := by
  have hsound : s.Sound := hs.sound
  rw [Reduction.min_eq,Reduction.max_eq]
  refine ⟨fun hz => ?_,fun hz => ?_,fun axis d hd hpos => ?_⟩
  · exact ⟨hsound.reduceWith_preferring_empty "min" hz,hsound.reduceWith_preferring_empty "max" hz⟩
  · obtain ⟨m,hm,hleast⟩ := hsound.reduceWith_preferring h "min" hz
    obtain ⟨m',hm',hgreatest⟩ := hsound.reduceWith_preferring h.flip "max" hz
    exact ⟨s.values,m,m',hsound.mapM_get,hm,hm',hleast,hgreatest⟩
  · obtain ⟨b,hb,hleast⟩ := hsound.reduceAxis_preferring h "min" hd hpos
    obtain ⟨b',hb',hgreatest⟩ := hsound.reduceAxis_preferring h.flip "max" hd hpos
    exact ⟨b,b',hb,hb',hleast,hgreatest⟩

/-- One and what is not a number, and below them both zeros, the negative one last. -/
def murky : Snapshot Float where
  heap := ⟨#[#[.ofBits 0x3ff0000000000000,.ofBits 0x7ff8000000000000,.ofBits 0,.ofBits 0x8000000000000000]]⟩
  view := { buffer := 0, layout := ⟨[⟨2,2⟩,⟨2,1⟩]⟩, offset := 0 }

theorem murky_extrema : Comparable.Linear Float ∧ murky.WellFormed ∧
    (∃ m, murky.min = .ok m ∧ Comparable.same m m = false) ∧ murky.dims[1]? = some 2 ∧
    ∃ b, murky.reduceAxis Reduction.min 1 = .ok b ∧ b.snapshot.get [1] = .ok (.ofBits 0) := by
  have hw : murky.WellFormed := by decide
  have hd : murky.dims[1]? = some 2 := by decide
  have hall : murky.dims.indices.mapM murky.get =
      .ok [.ofBits 0x3ff0000000000000,.ofBits 0x7ff8000000000000,.ofBits 0,.ofBits 0x8000000000000000] := by decide
  have hline : murky.line 1 2 [1] = .ok [.ofBits 0,.ofBits 0x8000000000000000] := by decide
  obtain ⟨-,hvalues,halong⟩ := WellFormed.extrema Floating.double_linear hw
  obtain ⟨xs,m,-,hxs,hm,-,hleast,-⟩ := hvalues (by decide)
  rw [hall,Except.ok.injEq] at hxs
  subst hxs
  obtain ⟨b,-,hb,-,hrows,-⟩ := halong 1 2 hd (by decide)
  obtain ⟨xs,z,hxs,hz,hfirst⟩ := hrows.least [1] (by decide)
  rw [hline,Except.ok.injEq] at hxs
  subst hxs
  -- Both zeros are at most each other, so the first of them is found.
  obtain ⟨k,hk,-,hbefore⟩ := hfirst.first (by decide)
  have hk0 : k = 0 := by
    by_contra hne
    exact absurd (hbefore 0 _ (Nat.pos_of_ne_zero hne) rfl) (by decide)
  subst hk0
  refine ⟨Floating.double_linear,hw,⟨m,hm,hleast.unordered_iff.2 ?_⟩,hd,b,hb,?_⟩
  · exact ⟨_,List.mem_cons_of_mem _ List.mem_cons_self,by decide⟩
  · rw [hz,← Option.some.inj hk]

end Snapshot

end Strided
