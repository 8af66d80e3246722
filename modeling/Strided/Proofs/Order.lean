import Mathlib.Data.Int.CharZero
import Mathlib.Data.Prod.Lex
import Strided.Element
import Strided.Number.Complex
import Strided.Number.Word

set_option autoImplicit false

namespace Strided

variable {α : Type} {same less : α → α → Bool}

def AtMost (same less : α → α → Bool) (x y : α) : Prop := less x y = true ∨ same x y = true

instance (same less : α → α → Bool) (x y : α) : Decidable (AtMost same less x y) := inferInstanceAs (Decidable (_ ∨ _))

/-- The values that equal themselves are ordered linearly, by a preorder of which `less` is the strict part and `same`
the equivalence. No comparison is true of any other value. -/
structure LinearlyOrdered (same less : α → α → Bool) : Prop where
  total : ∀ x y, same x x = true → same y y = true → AtMost same less x y ∨ AtMost same less y x
  trans : ∀ x y z, AtMost same less x y → AtMost same less y z → AtMost same less x z
  less_iff : ∀ x y, less x y = true ↔ AtMost same less x y ∧ ¬AtMost same less y x
  same_iff : ∀ x y, same x y = true ↔ AtMost same less x y ∧ AtMost same less y x
  unordered : ∀ x y, same x x = false ∨ same y y = false → ¬AtMost same less x y

def Keyed {β : Type} (r : β → β → Prop) : Option β → Option β → Prop
  | some a, some b => r a b
  | _, _ => False

namespace LinearlyOrdered

theorem same_comm (h : LinearlyOrdered same less) (x y : α) : same x y = same y x := by
  rw [Bool.eq_iff_iff,h.same_iff,h.same_iff]
  exact and_comm

theorem atMost_flip (h : LinearlyOrdered same less) (x y : α) :
    AtMost same (fun x y => less y x) x y ↔ AtMost same less y x := by
  rw [AtMost,h.same_comm]
  rfl

theorem flip (h : LinearlyOrdered same less) : LinearlyOrdered same fun x y => less y x where
  total x y hx hy := by
    rw [h.atMost_flip,h.atMost_flip]
    exact h.total y x hy hx
  trans x y z := by
    rw [h.atMost_flip,h.atMost_flip,h.atMost_flip]
    exact fun hxy hyz => h.trans z y x hyz hxy
  less_iff x y := by
    rw [h.atMost_flip,h.atMost_flip]
    exact h.less_iff y x
  same_iff x y := by
    rw [h.atMost_flip,h.atMost_flip,h.same_iff]
    exact and_comm
  unordered x y hxy := by
    rw [h.atMost_flip]
    exact h.unordered y x hxy.symm

theorem same_left (h : LinearlyOrdered same less) {x y : α} (hxy : AtMost same less x y) : same x x = true := by
  rw [← Bool.not_eq_false]
  exact fun hx => h.unordered x y (Or.inl hx) hxy

theorem same_right (h : LinearlyOrdered same less) {x y : α} (hxy : AtMost same less x y) : same y y = true := by
  rw [← Bool.not_eq_false]
  exact fun hy => h.unordered x y (Or.inr hy) hxy

theorem atMost_of_not_less (h : LinearlyOrdered same less) {x y : α} (hx : same x x = true) (hy : same y y = true)
    (hl : ¬less x y = true) : AtMost same less y x := by
  rw [h.less_iff,not_and,not_not] at hl
  exact (h.total x y hx hy).elim hl id

/-- Values are compared by keys from a linear order, as far as they have one. -/
theorem of_key {β : Type} [LinearOrder β] (key : α → Option β)
    (hs : ∀ x y, same x y = true ↔ Keyed (· = ·) (key x) (key y))
    (hl : ∀ x y, less x y = true ↔ Keyed (· < ·) (key x) (key y)) : LinearlyOrdered same less := by
  have ha (x y : α) : AtMost same less x y ↔ Keyed (· ≤ ·) (key x) (key y) := by
    rw [AtMost,hs,hl]
    cases key x <;> cases key y <;> simp only [Keyed,le_iff_lt_or_eq,or_self]
  constructor
  case total =>
    intro x y hx hy
    rw [hs] at hx hy
    rw [ha,ha]
    match key x, key y, hx, hy with
    | some a, some b, _, _ => exact le_total a b
  case trans =>
    intro x y z hxy hyz
    rw [ha] at hxy hyz ⊢
    match key x, key y, key z, hxy, hyz with
    | some _, some _, some _, hxy, hyz => exact le_trans hxy hyz
  case less_iff =>
    intro x y
    rw [hl,ha,ha]
    cases key x <;> cases key y <;> simp only [Keyed,lt_iff_le_not_ge,false_and]
  case same_iff =>
    intro x y
    rw [hs,ha,ha]
    cases key x <;> cases key y <;> simp only [Keyed,le_antisymm_iff,and_self]
  case unordered =>
    intro x y hxy hle
    rw [← Bool.not_eq_true,← Bool.not_eq_true,hs,hs] at hxy
    rw [ha] at hle
    match key x, key y, hxy, hle with
    | some _, some _, hxy, _ => exact hxy.elim (fun h => h rfl) fun h => h rfl

end LinearlyOrdered

def Comparable.Linear (α : Type) [Comparable α] : Prop :=
  LinearlyOrdered (Comparable.same (α := α)) Comparable.less

theorem Word.comparable_linear (t : IntType) : Comparable.Linear (Word t) :=
  .of_key (fun x => some x.toInt) (fun _ _ => decide_eq_true_iff) fun _ _ => decide_eq_true_iff

theorem Bool.comparable_linear : Comparable.Linear Bool :=
  .of_key some (fun _ _ => beq_iff_eq) (by simp only [Keyed]; decide)

namespace Floating

open Float.Model

/-- The place of a number among all numbers: infinities at both ends, then by sign, exponent and mantissa. Both zeros
have the same place, and what is not a number has none. -/
def place : UnpackedFloat → Option (Int ×ₗ Int ×ₗ Int)
  | .notANumber => none
  | .infinity .negative => some (toLex (-2,toLex (0,0)))
  | .finite .negative m e _ => some (toLex (-1,toLex (-e,-m)))
  | .zero _ => some (toLex (0,toLex (0,0)))
  | .finite .positive m e _ => some (toLex (1,toLex (e,m)))
  | .infinity .positive => some (toLex (2,toLex (0,0)))

theorem beq_iff (x y : UnpackedFloat) : x.beq y = true ↔ Keyed (· = ·) (place x) (place y) := by
  change (x.compare y == some .eq) = true ↔ _
  rcases x with (_ | _) | _ | _ | ⟨_ | _,m,e,-⟩ <;> rcases y with (_ | _) | _ | _ | ⟨_ | _,m',e',-⟩ <;>
    dsimp only [place,Keyed,UnpackedFloat.compare] <;> simp
  case infinity.negative.infinity.negative => rfl
  case infinity.positive.infinity.positive => rfl

theorem lt_iff (x y : UnpackedFloat) : x.lt y = true ↔ Keyed (· < ·) (place x) (place y) := by
  change (x.compare y == some .lt) = true ↔ _
  rcases x with (_ | _) | _ | _ | ⟨_ | _,m,e,-⟩ <;> rcases y with (_ | _) | _ | _ | ⟨_ | _,m',e',-⟩ <;>
    dsimp only [place,Keyed,UnpackedFloat.compare] <;> simp [Prod.Lex.toLex_lt_toLex]
  case infinity.negative.infinity.positive => rfl
  -- Among negative numbers the greater exponent and the greater mantissa come first.
  case finite.negative.finite.negative =>
    rw [Ordering.then_eq_gt,compare_gt_iff_gt,compare_eq_iff_eq,compare_gt_iff_gt]
  case finite.positive.finite.positive =>
    rw [Ordering.then_eq_lt,compare_lt_iff_lt,compare_eq_iff_eq,compare_lt_iff_lt]

theorem double_linear : Comparable.Linear Float :=
  .of_key (fun x => place x.toModel.unpack) (fun _ _ => beq_iff _ _) fun x y =>
    (decide_eq_true_iff.trans decide_eq_true_iff).trans (lt_iff x.toModel.unpack y.toModel.unpack)

theorem single_linear : Comparable.Linear Float32 :=
  .of_key (fun x => place x.toModel.unpack) (fun _ _ => beq_iff _ _) fun x y =>
    (decide_eq_true_iff.trans decide_eq_true_iff).trans (lt_iff x.toModel.unpack y.toModel.unpack)

end Floating

end Strided
