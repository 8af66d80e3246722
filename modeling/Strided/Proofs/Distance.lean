import Strided.Proofs.Index
import Strided.Proofs.Result

set_option autoImplicit false

namespace Strided

namespace Address

theorem isSigned_of_natAbs_le {x : Int} (h : x.natAbs ≤ 2^53) : IsSigned x := by
  simp only [IsSigned,minSigned,maxSigned]
  omega

theorem isSigned_natCast {n : Nat} (h : (n : Int) ≤ maxSigned) : IsSigned n :=
  ⟨Int.le_trans (by decide) (Int.natCast_nonneg n),h⟩

theorem saturatingMul_eq {x y : Int} (h : IsSigned (x*y)) : saturatingMul x y = x*y := by
  rw [saturatingMul,Int.min_eq_right h.2,Int.max_eq_right h.1]

theorem saturatingMul_natCast {m n : Nat} (h : ((m*n : Nat) : Int) ≤ maxSigned) (hn : (n : Int) ≤ maxSigned) :
    saturatingMul m (signed n) = ((m*n : Nat) : Int) := by
  have hr := isSigned_natCast h
  rw [Int.natCast_mul] at hr
  rw [signed_of_le hn,saturatingMul_eq hr,Int.natCast_mul]

theorem signed_of_le_two_pow {n : Nat} (h : n ≤ 2^53) : signed n = n :=
  signed_of_le (by simp only [maxSigned]; omega)

theorem signed_unsigned {x : Int} (h : IsSigned x) : signed (unsigned x) = x := by
  simp only [IsSigned,minSigned,maxSigned] at h
  simp only [signed,unsigned,modulus,Int.bmod_def]
  omega

theorem unsigned_natCast {n : Nat} (h : n ≤ maxUnsigned) : unsigned (n : Int) = n := by
  simp only [unsigned,modulus,maxUnsigned] at *
  omega

theorem add_eq_ok_iff {x y z : Int} : add x y = .ok z ↔ IsSigned (x+y) ∧ z = x+y := by
  unfold add
  split <;> simp_all [abort,eq_comm]

theorem sub_eq_ok_iff {x y z : Int} : sub x y = .ok z ↔ IsSigned (x-y) ∧ z = x-y := by
  unfold sub
  split <;> simp_all [abort,eq_comm]

theorem mul_eq_ok_iff {x y z : Int} : mul x y = .ok z ↔ IsSigned (x*y) ∧ z = x*y := by
  unfold mul
  split <;> simp_all [abort,eq_comm]

end Address

namespace Layout

def distanceAlong : List Axis → List Nat → Int
  | a :: axes, i :: index => i*a.stride+distanceAlong axes index
  | _, _ => 0

def distance (l : Layout) (index : List Nat) : Int := distanceAlong l.axes index

/-- No index inside the extents is further away from the start. -/
def swing : List Axis → Nat
  | [] => 0
  | a :: axes => a.stride.natAbs*(a.extent-1)+swing axes

theorem distanceAlong_origin (axes : List Axis) : distanceAlong axes (Shape.origin (axes.map Axis.extent)) = 0 := by
  induction axes with
  | nil => rfl
  | cons a axes ih => simpa [distanceAlong,Shape.origin] using ih

theorem natAbs_mul_le {i d : Nat} (h : i < d) (s : Int) : ((i : Int)*s).natAbs ≤ s.natAbs*(d-1) := by
  rw [Int.natAbs_mul,Int.natAbs_natCast,Nat.mul_comm]
  exact Nat.mul_le_mul_left _ (by omega)

theorem natAbs_distanceAlong_le {axes : List Axis} {index : List Nat}
    (h : Shape.Contains (axes.map Axis.extent) index) : (distanceAlong axes index).natAbs ≤ swing axes := by
  induction axes generalizing index with
  | nil => simp [distanceAlong]
  | cons a axes ih =>
    cases index with
    | nil => exact h.elim
    | cons i index =>
      have hi := natAbs_mul_le h.1 a.stride
      have hr := ih h.2
      simp only [distanceAlong,swing]
      omega

theorem offsetFrom_eq_ok {axes : List Axis} {index : List Nat} {total : Int}
    (h : Shape.Contains (axes.map Axis.extent) index) (he : ∀ a ∈ axes, a.extent ≤ 2^50)
    (hs : total.natAbs+swing axes ≤ 2^52) :
    offsetFrom total index axes = .ok (total+distanceAlong axes index) := by
  induction axes generalizing index total with
  | nil => cases index <;> simp [offsetFrom,distanceAlong]
  | cons a axes ih =>
    cases index with
    | nil => exact h.elim
    | cons i index =>
      have hi := natAbs_mul_le h.1 a.stride
      have hd := he a (by simp)
      have hlt : i < a.extent := h.1
      simp only [swing] at hs
      rw [offsetFrom,Address.signed_of_le_two_pow (by omega),
        Address.mul_eq_ok (Address.isSigned_of_natAbs_le (by omega)),ok_bind,
        Address.add_eq_ok (Address.isSigned_of_natAbs_le (by omega)),ok_bind,
        ih h.2 (fun b hb => he b (by simp [hb])) (by omega),distanceAlong,Int.add_assoc]

theorem distanceAlong_insertIdx {axes : List Axis} {axis : Nat} {a : Axis} (ha : axes[axis]? = some a)
    {index : List Nat} (h : index.length+1 = axes.length) (i : Nat) :
    distanceAlong axes (index.insertIdx axis i) = i*a.stride+distanceAlong (axes.eraseIdx axis) index := by
  induction axes generalizing axis index with
  | nil => simp at ha
  | cons b axes ih =>
    cases axis with
    | zero =>
      have hb : b = a := by simpa using ha
      simp [distanceAlong,hb]
    | succ axis =>
      cases index with
      | nil =>
        have hl : axes = [] := by simpa using h
        simp [hl] at ha
      | cons j index =>
        have ha' : axes[axis]? = some a := by simpa using ha
        have hl : index.length+1 = axes.length := by simpa using h
        have hr := ih ha' hl
        simp only [List.insertIdx_succ_cons,List.eraseIdx_cons_succ,distanceAlong,hr]
        omega

theorem swing_eraseIdx_add {axes : List Axis} {axis : Nat} {a : Axis} (ha : axes[axis]? = some a) :
    swing (axes.eraseIdx axis)+a.stride.natAbs*(a.extent-1) = swing axes := by
  induction axes generalizing axis with
  | nil => simp at ha
  | cons b axes ih =>
    cases axis with
    | zero =>
      have hb : b = a := by simpa using ha
      simp [swing,hb,Nat.add_comm]
    | succ axis =>
      have ha' : axes[axis]? = some a := by simpa using ha
      have hr := ih ha'
      simp only [List.eraseIdx_cons_succ,swing]
      omega

end Layout

namespace Shape

theorem Contains.insertIdx {s : Shape} {axis d : Nat} (hd : s[axis]? = some d) {index : List Nat}
    (h : Contains (s.eraseIdx axis) index) {i : Nat} (hi : i < d) : s.Contains (index.insertIdx axis i) := by
  induction s generalizing axis index with
  | nil => simp at hd
  | cons e s ih =>
    cases axis with
    | zero =>
      have he : e = d := by simpa using hd
      simpa [Contains,he] using ⟨hi,h⟩
    | succ axis =>
      cases index with
      | nil => exact h.elim
      | cons j index => exact ⟨h.1,ih (by simpa using hd) h.2⟩

end Shape

end Strided
