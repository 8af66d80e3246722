import Strided.Proofs.WellFormed

set_option autoImplicit false

namespace Strided.Layout

/-- The test of consecutive axes with a product that aborts where the other one saturates. -/
def checkConsecutive : Int → List Axis → Result Bool
  | _, [] => .ok true
  | expected, a :: axes =>
    if a.extent ≤ 1 then checkConsecutive expected axes
    else if a.stride = expected then do
      let outer ← Address.mul expected (Address.signed a.extent)
      checkConsecutive outer axes
    else .ok false

/-- No product leaves the signed range while those of all the extents together stay inside. -/
theorem checkConsecutive_eq {axes : List Axis} {n : Nat} (hn : 0 < n) (h0 : 0 ∉ axes.map Axis.extent)
    (hv : ((n*Shape.volume (axes.map Axis.extent) : Nat) : Int) ≤ Address.maxSigned) :
    checkConsecutive n axes = .ok (isConsecutive n axes) := by
  induction axes generalizing n with
  | nil => rfl
  | cons a axes ih =>
    simp only [List.map_cons,List.mem_cons,not_or] at h0
    rw [List.map_cons,Shape.volume,← Nat.mul_assoc] at hv
    have hp : 0 < Shape.volume (axes.map Axis.extent) :=
      Nat.pos_of_ne_zero fun hz => h0.2 ((Shape.volume_eq_zero_iff _).1 hz)
    have hd : 0 < a.extent := Nat.pos_of_ne_zero (Ne.symm h0.1)
    have hstep : ((n*a.extent : Nat) : Int) ≤ Address.maxSigned := by
      have := Nat.le_mul_of_pos_right (n*a.extent) hp
      omega
    unfold checkConsecutive isConsecutive
    by_cases ha : a.extent ≤ 1
    · have h1 : a.extent = 1 := by omega
      rw [h1,Nat.mul_one] at hv
      simpa only [if_pos ha] using ih hn h0.2 hv
    · by_cases hs : a.stride = n
      · have hle : (a.extent : Int) ≤ Address.maxSigned := by
          have := Nat.le_mul_of_pos_left a.extent hn
          omega
        have hm : Address.mul n (Address.signed a.extent) = .ok ((n*a.extent : Nat) : Int) := by
          rw [Address.signed_of_le hle,Int.natCast_mul]
          exact Address.mul_eq_ok (by simpa using Address.isSigned_natCast hstep)
        simp only [if_neg ha,if_pos hs,hm,ok_bind,Address.saturatingMul_natCast hstep hle]
        rw [ih (Nat.mul_pos hn hd) h0.2 hv,hs,beq_self_eq_true,Bool.true_and]
      · simp [ha,hs]

section Consecutive

variable {axes : List Axis} {index : List Nat}

theorem isConsecutive_reverse_iff (h0 : 0 ∉ axes.map Axis.extent)
    (hv : (Shape.volume (axes.map Axis.extent) : Int) ≤ Address.maxSigned) :
    isConsecutive 1 axes.reverse = true ↔ ∀ index, Shape.Contains (axes.map Axis.extent) index →
      distanceAlong axes index = Shape.rank (axes.map Axis.extent) index := by
  refine ⟨fun hc index hi => distanceAlong_eq_rank h0 hv hc hi,fun h => ?_⟩
  induction axes with
  | nil => rfl
  | cons a axes ih =>
    simp only [List.map_cons,List.mem_cons,not_or] at h0
    have hd : 0 < a.extent := Nat.pos_of_ne_zero (Ne.symm h0.1)
    have hinner := Shape.volume_tail_le_maxSigned h0.1 hv
    refine (isConsecutive_reverse_cons h0.2 hinner).2 ⟨ih h0.2 hinner fun index hi => ?_,fun h1 => ?_⟩
    · simpa [distanceAlong,Shape.rank] using h (0 :: index) ⟨hd,hi⟩
    · have hone := h (1 :: Shape.origin (axes.map Axis.extent)) ⟨h1,Shape.contains_origin h0.2⟩
      simpa [distanceAlong,Shape.rank,distanceAlong_origin,Shape.rank_origin] using hone

/-- Along consecutive axes the machine takes the same steps as along the axes of a row-major layout: it stands still on
an axis of extent 1, whatever the stride is. -/
theorem offsetFrom_eq_packed (h0 : 0 ∉ axes.map Axis.extent)
    (hv : (Shape.volume (axes.map Axis.extent) : Int) ≤ Address.maxSigned) (hc : isConsecutive 1 axes.reverse = true)
    (h : Shape.Contains (axes.map Axis.extent) index) (total : Int) :
    offsetFrom total index axes = offsetFrom total index (packedAxes (axes.map Axis.extent)) := by
  induction axes generalizing index total with
  | nil => rfl
  | cons a axes ih =>
    cases index with
    | nil => exact h.elim
    | cons i index =>
      simp only [List.map_cons,List.mem_cons,not_or] at h0
      have hinner := Shape.volume_tail_le_maxSigned h0.1 hv
      obtain ⟨hc,ha⟩ := (isConsecutive_reverse_cons h0.2 hinner).1 hc
      have hstep : Address.mul (Address.signed i) a.stride =
          Address.mul (Address.signed i) (Shape.volume (axes.map Axis.extent) : Int) := by
        by_cases h1 : 1 < a.extent
        · rw [ha h1]
        · -- The only coordinate is 0, and so is its step over any stride.
          obtain rfl : i = 0 := by have := h.1; omega
          rw [Address.signed_of_le (by decide),Int.natCast_zero,Address.mul,Address.mul,Int.zero_mul,Int.zero_mul]
      rw [List.map_cons,packedAxes,offsetFrom,offsetFrom,hstep]
      exact bind_congr fun step => bind_congr fun next => ih h0.2 hinner hc h.2 next

theorem eq_of_offsetFrom_eq_ok {total x : Int} (hd : ∀ a ∈ axes, (a.extent : Int) ≤ Address.maxSigned)
    (h : Shape.Contains (axes.map Axis.extent) index) (ho : offsetFrom total index axes = .ok x) :
    x = total+distanceAlong axes index := by
  induction axes generalizing index total with
  | nil => cases index <;> simp_all [offsetFrom,distanceAlong]
  | cons a axes ih =>
    cases index with
    | nil => exact h.elim
    | cons i index =>
      obtain ⟨step,hstep,ho⟩ := bind_eq_ok.1 ho
      obtain ⟨next,hnext,ho⟩ := bind_eq_ok.1 ho
      have hi : (i : Int) ≤ Address.maxSigned := by
        have := hd a (by simp)
        have hlt : i < a.extent := h.1
        omega
      rw [Address.signed_of_le hi,Address.mul_eq_ok_iff] at hstep
      rw [Address.add_eq_ok_iff] at hnext
      rw [ih (fun b hb => hd b (by simp [hb])) h.2 ho,hnext.2,hstep.2,distanceAlong,Int.add_assoc]

end Consecutive

/-- Of a layout with elements, and no more than can be counted, the test says exactly whether each index lies its rank
away from the start: by the exact sum of its coordinates times the strides and, which is the same here, by what the
machine computes. The products of the test stay in range, so it makes no difference that they would saturate. -/
theorem isContiguous_exact {l : Layout} (h0 : 0 ∉ l.dims) (hv : (l.dims.volume : Int) ≤ Address.maxSigned) :
    (l.isContiguous = true ↔ ∀ index, l.dims.Contains index → l.distance index = l.dims.rank index) ∧
    (l.isContiguous = true ↔ ∀ index, l.dims.Contains index → l.offsetOf index = .ok (l.dims.rank index : Int)) ∧
    checkConsecutive 1 l.axes.reverse = .ok l.isContiguous := by
  have hempty : l.isEmpty = false := Bool.eq_false_iff.2 fun he => h0 ((isEmpty_iff l).1 he)
  have htest : l.isContiguous = isConsecutive 1 l.axes.reverse := by rw [isContiguous,hempty,Bool.false_or]
  have hexact : l.isContiguous = true ↔ ∀ index, l.dims.Contains index → l.distance index = l.dims.rank index := by
    rw [htest]
    exact isConsecutive_reverse_iff h0 hv
  refine ⟨hexact,⟨fun hc index hi => ?_,fun h => hexact.2 fun index hi => ?_⟩,?_⟩
  · rw [htest] at hc
    rw [offsetOf,offsetFrom_eq_packed h0 hv hc hi]
    exact offsetOf_packed hi hv
  · have hd : ∀ a ∈ l.axes, (a.extent : Int) ≤ Address.maxSigned := fun a ha => by
      obtain ⟨k,hk⟩ := List.mem_iff_getElem?.1 ha
      have hk : l.dims[k]? = some a.extent := by simp [dims,hk]
      have hle := Shape.extent_le_span_of_getElem? hk
      rw [← Shape.volume_eq_span h0] at hle
      omega
    have he := eq_of_offsetFrom_eq_ok hd hi (h index hi)
    rw [he,Int.zero_add]
    rfl
  · have hr : l.axes.reverse.map Axis.extent = l.dims.reverse := List.map_reverse
    have hperm : Shape.volume l.dims.reverse = l.dims.volume := Shape.volume_perm (List.reverse_perm _)
    rw [htest]
    exact checkConsecutive_eq (n := 1) Nat.one_pos (by rwa [hr,List.mem_reverse]) (by rwa [hr,Nat.one_mul,hperm])

def idle : Layout := ⟨[⟨2,3⟩,⟨1,-7⟩,⟨3,1⟩]⟩

def columns : Layout := ⟨[⟨2,1⟩,⟨1,-7⟩,⟨3,2⟩]⟩

theorem idle_isContiguous_exact : 0 ∉ idle.dims ∧ (idle.dims.volume : Int) ≤ Address.maxSigned ∧
    idle.isContiguous = true ∧ (idle.dims.Contains [1,0,2] ∧ idle.distance [1,0,2] = 5 ∧ idle.offsetOf [1,0,2] = .ok 5) ∧
    checkConsecutive 1 idle.axes.reverse = .ok true ∧
    columns.isContiguous = false ∧ ¬ ∀ index, columns.dims.Contains index → columns.distance index = columns.dims.rank index := by
  have h0 : 0 ∉ idle.dims := by decide
  have hv : (idle.dims.volume : Int) ≤ Address.maxSigned := by decide
  have hc : idle.isContiguous = true := by decide
  have hi : idle.dims.Contains [1,0,2] := by decide
  obtain ⟨hexact,hmachine,hcheck⟩ := isContiguous_exact h0 hv
  have hcolumns : columns.isContiguous = false := by decide
  obtain ⟨hexact',-⟩ := @isContiguous_exact columns (by decide) (by decide)
  rw [hc] at hcheck
  exact ⟨h0,hv,hc,⟨hi,hexact.1 hc _ hi,hmachine.1 hc _ hi⟩,hcheck,hcolumns,fun h =>
    absurd (hexact'.2 h) (by rw [hcolumns]; decide)⟩

end Strided.Layout
