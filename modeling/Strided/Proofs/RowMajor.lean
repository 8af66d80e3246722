import Strided.Proofs.Distance

set_option autoImplicit false

namespace Strided

theorem Address.eq_of_mulCount {m n k : Nat} (h : mulCount m n = .ok k) : k = m*n := by
  unfold mulCount at h
  split at h
  · exact (Except.ok.inj h).symm
  · cases h

namespace Shape

/-- The product is taken from the outermost extent inwards, so only the products of outer extents have to be in range. -/
theorem size_eq_ok_of_take {s : Shape} (h : ∀ k, volume (s.take k) ≤ Address.maxUnsigned) : s.size = .ok s.volume := by
  have hm (s : Shape) (n : Nat) (h : ∀ k, n*volume (s.take k) ≤ Address.maxUnsigned) :
      s.foldlM Address.mulCount n = .ok (n*s.volume) := by
    induction s generalizing n with
    | nil => simp [volume]
    | cons d s ih =>
      have hn : n*d ≤ Address.maxUnsigned := by simpa [volume] using h 1
      have hs (k : Nat) : n*d*volume (s.take k) ≤ Address.maxUnsigned := by
        simpa [volume,Nat.mul_assoc] using h (k+1)
      rw [List.foldlM_cons,Address.mulCount,if_pos hn,ok_bind,ih _ hs,volume,Nat.mul_assoc]
  simpa [size] using hm s 1 (by simpa using h)

theorem size_eq_ok {s : Shape} (h : s.span ≤ Address.maxUnsigned) : s.size = .ok s.volume :=
  size_eq_ok_of_take fun k => Nat.le_trans (volume_le_span _) (Nat.le_trans (span_take_le s k) h)

theorem size_eq_volume {s : Shape} {n : Nat} (h : s.size = .ok n) : n = s.volume := by
  have hm (s : Shape) (m : Nat) (h : s.foldlM Address.mulCount m = .ok n) : n = m*s.volume := by
    induction s generalizing m with
    | nil => simpa [volume,eq_comm] using h
    | cons d s ih =>
      obtain ⟨k,hk,hs⟩ := bind_eq_ok.1 h
      rw [ih k hs,Address.eq_of_mulCount hk,volume,Nat.mul_assoc]
  simpa using hm s 1 h

theorem span_tail_le_maxSigned {d : Nat} {s : Shape} (h : (span (d :: s) : Int) ≤ Address.maxSigned) :
    (s.span : Int) ≤ Address.maxSigned := by
  have := span_tail_le d s
  omega

theorem volume_tail_le_maxSigned {d : Nat} {s : Shape} (hd : 0 ≠ d)
    (hv : (volume (d :: s) : Int) ≤ Address.maxSigned) : (s.volume : Int) ≤ Address.maxSigned := by
  have := Nat.le_mul_of_pos_left s.volume (Nat.pos_of_ne_zero hd.symm)
  rw [volume] at hv
  omega

end Shape

namespace Layout

/-- The axes of the row-major layout: each stride is the volume of what lies inside it. -/
def packedAxes : Shape → List Axis
  | [] => []
  | d :: s => ⟨d,(Shape.volume s : Int)⟩ :: packedAxes s

def packed (s : Shape) : Layout := ⟨packedAxes s⟩

@[simp] theorem map_extent_packedAxes (s : Shape) : (packedAxes s).map Axis.extent = s := by
  induction s with
  | nil => rfl
  | cons d s ih => simp [packedAxes,ih]

@[simp] theorem dims_packed (s : Shape) : (packed s).dims = s := map_extent_packedAxes s

theorem distanceAlong_packedAxes (s : Shape) (index : List Nat) :
    distanceAlong (packedAxes s) index = s.rank index := by
  induction s generalizing index with
  | nil => rfl
  | cons d s ih => cases index <;> simp [packedAxes,distanceAlong,Shape.rank,ih]

theorem offsetFrom_packedAxes {s : Shape} {index : List Nat} {total : Nat} (h : s.Contains index)
    (hv : ((total+s.volume : Nat) : Int) ≤ Address.maxSigned) :
    offsetFrom total index (packedAxes s) = .ok ((total+s.rank index : Nat) : Int) := by
  induction s generalizing index total with
  | nil => cases index <;> simp [offsetFrom,packedAxes,Shape.rank]
  | cons d s ih =>
    cases index with
    | nil => exact h.elim
    | cons i index =>
      have hpos : 0 < Shape.volume s := Nat.lt_of_le_of_lt (Nat.zero_le _) (Shape.rank_lt h.2)
      have hi : i ≤ i*Shape.volume s := Nat.le_mul_of_pos_right i hpos
      have hstep : (i+1)*Shape.volume s ≤ d*Shape.volume s := Nat.mul_le_mul_right _ h.1
      rw [Nat.succ_mul] at hstep
      rw [Shape.volume] at hv
      have hmul : Address.IsSigned ((i*Shape.volume s : Nat) : Int) := Address.isSigned_natCast (by omega)
      have hadd : Address.IsSigned ((total+i*Shape.volume s : Nat) : Int) := Address.isSigned_natCast (by omega)
      rw [Int.natCast_mul] at hmul
      rw [Int.natCast_add,Int.natCast_mul] at hadd
      rw [packedAxes,offsetFrom,Address.signed_of_le (by omega),Address.mul_eq_ok hmul,ok_bind,Address.add_eq_ok hadd,
        ok_bind,← Int.natCast_mul,← Int.natCast_add,ih h.2 (by omega),Shape.rank,Nat.add_assoc]

theorem offsetOf_packed {s : Shape} {index : List Nat} (h : s.Contains index)
    (hv : (s.volume : Int) ≤ Address.maxSigned) : (packed s).offsetOf index = .ok (s.rank index : Int) := by
  have ho := @offsetFrom_packedAxes s index 0 h (by rwa [Nat.zero_add])
  rwa [Nat.zero_add] at ho

theorem rowMajorAxes_eq_ok_of_drop {s : Shape} (h : ∀ k, (Shape.volume (s.drop (k+1)) : Int) ≤ Address.maxSigned) :
    rowMajorAxes s = .ok (packedAxes s) := by
  induction s with
  | nil => rfl
  | cons d s ih =>
    cases s with
    | nil => rfl
    | cons e s =>
      have hv : (Shape.volume (e :: s) : Int) ≤ Address.maxSigned := h 0
      have hm : (Shape.volume s : Int)*Address.signed e = (Shape.volume (e :: s) : Int) := by
        rcases Nat.eq_zero_or_pos (Shape.volume s) with h0 | hpos
        · simp [Shape.volume,h0]
        · have he := Nat.le_mul_of_pos_right e hpos
          rw [Shape.volume] at hv
          rw [Address.signed_of_le (by omega),Shape.volume,Int.natCast_mul,Int.mul_comm]
      rw [rowMajorAxes,ih fun k => h (k+1),ok_bind]
      simp only [packedAxes]
      rw [Address.mul_eq_ok (by rw [hm]; exact Address.isSigned_natCast hv),hm]
      rfl

theorem rowMajorAxes_cons_eq_ok (d : Nat) {s : Shape} (h : (s.span : Int) ≤ Address.maxSigned) :
    rowMajorAxes (d :: s) = .ok (packedAxes (d :: s)) :=
  rowMajorAxes_eq_ok_of_drop fun k => by
    have hv := Shape.volume_le_span (s.drop k)
    have hs := Shape.span_drop_le s k
    rw [List.drop_succ_cons]
    omega

theorem rowMajorAxes_eq_ok {s : Shape} (h : (s.span : Int) ≤ Address.maxSigned) :
    rowMajorAxes s = .ok (packedAxes s) := by
  cases s with
  | nil => rfl
  | cons d s => exact rowMajorAxes_cons_eq_ok d (Shape.span_tail_le_maxSigned h)

theorem rowMajor_eq_ok {s : Shape} (h : (s.span : Int) ≤ Address.maxSigned) : rowMajor s = .ok (packed s) := by
  rw [rowMajor,rowMajorAxes_eq_ok h]
  rfl

theorem map_extent_of_rowMajorAxes {s : Shape} {axes : List Axis} (h : rowMajorAxes s = .ok axes) :
    axes.map Axis.extent = s := by
  induction s generalizing axes with
  | nil =>
    obtain rfl := Except.ok.inj h
    rfl
  | cons d s ih =>
    cases s with
    | nil =>
      obtain rfl := Except.ok.inj h
      rfl
    | cons e s =>
      obtain ⟨inner,hin,h⟩ := bind_eq_ok.1 h
      have hmap := ih hin
      cases inner with
      | nil => simp at hmap
      | cons a inner =>
        obtain ⟨stride,-,h⟩ := bind_eq_ok.1 h
        obtain rfl := Except.ok.inj h
        simp [← hmap]

theorem dims_of_rowMajor {s : Shape} {l : Layout} (h : rowMajor s = .ok l) : l.dims = s := by
  obtain ⟨axes,ha,h⟩ := bind_eq_ok.1 h
  obtain rfl := Except.ok.inj h
  exact map_extent_of_rowMajorAxes ha

/-- The stride that a consecutive axis outside these would have, these being innermost first. -/
def strideAfter (expected : Int) (axes : List Axis) : Int :=
  axes.foldl (fun e a => if a.extent ≤ 1 then e else Address.saturatingMul e (Address.signed a.extent)) expected

theorem strideAfter_append (expected : Int) (axes axes' : List Axis) :
    strideAfter expected (axes++axes') = strideAfter (strideAfter expected axes) axes' := by
  simp [strideAfter]

theorem isConsecutive_append (expected : Int) (axes axes' : List Axis) :
    isConsecutive expected (axes++axes') =
      (isConsecutive expected axes && isConsecutive (strideAfter expected axes) axes') := by
  induction axes generalizing expected with
  | nil => rfl
  | cons a axes ih =>
    by_cases ha : a.extent ≤ 1
    · simp [isConsecutive,strideAfter,ha,ih]
    · simp [isConsecutive,strideAfter,ha,ih,Bool.and_assoc]

theorem strideAfter_reverse {axes : List Axis} (h0 : 0 ∉ axes.map Axis.extent)
    (hv : (Shape.volume (axes.map Axis.extent) : Int) ≤ Address.maxSigned) :
    strideAfter 1 axes.reverse = Shape.volume (axes.map Axis.extent) := by
  induction axes with
  | nil => rfl
  | cons a axes ih =>
    simp only [List.map_cons,List.mem_cons,not_or] at h0
    have hp : 0 < Shape.volume (axes.map Axis.extent) :=
      Nat.pos_of_ne_zero fun hz => h0.2 ((Shape.volume_eq_zero_iff _).1 hz)
    have hm : Shape.volume ((a :: axes).map Axis.extent) = a.extent*Shape.volume (axes.map Axis.extent) := rfl
    have hle := Nat.le_mul_of_pos_left (Shape.volume (axes.map Axis.extent)) (Nat.pos_of_ne_zero (Ne.symm h0.1))
    have hla := Nat.le_mul_of_pos_right a.extent hp
    have hr := ih h0.2 (by omega)
    rw [List.reverse_cons,strideAfter_append,hr]
    -- The machine passes over an extent 1, for which the product would be the same.
    by_cases ha : a.extent ≤ 1
    · have ha : a.extent = 1 := by omega
      rw [hm,ha,Nat.one_mul]
      simp [strideAfter,ha]
    · have hs := Address.saturatingMul_natCast (m := Shape.volume (axes.map Axis.extent)) (n := a.extent)
        (by rwa [Nat.mul_comm,← hm]) (by omega)
      simp only [strideAfter,List.foldl_cons,List.foldl_nil,ha,↓reduceIte,hs]
      rw [hm,Nat.mul_comm]

/-- An axis carries on consecutive cells where it never moves or steps over all that lies inside it. -/
theorem isConsecutive_reverse_cons {a : Axis} {axes : List Axis} (h0 : 0 ∉ axes.map Axis.extent)
    (hv : (Shape.volume (axes.map Axis.extent) : Int) ≤ Address.maxSigned) :
    isConsecutive 1 (a :: axes).reverse = true ↔ isConsecutive 1 axes.reverse = true ∧
      (1 < a.extent → a.stride = Shape.volume (axes.map Axis.extent)) := by
  rw [List.reverse_cons,isConsecutive_append,strideAfter_reverse h0 hv,Bool.and_eq_true]
  by_cases ha : a.extent ≤ 1
  · have hn : ¬ 1 < a.extent := by omega
    simp [isConsecutive,ha,hn]
  · have hn : 1 < a.extent := by omega
    simp [isConsecutive,ha,hn]

theorem distanceAlong_eq_rank_of_countable {axes : List Axis} (h0 : 0 ∉ axes.map Axis.extent)
    (hv : Shape.volume (axes.map Axis.extent) ≤ Address.maxUnsigned)
    (hc : isConsecutive 1 axes.reverse = true) {index : List Nat}
    (h : Shape.Contains (axes.map Axis.extent) index) :
    distanceAlong axes index = Shape.rank (axes.map Axis.extent) index := by
  induction axes generalizing index with
  | nil => rfl
  | cons a axes ih =>
    cases index with
    | nil => exact h.elim
    | cons i index =>
      simp only [List.map_cons,List.mem_cons,not_or] at h0
      have hm : Shape.volume ((a :: axes).map Axis.extent) = a.extent*Shape.volume (axes.map Axis.extent) := rfl
      have hle := Nat.le_mul_of_pos_left (Shape.volume (axes.map Axis.extent)) (Nat.pos_of_ne_zero (Ne.symm h0.1))
      have hc' : isConsecutive 1 axes.reverse = true := by
        rw [List.reverse_cons,isConsecutive_append,Bool.and_eq_true] at hc
        exact hc.1
      have hr := ih h0.2 (by omega) hc' h.2
      simp only [distanceAlong,List.map_cons,Shape.rank,hr,Int.natCast_add,Int.natCast_mul]
      by_cases h1 : 1 < a.extent
      · -- Inside an axis of extent 2 or more there is at most half of what can be counted.
        have h2 := Nat.mul_le_mul_right (Shape.volume (axes.map Axis.extent)) h1
        have hin : (Shape.volume (axes.map Axis.extent) : Int) ≤ Address.maxSigned := by
          simp only [Address.maxUnsigned,Address.maxSigned] at hv ⊢
          omega
        rw [((isConsecutive_reverse_cons h0.2 hin).1 hc).2 h1]
      · have hz : i = 0 := by have := h.1; omega
        simp [hz]

theorem distanceAlong_eq_rank {axes : List Axis} (h0 : 0 ∉ axes.map Axis.extent)
    (hv : (Shape.volume (axes.map Axis.extent) : Int) ≤ Address.maxSigned)
    (hc : isConsecutive 1 axes.reverse = true) {index : List Nat}
    (h : Shape.Contains (axes.map Axis.extent) index) :
    distanceAlong axes index = Shape.rank (axes.map Axis.extent) index :=
  distanceAlong_eq_rank_of_countable h0 (by simp only [Address.maxSigned,Address.maxUnsigned] at hv ⊢; omega) hc h

theorem volume_le_of_isConsecutive {axes : List Axis} {n : Nat} (h0 : 0 ∉ axes.map Axis.extent)
    (hn : (n : Int) ≤ Address.maxSigned) (hc : isConsecutive 1 axes.reverse = true)
    (h : ∀ index, Shape.Contains (axes.map Axis.extent) index → distanceAlong axes index < n) :
    Shape.volume (axes.map Axis.extent) ≤ n := by
  induction axes with
  | nil =>
    have := h [] trivial
    simp only [distanceAlong] at this
    simp only [List.map_nil,Shape.volume]
    omega
  | cons a axes ih =>
    simp only [List.map_cons,List.mem_cons,not_or] at h0
    have hp : 0 < Shape.volume (axes.map Axis.extent) :=
      Nat.pos_of_ne_zero fun hz => h0.2 ((Shape.volume_eq_zero_iff _).1 hz)
    have hc' : isConsecutive 1 axes.reverse = true := by
      rw [List.reverse_cons,isConsecutive_append,Bool.and_eq_true] at hc
      exact hc.1
    have hin := ih h0.2 hc' fun index hi => by
      simpa [distanceAlong] using h (0 :: index) ⟨Nat.pos_of_ne_zero (Ne.symm h0.1),hi⟩
    have hv : (Shape.volume (axes.map Axis.extent) : Int) ≤ Address.maxSigned :=
      Int.le_trans (Int.ofNat_le.2 hin) hn
    have ha := ((isConsecutive_reverse_cons h0.2 hv).1 hc).2
    -- The last index lies one cell before the end of the consecutive ones.
    obtain ⟨last,hl,hr⟩ := Shape.exists_rank_eq (Nat.sub_lt hp Nat.one_pos)
    have hd := h ((a.extent-1) :: last) ⟨by have := h0.1; simp; omega,hl⟩
    rw [distanceAlong,distanceAlong_eq_rank h0.2 hv hc' hl,hr] at hd
    simp only [List.map_cons,Shape.volume]
    by_cases h1 : 1 < a.extent
    · rw [ha h1] at hd
      obtain ⟨k,hk⟩ : ∃ k, a.extent = k+1 := ⟨a.extent-1,by omega⟩
      simp only [hk,Nat.add_sub_cancel,← Int.natCast_mul] at hd
      rw [hk,Nat.succ_mul]
      omega
    · have h1 : a.extent = 1 := by omega
      rw [h1,Nat.one_mul]
      exact hin

end Layout

end Strided
