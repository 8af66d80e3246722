import Strided.Proofs.WellFormed

set_option autoImplicit false

namespace Strided

namespace Layout

theorem checkedAdd_eq_ok {x y z : Int} (h : checkedAdd x y = .ok z) : Address.IsSigned z ∧ z = x+y := by
  unfold checkedAdd at h
  split at h <;> simp_all [refuse,eq_comm]

theorem checkedMul_eq_ok {x y z : Int} (h : checkedMul x y = .ok z) : z = x*y := by
  unfold checkedMul at h
  split at h <;> simp_all [refuse,eq_comm]

theorem mul_between {i n : Nat} (hi : i ≤ n) (hn : 0 < n) (s : Int) :
    (0 ≤ s*n ∧ 0 ≤ i*s ∧ i*s ≤ s*n) ∨ (s*n < 0 ∧ s*n ≤ i*s ∧ i*s ≤ 0) := by
  have hin : (i : Int) ≤ n := Int.ofNat_le.2 hi
  have hi0 := Int.natCast_nonneg i
  rw [Int.mul_comm s n]
  by_cases hs : 0 ≤ s
  · exact Or.inl ⟨Int.mul_nonneg (Int.natCast_nonneg n) hs,Int.mul_nonneg hi0 hs,Int.mul_le_mul_of_nonneg_right hin hs⟩
  · have hs : s < 0 := by omega
    exact Or.inr ⟨Int.mul_neg_of_pos_of_neg (by omega) hs,Int.mul_le_mul_of_nonpos_right hin (by omega),
      Int.mul_nonpos_of_nonneg_of_nonpos hi0 (by omega)⟩

/-- One axis moves both ends far enough for each of its coordinates. Its extent fits a signed word, or else it stands
still. -/
theorem Reach.extend_spec {r r' : Reach} {a : Axis} (h : r.extend a = .ok r')
    (ha : a.stride = 0 ∨ (a.extent : Int) ≤ Address.maxSigned) (hr : r.high ≤ Address.maxSigned) :
    r'.high ≤ Address.maxSigned ∧
      ∀ i, i < a.extent → r'.low ≤ r.low+i*a.stride ∧ r.high+i*a.stride ≤ r'.high := by
  unfold extend at h
  by_cases h1 : a.extent ≤ 1
  · simp only [h1,↓reduceIte] at h
    obtain rfl := Except.ok.inj h
    refine ⟨hr,fun i hi => ?_⟩
    have hz : i = 0 := by omega
    simp [hz]
  · simp only [h1,↓reduceIte] at h
    obtain ⟨last,hl,h⟩ := bind_eq_ok.1 h
    obtain ⟨travel,ht,h⟩ := bind_eq_ok.1 h
    -- The way from the first coordinate to the last is exact, or it has been refused.
    have ht := checkedMul_eq_ok ht
    have hb : ∀ i, i < a.extent →
        (0 ≤ travel ∧ 0 ≤ i*a.stride ∧ i*a.stride ≤ travel) ∨ (travel < 0 ∧ travel ≤ i*a.stride ∧ i*a.stride ≤ 0) := by
      intro i hi
      rcases ha with hs | ha
      · simp [ht,hs]
      · obtain ⟨n,hn⟩ : ∃ n, a.extent = n+1 := ⟨a.extent-1,by omega⟩
        obtain ⟨-,hl⟩ := Address.sub_eq_ok_iff.1 hl
        have hl : last = n := by rw [Address.signed_of_le ha] at hl; omega
        rw [hl] at ht
        rw [ht]
        exact mul_between (by omega) (by omega) a.stride
    by_cases h0 : 0 ≤ travel
    · simp only [h0,↓reduceIte] at h
      obtain ⟨high,hh,h⟩ := bind_eq_ok.1 h
      obtain rfl := Except.ok.inj h
      obtain ⟨hs,hh⟩ := checkedAdd_eq_ok hh
      refine ⟨hs.2,fun i hi => ?_⟩
      have := hb i hi
      simp only
      omega
    · simp only [h0,↓reduceIte] at h
      obtain ⟨low,hh,h⟩ := bind_eq_ok.1 h
      obtain rfl := Except.ok.inj h
      obtain ⟨-,hh⟩ := checkedAdd_eq_ok hh
      refine ⟨hr,fun i hi => ?_⟩
      have := hb i hi
      simp only
      omega

theorem foldlM_extend_spec {axes : List Axis} {r r' : Reach} (h : axes.foldlM Reach.extend r = .ok r')
    (ha : ∀ a ∈ axes, a.stride = 0 ∨ (a.extent : Int) ≤ Address.maxSigned) (hr : r.high ≤ Address.maxSigned) :
    r'.high ≤ Address.maxSigned ∧ ∀ index, Shape.Contains (axes.map Axis.extent) index →
      r'.low ≤ r.low+distanceAlong axes index ∧ r.high+distanceAlong axes index ≤ r'.high := by
  induction axes generalizing r with
  | nil =>
    obtain rfl := Except.ok.inj h
    exact ⟨hr,fun index _ => by simp [distanceAlong]⟩
  | cons a axes ih =>
    rw [List.foldlM_cons] at h
    obtain ⟨next,hn,h⟩ := bind_eq_ok.1 h
    obtain ⟨hnext,hstep⟩ := Reach.extend_spec hn (ha a (by simp)) hr
    obtain ⟨hr',hrest⟩ := ih h (fun b hb => ha b (by simp [hb])) hnext
    refine ⟨hr',fun index hi => ?_⟩
    cases index with
    | nil => exact hi.elim
    | cons i index =>
      have h1 := hstep i hi.1
      have h2 := hrest index hi.2
      simp only [distanceAlong]
      omega

theorem checkBounds_eq_ok {l : Layout} {length offset : Nat} (h : l.checkBounds length offset = .ok ())
    (h0 : 0 ∉ l.dims) :
    (offset : Int) ≤ Address.maxSigned ∧ ∃ reach : Reach, l.axes.foldlM Reach.extend ⟨offset,offset⟩ = .ok reach ∧
      0 ≤ reach.low ∧ Address.unsigned reach.high < length := by
  have hne : l.isEmpty = false := Bool.eq_false_iff.2 fun hz => h0 ((isEmpty_iff _).1 hz)
  simp only [checkBounds,hne,Bool.false_eq_true,↓reduceIte] at h
  by_cases ho : Address.maxSigned < (offset : Int)
  · simp [ho,refuse] at h
  · simp only [ho,↓reduceIte] at h
    obtain ⟨reach,hr,h⟩ := bind_eq_ok.1 h
    by_cases hb : reach.low < 0 ∨ length ≤ Address.unsigned reach.high
    · simp [hb,refuse] at h
    · exact ⟨by omega,reach,hr,by omega,by omega⟩

theorem axes_of_ofStrides {dims : Shape} {strides : List Int} {l : Layout} (h : ofStrides dims strides = .ok l) :
    l.dims = dims ∧ l.strides = strides := by
  unfold ofStrides at h
  by_cases hl : dims.length = strides.length
  · simp only [hl,↓reduceIte,Except.ok.injEq] at h
    subst h
    simp only [Layout.dims,Layout.strides]
    induction dims generalizing strides with
    | nil => cases strides <;> simp_all
    | cons d dims ih =>
      cases strides with
      | nil => simp at hl
      | cons s strides => simpa using ih (by simpa using hl)
  · simp [hl,refuse] at h

theorem Reach.low_le_of_extend {r r' : Reach} {a : Axis} (h : r.extend a = .ok r') : r'.low ≤ r.low := by
  unfold extend at h
  by_cases h1 : a.extent ≤ 1
  · simp only [h1,↓reduceIte] at h
    obtain rfl := Except.ok.inj h
    exact Int.le_refl _
  · simp only [h1,↓reduceIte] at h
    obtain ⟨last,-,h⟩ := bind_eq_ok.1 h
    obtain ⟨travel,-,h⟩ := bind_eq_ok.1 h
    by_cases h0 : 0 ≤ travel
    · simp only [h0,↓reduceIte] at h
      obtain ⟨high,-,h⟩ := bind_eq_ok.1 h
      obtain rfl := Except.ok.inj h
      exact Int.le_refl _
    · simp only [h0,↓reduceIte] at h
      obtain ⟨low,hl,h⟩ := bind_eq_ok.1 h
      obtain rfl := Except.ok.inj h
      obtain ⟨-,hl⟩ := checkedAdd_eq_ok hl
      simp only
      omega

theorem signed_of_lt {n : Nat} (h : Address.maxSigned < (n : Int)) (hn : n ≤ Address.maxUnsigned) :
    Address.signed n = (n : Int)-2^64 := by
  simp only [Address.signed,Address.modulus,Address.maxSigned,Address.maxUnsigned,Int.bmod_def] at *
  omega

/-- An extent beyond the signed range counts from below 0, so an ascending axis is taken for a descending one. -/
theorem Reach.extend_wrapped {r r' : Reach} {a : Axis} (h : r.extend a = .ok r')
    (ha : Address.maxSigned < (a.extent : Int)) (hn : a.extent ≤ Address.maxUnsigned) :
    2^63 < a.extent ∧ (0 < a.stride → r'.low ≤ r.low+a.stride*((a.extent : Int)-2^64-1)) := by
  unfold extend at h
  have h1 : ¬ a.extent ≤ 1 := by
    simp only [Address.maxSigned] at ha
    omega
  simp only [h1,↓reduceIte,signed_of_lt ha hn] at h
  obtain ⟨last,hl,h⟩ := bind_eq_ok.1 h
  obtain ⟨hs,rfl⟩ := Address.sub_eq_ok_iff.1 hl
  obtain ⟨travel,ht,h⟩ := bind_eq_ok.1 h
  have ht := checkedMul_eq_ok ht
  simp only [Address.IsSigned,Address.minSigned,Address.maxSigned,Address.maxUnsigned] at hs ha hn
  refine ⟨by omega,fun hp => ?_⟩
  have hneg : travel < 0 := ht ▸ Int.mul_neg_of_pos_of_neg hp (by omega)
  have h0 : ¬ 0 ≤ travel := by omega
  rw [if_neg h0] at h
  obtain ⟨low,hlow,h⟩ := bind_eq_ok.1 h
  obtain rfl := Except.ok.inj h
  obtain ⟨-,hlow⟩ := checkedAdd_eq_ok hlow
  exact Int.le_of_eq (by rw [hlow,ht])

theorem low_le_of_foldlM_extend {axes : List Axis} {r r' : Reach} (h : axes.foldlM Reach.extend r = .ok r') :
    r'.low ≤ r.low := by
  induction axes generalizing r with
  | nil =>
    obtain rfl := Except.ok.inj h
    exact Int.le_refl _
  | cons a axes ih =>
    rw [List.foldlM_cons] at h
    obtain ⟨next,hn,h⟩ := bind_eq_ok.1 h
    exact Int.le_trans (ih h) (Reach.low_le_of_extend hn)

theorem foldlM_extend_wrapped {axes : List Axis} {r r' : Reach} (h : axes.foldlM Reach.extend r = .ok r') {a : Axis}
    (hm : a ∈ axes) (ha : Address.maxSigned < (a.extent : Int)) (hn : a.extent ≤ Address.maxUnsigned) :
    2^63 < a.extent ∧ (0 < a.stride → r'.low ≤ r.low+a.stride*((a.extent : Int)-2^64-1)) := by
  induction axes generalizing r with
  | nil => simp at hm
  | cons b axes ih =>
    obtain ⟨next,hb,hrest⟩ := bind_eq_ok.1 h
    rcases List.mem_cons.1 hm with rfl | hm
    · obtain ⟨he,hlow⟩ := Reach.extend_wrapped hb ha hn
      exact ⟨he,fun hp => Int.le_trans (low_le_of_foldlM_extend hrest) (hlow hp)⟩
    · obtain ⟨he,hlow⟩ := ih hrest hm
      have := Reach.low_le_of_extend hb
      exact ⟨he,fun hp => by have := hlow hp; omega⟩

end Layout

namespace View

variable {buffer length offset : Nat} {dims : Shape} {strides : List Int} {v : View}

theorem ofBuffer_eq_ok (h : ofBuffer buffer length dims strides offset = .ok v) :
    v.buffer = buffer ∧ v.offset = offset ∧ v.dims = dims ∧ v.layout.strides = strides ∧
      v.layout.checkBounds length offset = .ok () := by
  obtain ⟨layout,hl,h⟩ := bind_eq_ok.1 h
  obtain ⟨_,hc,h⟩ := bind_eq_ok.1 h
  obtain rfl := Except.ok.inj h
  exact ⟨rfl,rfl,(Layout.axes_of_ofStrides hl).1,(Layout.axes_of_ofStrides hl).2,hc⟩

/-- The check is sound for axes that stand still and for extents that fit a signed word. -/
theorem inside_of_checkBounds (h : v.layout.checkBounds length v.offset = .ok ())
    (ha : ∀ a ∈ v.layout.axes, a.stride = 0 ∨ (a.extent : Int) ≤ Address.maxSigned) : v.Inside length := by
  intro index hi
  obtain ⟨ho,reach,hr,hlow,hhigh⟩ := Layout.checkBounds_eq_ok h fun hz => Shape.not_contains_of_mem hz index hi
  obtain ⟨hsigned,hends⟩ := Layout.foldlM_extend_spec hr ha ho
  obtain ⟨hl,hh⟩ := hends index hi
  simp only at hl hh
  have hu := Address.unsigned_of_nonneg (x := reach.high) (by omega) hsigned
  simp only [address,Layout.distance]
  omega

theorem inside_of_ofBuffer (hd : ∀ d ∈ dims, (d : Int) ≤ Address.maxSigned)
    (h : ofBuffer buffer length dims strides offset = .ok v) : v.buffer = buffer ∧ v.Inside length := by
  obtain ⟨hb,rfl,hdims,-,hc⟩ := ofBuffer_eq_ok h
  refine ⟨hb,inside_of_checkBounds hc fun a ha => Or.inr (hd _ ?_)⟩
  rw [← hdims]
  exact List.mem_map_of_mem ha

end View

end Strided
