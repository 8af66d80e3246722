import Strided.Proofs.Transposed

set_option autoImplicit false

namespace Strided

namespace Shape

theorem mul_add_lt_iff {m n x y v : Nat} (hx : x < v) (hy : y < v) :
    m*v+x < n*v+y ↔ m < n ∨ m = n ∧ x < y := by
  have hstep {m n : Nat} (h : m < n) : m*v+v ≤ n*v := by
    rw [← Nat.succ_mul]
    exact Nat.mul_le_mul_right _ h
  rcases Nat.lt_trichotomy m n with hlt | rfl | hgt
  · have := hstep hlt
    omega
  · omega
  · have := hstep hgt
    omega

theorem rank_lt_rank_iff {s : Shape} {i j : List Nat} (hi : s.Contains i) (hj : s.Contains j) :
    s.rank i < s.rank j ↔ i < j := by
  induction s generalizing i j with
  | nil => cases i <;> cases j <;> simp_all [Contains,rank]
  | cons d s ih =>
    cases i with
    | nil => exact hi.elim
    | cons k i =>
      cases j with
      | nil => exact hj.elim
      | cons l j =>
        rw [rank,rank,mul_add_lt_iff (rank_lt hi.2) (rank_lt hj.2),List.cons_lt_cons_iff,ih hi.2 hj.2]

end Shape

namespace Layout

variable {s : Shape} {index : List Nat}

theorem getElem?_strides_packed {k : Nat} (hk : k < s.length) :
    (packed s).strides[k]? = some (Shape.volume (s.drop (k+1)) : Int) := by
  induction s generalizing k with
  | nil => simp at hk
  | cons d s ih =>
    cases k with
    | zero => rfl
    | succ k => exact ih (by simpa using hk)

theorem coordinates_rank (hs : (s.span : Int) ≤ Address.maxSigned) (hi : s.Contains index) :
    (packedAxes s).map (fun a => s.rank index/Address.unsigned a.stride%a.extent) = index := by
  have h := coordinates_eq hi hs 0
  rwa [Nat.zero_mul,Nat.zero_add] at h

theorem coordinate_eq (hs : (s.span : Int) ≤ Address.maxSigned) (hi : s.Contains index) {k : Nat} {a : Axis}
    (ha : (packedAxes s)[k]? = some a) :
    0 < a.stride ∧ 0 < a.extent ∧ index[k]? = some (s.rank index/Address.unsigned a.stride%a.extent) := by
  have h0 : 0 ∉ s := fun hz => Shape.not_contains_of_mem hz index hi
  have hd : s[k]? = some a.extent := by
    rw [← map_extent_packedAxes s,List.getElem?_map,ha]
    rfl
  have hstride := getElem?_strides_packed (List.getElem?_eq_some_iff.1 hd).1
  rw [strides,packed,List.getElem?_map,ha] at hstride
  have hstride : a.stride = (Shape.volume (s.drop (k+1)) : Int) := Option.some.inj hstride
  have hpos : Shape.volume (s.drop (k+1)) ≠ 0 := fun hz =>
    h0 (List.mem_of_mem_drop ((Shape.volume_eq_zero_iff _).1 hz))
  have hindex := congrArg (·[k]?) (coordinates_rank hs hi)
  rw [List.getElem?_map,ha] at hindex
  exact ⟨by omega,Nat.pos_of_ne_zero fun hz => h0 (hz ▸ List.mem_of_getElem? hd),hindex.symm⟩

/-- Taken apart along the axes and put together over the same strides, a rank is what it was. -/
theorem placeOf_rank (hs : (s.span : Int) ≤ Address.maxSigned) (hi : s.Contains index) :
    Snapshot.placeOf (s.rank index) ((packed s).axes.zip (packed s).strides) 0 = .ok (s.rank index) := by
  have hlt := Shape.rank_lt hi
  have hv := s.volume_le_span
  have hplace : Snapshot.placeOf (s.rank index) ((packedAxes s).zip (packed s).strides) 0 = .ok (0+s.rank index) :=
    Snapshot.placeOf_eq (coordinates_rank hs hi) hi hs (by simp only [Address.maxSigned,Address.maxUnsigned] at *; omega)
  rwa [Nat.zero_add] at hplace

/-- The positions of the indices are the numbers below the size, each index has its own, and they go up with the indices
in lexicographic order. -/
structure Numbers (l : Layout) : Prop where
  exists_lt : ∀ index, l.dims.Contains index → ∃ r < l.dims.volume, l.offsetOf index = .ok (r : Int)
  existsUnique : ∀ r < l.dims.volume, ∃! index, l.dims.Contains index ∧ l.offsetOf index = .ok (r : Int)
  lt_iff_lt : ∀ i j p q, l.dims.Contains i → l.dims.Contains j → l.offsetOf i = .ok p → l.offsetOf j = .ok q →
    (i < j ↔ p < q)

/-- However the number `r` is taken apart, it gives the coordinates of `index`: each as a quotient by the stride, which is
not 0, and its remainder over the extent, which is how axes are reordered, and all of them digit by digit from the last
axis, which is how a contiguous walk tells its index. -/
structure Spells (l : Layout) (index : List Nat) (r : Nat) : Prop where
  coordinate : ∀ (k : Nat) (a : Axis), l.axes[k]? = some a →
    0 < a.stride ∧ 0 < a.extent ∧ index[k]? = some (r/Address.unsigned a.stride%a.extent)
  place : Snapshot.placeOf r (l.axes.zip l.strides) 0 = .ok r
  digits : Offsets.digits l.dims r = (index,0)
  currentIndex : ∀ o : Offsets, o.axes = l.axes → o.contiguous = true → o.position = o.start+r → o.currentIndex = index

theorem numbers_packed (hv : (s.volume : Int) ≤ Address.maxSigned) : (packed s).Numbers := by
  have hd := dims_packed s
  have ho {index : List Nat} (hi : s.Contains index) : (packed s).offsetOf index = .ok (s.rank index : Int) :=
    offsetOf_packed hi hv
  have hrank {index : List Nat} {x : Int} (hi : s.Contains index) (hx : (packed s).offsetOf index = .ok x) :
      x = s.rank index := Except.ok.inj (hx.symm.trans (ho hi))
  constructor <;> rw [hd]
  · exact fun index hi => ⟨_,Shape.rank_lt hi,ho hi⟩
  · intro r hr
    obtain ⟨index,hi,rfl⟩ := Shape.exists_rank_eq hr
    exact ⟨index,⟨hi,ho hi⟩,fun other h => Shape.rank_injective h.1 hi (Int.ofNat.inj (hrank h.1 h.2)).symm⟩
  · intro i j p q hi hj hp hq
    rw [hrank hi hp,hrank hj hq,Int.ofNat_lt,Shape.rank_lt_rank_iff hi hj]

theorem spells_packed (hs : (s.span : Int) ≤ Address.maxSigned) (hi : s.Contains index) :
    (packed s).Spells index (s.rank index) where
  coordinate _ _ ha := coordinate_eq hs hi ha
  place := placeOf_rank hs hi
  digits := by rw [dims_packed,Shape.digits_rank hi]
  currentIndex o ha hc hp := by
    have hlt := Shape.rank_lt hi
    have hv := s.volume_le_span
    exact Offsets.currentIndex_eq (by rw [ha]; exact map_extent_packedAxes s) hc hi
      (by simp only [Address.maxSigned,Address.maxUnsigned] at *; omega) hp

/-- Where the product of the extents, with 0 counted as 1, is in range, there are row-major strides; each is the product
of the extents after its own. They number the indices, and the number of an index gives it back. -/
theorem rowMajor_numbers (hs : (s.span : Int) ≤ Address.maxSigned) :
    ∃ l : Layout, rowMajor s = .ok l ∧ rowMajorStrides s = .ok l.strides ∧ l.dims = s ∧ l.size = .ok s.volume ∧
      (∀ k < s.length, l.strides[k]? = some (Shape.volume (s.drop (k+1)) : Int)) ∧ l.Numbers ∧
      ∀ (index : List Nat) (r : Nat), s.Contains index → l.offsetOf index = .ok (r : Int) → l.Spells index r := by
  have hv : (s.volume : Int) ≤ Address.maxSigned := by
    have := s.volume_le_span
    omega
  have hsize : (packed s).size = .ok s.volume := by
    rw [size,dims_packed]
    exact Shape.size_eq_ok (by simp only [Address.maxSigned,Address.maxUnsigned] at *; omega)
  refine ⟨packed s,rowMajor_eq_ok hs,by rw [rowMajorStrides,rowMajor_eq_ok hs,ok_bind],dims_packed s,hsize,
    fun k hk => getElem?_strides_packed hk,numbers_packed hv,fun index r hi hr => ?_⟩
  obtain rfl : r = s.rank index := Int.ofNat.inj (Except.ok.inj (hr.symm.trans (offsetOf_packed hi hv)))
  exact spells_packed hs hi

def brink : Shape := [2147483648,3,1073741824]

theorem brink_numbers : (brink.span : Int) ≤ Address.maxSigned ∧
    ∃ l : Layout, rowMajor brink = .ok l ∧ l.strides = [3221225472,1073741824,1] ∧
      (∃! index, brink.Contains index ∧ l.offsetOf index = .ok 3221225472) ∧
      brink.Contains [2147483647,2,1073741823] ∧ l.offsetOf [2147483647,2,1073741823] = .ok 6917529027641081855 ∧
      6917529027641081855/Address.unsigned 1073741824%3 = 2 ∧
      Offsets.digits brink 6917529027641081855 = ([2147483647,2,1073741823],0) := by
  have h : (brink.span : Int) ≤ Address.maxSigned := by decide
  obtain ⟨l,hl,-,-,-,-,hnumbers,hspells⟩ := rowMajor_numbers h
  have hpacked : rowMajor brink = .ok ⟨[⟨2147483648,3221225472⟩,⟨3,1073741824⟩,⟨1073741824,1⟩]⟩ := by decide
  obtain rfl := Except.ok.inj (hl.symm.trans hpacked)
  have hlast : brink.Contains [2147483647,2,1073741823] := by decide
  have hr := hspells _ 6917529027641081855 hlast (by decide)
  have hmiddle := (hr.coordinate 1 _ rfl).2.2
  exact ⟨h,_,hl,rfl,hnumbers.existsUnique 3221225472 (by decide),hlast,by decide,(Option.some.inj hmiddle).symm,
    hr.digits⟩

end Layout

end Strided
