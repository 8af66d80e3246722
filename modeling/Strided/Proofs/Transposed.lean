import Strided.Proofs.Blocks
import Strided.Proofs.Reindexing

set_option autoImplicit false

namespace Strided

namespace Permutation

variable {β : Type} {perm : List Nat} {n : Nat}

theorem arrange_injective {xs ys : List β} (h : validate perm n = .ok ()) (hx : xs.length = n) (hy : ys.length = n)
    (he : arrange perm xs = arrange perm ys) : xs = ys := by
  have hlt := (validate_spec h).2.2
  refine List.ext_getElem? fun p => ?_
  by_cases hp : p < n
  · obtain ⟨k,hk⟩ := List.mem_iff_getElem?.1 ((perm_range_of_validate h).mem_iff.2 (List.mem_range.2 hp))
    have hg := congrArg (·[k]?) he
    simpa [getElem?_arrange (hx ▸ hlt),getElem?_arrange (hy ▸ hlt),hk] using hg
  · rw [List.getElem?_eq_none (by omega),List.getElem?_eq_none (by omega)]

end Permutation

namespace Shape

theorem unsigned_volume {s : Shape} (h : (s.span : Int) ≤ Address.maxSigned) :
    Address.unsigned (s.volume : Int) = s.volume := by
  have hv := s.volume_le_span
  exact Int.ofNat.inj (Address.unsigned_of_nonneg (by omega) (by omega))

theorem contains_restore {s : Shape} {perm index : List Nat} (hp : Permutation.validate perm s.length = .ok ())
    (hi : Contains (Permutation.arrange perm s) index) :
    s.Contains (Permutation.restore perm index) ∧ Permutation.arrange perm (Permutation.restore perm index) = index := by
  have hl : index.length = s.length := by rw [hi.length_eq,(Permutation.arrange_perm hp rfl).length_eq]
  have hr : (Permutation.restore perm index).length = s.length := by
    rw [Permutation.restore,List.length_map,List.length_range,(Permutation.validate_spec hp).2.1]
  have ha := Permutation.arrange_restore hp hl
  refine ⟨(contains_arrange hp hr).1 ?_,ha⟩
  rwa [ha]

end Shape

namespace Layout

theorem coordinates_eq {s : Shape} {index : List Nat} (h : s.Contains index) (hs : (s.span : Int) ≤ Address.maxSigned)
    (n : Nat) :
    (packedAxes s).map (fun a => (n*s.volume+s.rank index)/Address.unsigned a.stride%a.extent) = index := by
  induction s generalizing index n with
  | nil => cases index <;> simp_all [packedAxes,Shape.Contains]
  | cons d s ih =>
    cases index with
    | nil => exact h.elim
    | cons i index =>
      have hs' := Shape.span_tail_le_maxSigned hs
      have hlt := Shape.rank_lt h.2
      have hn : n*Shape.volume (d :: s)+Shape.rank (d :: s) (i :: index) =
          (n*d+i)*Shape.volume s+Shape.rank s index := by
        simp only [Shape.volume,Shape.rank,Nat.add_mul,Nat.mul_assoc,Nat.add_assoc]
      have hi : ((n*d+i)*Shape.volume s+Shape.rank s index)/Shape.volume s%d = i := by
        rw [Nat.add_comm,Nat.add_mul_div_right _ _ (by omega),Nat.div_eq_of_lt hlt,Nat.zero_add,Nat.add_comm,
          Nat.add_mul_mod_self_right,Nat.mod_eq_of_lt h.1]
      rw [hn,packedAxes,List.map_cons,ih h.2 hs',Shape.unsigned_volume hs',hi]

end Layout

namespace Snapshot

variable {α : Type}

theorem placeOf_eq {r total : Nat} {sources : List Axis} {t : Shape} {index : List Nat}
    (h : sources.map (fun a => r/Address.unsigned a.stride%a.extent) = index) (hi : t.Contains index)
    (ht : (t.span : Int) ≤ Address.maxSigned) (hb : total+t.rank index ≤ Address.maxUnsigned) :
    placeOf r (sources.zip (Layout.packed t).strides) total = .ok (total+t.rank index) := by
  induction t generalizing sources total index with
  | nil => cases index <;> simp_all [Shape.Contains,Layout.packed,Layout.packedAxes,Layout.strides,placeOf,Shape.rank]
  | cons d t ih =>
    cases index with
    | nil => exact hi.elim
    | cons i index =>
      obtain ⟨a,sources,rfl,ha,hrest⟩ := List.map_eq_cons_iff.1 h
      have ht' := Shape.span_tail_le_maxSigned ht
      simp only [Shape.rank] at hb ⊢
      have hstep : Address.mulCount i (Shape.volume t) = .ok (i*Shape.volume t) := if_pos (by omega)
      have htotal : Address.addCount total (i*Shape.volume t) = .ok (total+i*Shape.volume t) := if_pos (by omega)
      have hz : (a :: sources).zip (Layout.packed (d :: t)).strides =
          (a,(Shape.volume t : Int)) :: sources.zip (Layout.packed t).strides := rfl
      rw [hz,placeOf,ha,Shape.unsigned_volume ht',hstep,ok_bind,htotal,ok_bind,ih hrest hi.2 ht' (by omega),Nat.add_assoc]

/-- Where every value has its own place, each is found there afterwards, and no other place has changed. -/
theorem scatter_spec (axes : List (Axis × Int)) (place : Nat → Nat) (xs : List α) (first : Nat) (out : Array α)
    (hp : ∀ k, first ≤ k → k < first+xs.length → placeOf k axes 0 = .ok (place k) ∧ place k < out.size)
    (hinj : ∀ j k, first ≤ j → j < k → k < first+xs.length → place j ≠ place k) :
    ∃ out', scatter axes first xs out = .ok out' ∧ out'.size = out.size ∧
      (∀ q, (∀ k, first ≤ k → k < first+xs.length → place k ≠ q) → out'[q]? = out[q]?) ∧
      ∀ (k : Nat) (x : α), xs[k]? = some x → out'[place (first+k)]? = some x := by
  induction xs generalizing first out with
  | nil => exact ⟨out,rfl,rfl,fun _ _ => rfl,by simp⟩
  | cons x xs ih =>
    simp only [List.length_cons] at hp hinj
    obtain ⟨hplace,hlt⟩ := hp first (Nat.le_refl _) (by omega)
    obtain ⟨out',hout,hsize,hframe,hvalue⟩ := ih (first+1) (out.setIfInBounds (place first) x)
      (fun k h1 h2 => by simpa using hp k (by omega) (by omega)) fun j k h1 h2 h3 => hinj j k (by omega) h2 (by omega)
    refine ⟨out',by rw [scatter,hplace,ok_bind,if_pos hlt,hout],by simpa using hsize,fun q hq => ?_,fun k y hy => ?_⟩
    · rw [hframe q fun k h1 h2 => hq k (by omega) (by simp only [List.length_cons]; omega)]
      exact Array.getElem?_setIfInBounds_ne (hq first (Nat.le_refl _) (by simp))
    · cases k with
      | zero =>
        obtain rfl : x = y := by simpa using hy
        rw [Nat.add_zero,hframe _ fun k h1 h2 => (hinj first k (Nat.le_refl _) (by omega) (by omega)).symm]
        simp [hlt]
      | succ k =>
        have hk := hvalue k y (by simpa using hy)
        rwa [show first+(k+1) = first+1+k by omega]

theorem scatter_eq (axes : List (Axis × Int)) (place : Nat → Nat) (xs : List α)
    (hp : ∀ k, k < xs.length → placeOf k axes 0 = .ok (place k) ∧ place k < xs.length)
    (hinj : ∀ j k, j < k → k < xs.length → place j ≠ place k) :
    ∃ out, scatter axes 0 xs xs.toArray = .ok out ∧ out.size = xs.length ∧
      ∀ (k : Nat) (x : α), xs[k]? = some x → out[place k]? = some x := by
  obtain ⟨out,hout,hsize,-,hvalue⟩ := scatter_spec axes place xs 0 xs.toArray
    (fun k _ hk => by simpa using hp k (by omega)) fun j k _ hjk hk => hinj j k hjk (by omega)
  exact ⟨out,hout,by simpa using hsize,fun k x hx => by simpa using hvalue k x hx⟩

def transposition (s : Shape) (perm : List Nat) : List (Axis × Int) :=
  (Permutation.arrange perm (Layout.packedAxes s)).zip (Layout.packed (Permutation.arrange perm s)).strides

def placeIn (s : Shape) (perm : List Nat) (k : Nat) : Nat :=
  Shape.rank (Permutation.arrange perm s) (Permutation.arrange perm ((s.indices[k]?).getD []))

theorem placeIn_rank {s : Shape} (perm : List Nat) {index : List Nat} (hi : s.Contains index) :
    placeIn s perm (s.rank index) = Shape.rank (Permutation.arrange perm s) (Permutation.arrange perm index) := by
  rw [placeIn,Shape.getElem?_indices hi]
  rfl

section Places

variable {s : Shape} {perm : List Nat}

theorem placeIn_lt (hp : Permutation.validate perm s.length = .ok ()) {index : List Nat} (hi : s.Contains index) :
    placeIn s perm (s.rank index) < s.volume := by
  rw [placeIn_rank perm hi,← Shape.volume_perm (Permutation.arrange_perm hp rfl)]
  exact Shape.rank_lt ((Shape.contains_arrange hp hi.length_eq).2 hi)

theorem placeOf_transposition (hs : s.span ≤ 2^50) (hp : Permutation.validate perm s.length = .ok ())
    {index : List Nat} (hi : s.Contains index) :
    placeOf (s.rank index) (transposition s perm) 0 = .ok (placeIn s perm (s.rank index)) := by
  have hspan : ((2^50 : Nat) : Int) ≤ Address.maxSigned := by decide
  have hcoordinates := Layout.coordinates_eq hi (by omega) 0
  rw [Nat.zero_mul,Nat.zero_add] at hcoordinates
  have hsources : (Permutation.arrange perm (Layout.packedAxes s)).map
      (fun a => s.rank index/Address.unsigned a.stride%a.extent) = Permutation.arrange perm index := by
    rw [Permutation.map_arrange,hcoordinates]
  have hcopy := (Shape.contains_arrange hp hi.length_eq).2 hi
  have hcopySpan : (Shape.span (Permutation.arrange perm s) : Int) ≤ Address.maxSigned := by
    rw [Shape.span_perm (Permutation.arrange_perm hp rfl)]
    omega
  have hlt := placeIn_lt hp hi
  have hv := s.volume_le_span
  rw [placeIn_rank perm hi] at hlt ⊢
  rw [transposition,placeOf_eq hsources hcopy hcopySpan (by simp only [Address.maxUnsigned]; omega),Nat.zero_add]

theorem placeIn_ne (hp : Permutation.validate perm s.length = .ok ()) {i j : List Nat} (hi : s.Contains i)
    (hj : s.Contains j) (h : s.rank i ≠ s.rank j) : placeIn s perm (s.rank i) ≠ placeIn s perm (s.rank j) := by
  intro he
  rw [placeIn_rank perm hi,placeIn_rank perm hj] at he
  have ha := Shape.rank_injective ((Shape.contains_arrange hp hi.length_eq).2 hi)
    ((Shape.contains_arrange hp hj.length_eq).2 hj) he
  exact h (congrArg s.rank (Permutation.arrange_injective hp hi.length_eq hj.length_eq ha))

end Places

theorem exists_scatter [Element α] {s : Snapshot α} (hs : s.dims.span ≤ 2^50) {perm : List Nat}
    (hp : Permutation.validate perm s.dims.length = .ok ()) :
    ∃ out, scatter (transposition s.dims perm) 0 s.values s.values.toArray = .ok out ∧
      out.toList = (Shape.indices (Permutation.arrange perm s.dims)).map fun index =>
        s.valueAt (Permutation.restore perm index) := by
  have hrank {k : Nat} (hk : k < s.values.length) : ∃ index, s.dims.Contains index ∧ s.dims.rank index = k :=
    Shape.exists_rank_eq (by simpa using hk)
  obtain ⟨out,hout,hsize,hvalue⟩ := scatter_eq (transposition s.dims perm) (placeIn s.dims perm) s.values
    (fun k hk => by
      obtain ⟨index,hi,rfl⟩ := hrank hk
      exact ⟨placeOf_transposition hs hp hi,by simpa using placeIn_lt hp hi⟩)
    (fun j k hjk hk => by
      obtain ⟨i,hi,rfl⟩ := hrank (Nat.lt_trans hjk hk)
      obtain ⟨index,hx,rfl⟩ := hrank hk
      exact placeIn_ne hp hi hx (Nat.ne_of_lt hjk))
  refine ⟨out,hout,List.ext_getElem? fun q => ?_⟩
  by_cases hq : q < Shape.volume (Permutation.arrange perm s.dims)
  · obtain ⟨index,hi,rfl⟩ := Shape.exists_rank_eq hq
    obtain ⟨hr,ha⟩ := Shape.contains_restore hp hi
    have hx : s.values[s.dims.rank (Permutation.restore perm index)]? =
        some (s.valueAt (Permutation.restore perm index)) := by
      simp [values,Shape.getElem?_indices hr]
    have hplace := hvalue _ _ hx
    rw [placeIn_rank perm hr,ha] at hplace
    simp [hplace,Shape.getElem?_indices hi]
  · have harr : (Permutation.arrange perm s.dims).Perm s.dims := Permutation.arrange_perm hp rfl
    have hvol := Shape.volume_perm harr
    rw [List.getElem?_eq_none (by simp [hsize]; omega),List.getElem?_eq_none (by simp; omega)]

theorem Sound.tabulates_transposeAxes [Element α] {s : Snapshot α} (hs : s.Sound) {perm : List Nat}
    (hp : Permutation.validate perm s.rank = .ok ()) :
    Block.Tabulates (Permutation.arrange perm s.dims) (fun index => .ok (s.valueAt (Permutation.restore perm index)))
      (s.transposeAxes perm) := by
  have hp' : Permutation.validate perm s.dims.length = .ok () := by rwa [dims,View.length_dims]
  have harr : (Permutation.arrange perm s.dims).Perm s.dims := Permutation.arrange_perm hp' rfl
  have hspan : Shape.span (Permutation.arrange perm s.dims) ≤ 2^50 := le_of_eq_of_le (Shape.span_perm harr) hs.span_le
  obtain ⟨out,hout,hdata⟩ := exists_scatter hs.span_le hp'
  have hm : (Shape.indices (Permutation.arrange perm s.dims)).mapM
      (fun index => (.ok (s.valueAt (Permutation.restore perm index)) : Result α)) = .ok out.toList :=
    (mapM_ok fun _ _ => rfl).trans (by rw [hdata])
  have hof : Block.ofList (Permutation.arrange perm s.dims) out.toList =
      .ok { layout := Layout.packed (Permutation.arrange perm s.dims), data := out.toList } :=
    Block.ofList_eq hspan (by simp [hdata])
  have hcopy : s.transposeAxes perm =
      .ok { layout := Layout.packed (Permutation.arrange perm s.dims), data := out.toList } := by
    rw [transposeAxes,hp,ok_bind]
    simp only [hs.toList_eq,ok_bind]
    cases hv : s.values with
    | nil =>
      have hz : out.toList = [] := by
        have hl := congrArg List.length hv
        rw [length_values,← Shape.volume_perm harr] at hl
        rw [← List.length_eq_zero_iff,hdata,List.length_map,Shape.length_indices]
        exact hl
      rw [← hof,hz]
      rfl
    | cons x xs =>
      have haxes : Layout.rowMajorAxes s.dims = .ok (Layout.packedAxes s.dims) :=
        Layout.rowMajorAxes_eq_ok (Int.le_trans (Int.ofNat_le.2 hs.span_le) (by decide))
      have hstrides : Layout.rowMajorStrides (Permutation.arrange perm s.dims) =
          .ok (Layout.packed (Permutation.arrange perm s.dims)).strides := by
        rw [Layout.rowMajorStrides,Layout.rowMajor_eq_packed hspan,ok_bind]
      rw [hv] at hout
      rw [transposition] at hout
      simp only [List.isEmpty_cons,Bool.false_eq_true,↓reduceIte,haxes,hstrides,ok_bind,hout,hof]
  rw [hcopy]
  exact ⟨rfl,hm⟩

end Snapshot

end Strided
