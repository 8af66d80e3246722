import Mathlib.Data.Int.ModEq
import Strided.Proofs.Full
import Strided.Proofs.WellFormed

set_option autoImplicit false

/-!
Which cells are reached through a view. Nothing is asked of the view here: extents may be too large for the signed range
and positions may wrap. What is computed with words is right modulo their number, so the walk, the run of a contiguous
view and the cell of a single index all lead to addresses of indices inside the extents, read as words.
-/
namespace Strided

namespace Address

theorem signed_modEq (n : Nat) : signed n ≡ n [ZMOD modulus] := Int.bmod_emod

theorem unsigned_congr {x y : Int} (h : x ≡ y [ZMOD modulus]) : unsigned x = unsigned y := by
  rw [unsigned,unsigned,h.eq]

end Address

namespace Steps

variable {σ α : Type}

theorem forall_unfold {P : α → Prop} (I : σ → Prop) {next? : σ → Result (Option (α × σ))}
    (h : ∀ s x t, I s → next? s = .ok (some (x,t)) → P x ∧ I t) (n : Nat) {s : σ} (hs : I s) :
    Forall P (unfold next? n s) := by
  induction n generalizing s with
  | zero => trivial
  | succ n ih =>
    unfold unfold
    split
    · trivial
    · rename_i x t ht
      obtain ⟨hx,hi⟩ := h s x t hs ht
      exact ⟨hx,ih hi⟩
    · trivial

end Steps

namespace Offsets

/-- A turn of the odometer leads to an index inside the extents and to its position; where all axes wrap, that is the
first one. -/
theorem turn_modEq {axes : List Axis} {index index' : List Nat} {base position position' : Int} {wrapped : Bool}
    (h : Shape.Contains (axes.map Axis.extent) index)
    (hp : position ≡ base+Layout.distanceAlong axes index [ZMOD Address.modulus])
    (ht : turn axes index position = .ok (wrapped,index',position')) :
    Shape.Contains (axes.map Axis.extent) index' ∧
      position' ≡ base+Layout.distanceAlong axes index' [ZMOD Address.modulus] ∧
      (wrapped = true → Layout.distanceAlong axes index' = 0) := by
  induction axes generalizing index base position wrapped index' position' with
  | nil =>
    cases index with
    | nil =>
      simp only [turn,Except.ok.injEq,Prod.mk.injEq] at ht
      obtain ⟨-,rfl,rfl⟩ := ht
      exact ⟨trivial,hp,fun _ => rfl⟩
    | cons i index => exact h.elim
  | cons a axes ih =>
    cases index with
    | nil => exact h.elim
    | cons i index =>
      obtain ⟨⟨around,rest,inner⟩,hr,ht⟩ := bind_eq_ok.1 ht
      rw [Layout.distanceAlong,← Int.add_assoc] at hp
      obtain ⟨hc,hq,hz⟩ := ih h.2 hp hr
      cases around with
      | false =>
        simp only [Bool.false_eq_true,↓reduceIte,Except.ok.injEq,Prod.mk.injEq] at ht
        obtain ⟨rfl,rfl,rfl⟩ := ht
        rw [Int.add_assoc] at hq
        exact ⟨⟨h.1,hc⟩,hq,by simp⟩
      | true =>
        have hrest : Layout.distanceAlong axes rest = 0 := hz rfl
        simp only [↓reduceIte] at ht
        obtain ⟨stepped,hstep,ht⟩ := bind_eq_ok.1 ht
        obtain ⟨-,rfl⟩ := Address.add_eq_ok_iff.1 hstep
        rw [hrest,Int.add_zero] at hq
        have hnext : inner+a.stride ≡ base+((i+1 : Nat) : Int)*a.stride [ZMOD Address.modulus] := by
          have he : base+((i+1 : Nat) : Int)*a.stride = base+i*a.stride+a.stride := by
            rw [Int.natCast_add,Int.add_mul]
            omega
          rw [he]
          exact hq.add_right a.stride
        by_cases hi : i+1 < a.extent
        · simp only [hi,↓reduceIte,Except.ok.injEq,Prod.mk.injEq] at ht
          obtain ⟨rfl,rfl,rfl⟩ := ht
          refine ⟨⟨hi,hc⟩,?_,by simp⟩
          rwa [Layout.distanceAlong,hrest,Int.add_zero]
        · simp only [hi,↓reduceIte] at ht
          obtain ⟨travel,htravel,ht⟩ := bind_eq_ok.1 ht
          obtain ⟨-,rfl⟩ := Address.mul_eq_ok_iff.1 htravel
          obtain ⟨rewound,hback,ht⟩ := bind_eq_ok.1 ht
          obtain ⟨-,rfl⟩ := Address.sub_eq_ok_iff.1 hback
          simp only [Except.ok.injEq,Prod.mk.injEq] at ht
          obtain ⟨rfl,rfl,rfl⟩ := ht
          have hi : a.extent = i+1 := by have := h.1; omega
          -- The axis gives back its stride once for each coordinate, however its extent reads as a signed word.
          have htake : a.stride*Address.signed a.extent ≡ ((i+1 : Nat) : Int)*a.stride [ZMOD Address.modulus] := by
            rw [Int.mul_comm,← hi]
            exact (Address.signed_modEq a.extent).mul_right a.stride
          have hzero : Layout.distanceAlong (a :: axes) (0 :: rest) = 0 := by simp [Layout.distanceAlong,hrest]
          have hpos : 0 < a.extent := by omega
          refine ⟨⟨hpos,hc⟩,?_,fun _ => hzero⟩
          have hsub := hnext.sub htake
          rw [Int.add_sub_cancel] at hsub
          rwa [hzero,Int.add_zero]

end Offsets

theorem Shape.le_maxUnsigned_of_size {s : Shape} {n : Nat} (h : s.size = .ok n) : n ≤ Address.maxUnsigned := by
  have hm (s : Shape) (m : Nat) (hl : m ≤ Address.maxUnsigned) (h : s.foldlM Address.mulCount m = .ok n) :
      n ≤ Address.maxUnsigned := by
    induction s generalizing m with
    | nil =>
      obtain rfl : m = n := by simpa using h
      exact hl
    | cons d s ih =>
      obtain ⟨k,hk,h⟩ := bind_eq_ok.1 h
      refine ih k ?_ h
      unfold Address.mulCount at hk
      split at hk
      · obtain rfl := Except.ok.inj hk
        assumption
      · cases hk
  exact hm s 1 (by decide) h

namespace View

/-- A cell that an index inside the extents leads to. The address is read as a word, which is no change for a view
inside its buffer. -/
def Addresses (v : View) (cell : Nat) : Prop :=
  ∃ index, v.dims.Contains index ∧ Address.unsigned (v.address index) = cell

variable {v : View}

theorem Inside.addresses_iff {length : Nat} (hv : v.Inside length) (hn : (length : Int) ≤ Address.maxSigned)
    {cell : Nat} : v.Addresses cell ↔ ∃ index, v.dims.Contains index ∧ v.address index = cell := by
  have he {index : List Nat} (hi : v.dims.Contains index) :
      (Address.unsigned (v.address index) : Int) = v.address index := by
    obtain ⟨h0,hlt⟩ := hv index hi
    exact Address.unsigned_of_nonneg h0 (by omega)
  constructor
  · rintro ⟨index,hi,rfl⟩
    exact ⟨index,hi,(he hi).symm⟩
  · rintro ⟨index,hi,ha⟩
    have := he hi
    exact ⟨index,hi,by omega⟩

theorem address_eq_of_isContiguous (h0 : 0 ∉ v.dims) (hn : v.dims.volume ≤ Address.maxUnsigned)
    (hc : v.isContiguous = true) {index : List Nat} (hi : v.dims.Contains index) :
    v.address index = v.offset+v.dims.rank index := by
  have he : v.layout.isEmpty = false := Bool.eq_false_iff.2 fun hz => h0 ((Layout.isEmpty_iff _).1 hz)
  rw [isContiguous,Layout.isContiguous,he,Bool.false_or] at hc
  rw [address,Layout.distance,Layout.distanceAlong_eq_rank_of_countable h0 hn hc hi]
  rfl

theorem addresses_of_isContiguous (hn : v.dims.volume ≤ Address.maxUnsigned) (hc : v.isContiguous = true) {r : Nat}
    (hr : r < v.dims.volume) {position : Int} (hp : position ≡ v.offset+r [ZMOD Address.modulus]) :
    v.Addresses (Address.unsigned position) := by
  have h0 : 0 ∉ v.dims := fun hz => by rw [(Shape.volume_eq_zero_iff _).2 hz] at hr; omega
  obtain ⟨index,hi,rfl⟩ := Shape.exists_rank_eq hr
  refine ⟨index,hi,Address.unsigned_congr ?_⟩
  rw [address_eq_of_isContiguous h0 hn hc hi]
  exact hp.symm

/-- A walk along a contiguous view before the element of rank `r`. -/
def Along (v : View) (o : Offsets) : Prop :=
  o.contiguous = true ∧ ∃ r, r+o.remaining = v.dims.volume ∧ o.position ≡ v.offset+r [ZMOD Address.modulus]

def Around (v : View) (o : Offsets) : Prop :=
  o.contiguous = false ∧ o.axes = v.layout.axes ∧ v.dims.Contains o.index ∧
    o.position ≡ v.address o.index [ZMOD Address.modulus]

theorem Along.next (hn : v.dims.volume ≤ Address.maxUnsigned) (hc : v.isContiguous = true) {o t : Offsets}
    {cell : Nat} (h : v.Along o) (ht : o.next? = .ok (some (cell,t))) : v.Addresses cell ∧ v.Along t := by
  obtain ⟨hoc,r,hr,hp⟩ := h
  unfold Offsets.next? at ht
  cases hm : o.remaining with
  | zero => simp [hm] at ht
  | succ m =>
    simp only [hm,hoc,↓reduceIte] at ht
    obtain ⟨position,hs,ht⟩ := bind_eq_ok.1 ht
    obtain ⟨-,rfl⟩ := Address.add_eq_ok_iff.1 hs
    simp only [Except.ok.injEq,Option.some.injEq,Prod.mk.injEq] at ht
    obtain ⟨rfl,rfl⟩ := ht
    refine ⟨addresses_of_isContiguous hn hc (by omega) hp,rfl,r+1,by simp only; omega,?_⟩
    have hs := hp.add_right 1
    rwa [Int.add_assoc] at hs

theorem Around.next {o t : Offsets} {cell : Nat} (h : v.Around o) (ht : o.next? = .ok (some (cell,t))) :
    v.Addresses cell ∧ v.Around t := by
  obtain ⟨hoc,ha,hi,hp⟩ := h
  unfold Offsets.next? at ht
  cases hm : o.remaining with
  | zero => simp [hm] at ht
  | succ m =>
    simp only [hm,hoc,Bool.false_eq_true,↓reduceIte] at ht
    by_cases hz : m = 0
    · simp only [hz,↓reduceIte,Except.ok.injEq,Option.some.injEq,Prod.mk.injEq] at ht
      obtain ⟨rfl,rfl⟩ := ht
      exact ⟨⟨o.index,hi,Address.unsigned_congr hp.symm⟩,rfl,ha,hi,hp⟩
    · simp only [hz,↓reduceIte] at ht
      obtain ⟨⟨around,index,position⟩,hturn,ht⟩ := bind_eq_ok.1 ht
      simp only [Except.ok.injEq,Option.some.injEq,Prod.mk.injEq] at ht
      obtain ⟨rfl,rfl⟩ := ht
      rw [ha] at hturn
      obtain ⟨hi',hp',-⟩ := Offsets.turn_modEq hi hp hturn
      exact ⟨⟨o.index,hi,Address.unsigned_congr hp.symm⟩,rfl,ha,hi',hp'⟩

/-- Whatever the view, its walk leads to cells of its indices only. -/
theorem forall_walk_offsets {o : Offsets} (h : v.offsets = .ok o) : Steps.Forall v.Addresses o.walk.steps := by
  obtain ⟨n,hn,h⟩ := bind_eq_ok.1 h
  obtain rfl := Except.ok.inj h
  have hvol : n = v.dims.volume := Shape.size_eq_volume hn
  have hle : v.dims.volume ≤ Address.maxUnsigned := hvol ▸ Shape.le_maxUnsigned_of_size hn
  subst hvol
  rw [Offsets.walk,Walk.unfold]
  by_cases h0 : 0 ∈ v.dims
  · rw [(Shape.volume_eq_zero_iff _).2 h0]
    trivial
  · have hstart := Address.signed_modEq v.offset
    by_cases hc : v.isContiguous = true
    · refine Steps.forall_unfold v.Along (fun o cell t ho ht => ho.next hle hc ht) _ ⟨hc,0,Nat.zero_add _,?_⟩
      simpa using hstart
    · have hodometer : v.Around {
          axes := v.layout.axes
          index := v.layout.dims.origin
          start := Address.signed v.offset
          position := Address.signed v.offset
          remaining := v.dims.volume
          contiguous := v.layout.isContiguous } := by
        refine ⟨by simpa [isContiguous] using hc,rfl,Shape.contains_origin h0,?_⟩
        have hz : v.layout.distance v.layout.dims.origin = 0 := Layout.distanceAlong_origin v.layout.axes
        simp only [address,hz,Int.add_zero]
        exact hstart
      exact Steps.forall_unfold v.Around (fun o cell t ho ht => ho.next ht) _ hodometer

theorem offsetFrom_modEq {axes : List Axis} {index : List Nat} {total distance : Int}
    (h : Layout.offsetFrom total index axes = .ok distance) :
    distance ≡ total+Layout.distanceAlong axes index [ZMOD Address.modulus] := by
  induction axes generalizing index total with
  | nil =>
    cases index <;> simp_all [Layout.offsetFrom,Layout.distanceAlong]
  | cons a axes ih =>
    cases index with
    | nil => simp_all [Layout.offsetFrom,Layout.distanceAlong]
    | cons i index =>
      obtain ⟨step,hs,h⟩ := bind_eq_ok.1 h
      obtain ⟨next,hn,h⟩ := bind_eq_ok.1 h
      have hstep : next ≡ total+i*a.stride [ZMOD Address.modulus] := by
        rw [(Address.add_eq_ok_iff.1 hn).2,(Address.mul_eq_ok_iff.1 hs).2]
        exact ((Address.signed_modEq i).mul_right a.stride).add_left total
      rw [Layout.distanceAlong,← Int.add_assoc]
      exact (ih h).trans (hstep.add_right _)

theorem addresses_of_cellOf {index : List Nat} {cell : Nat} (h : v.cellOf index = .ok cell) : v.Addresses cell := by
  obtain ⟨distance,hd,h⟩ := bind_eq_ok.1 h
  obtain ⟨position,hp,h⟩ := bind_eq_ok.1 h
  obtain ⟨-,hp⟩ := Address.add_eq_ok_iff.1 hp
  have hcell : Address.unsigned position = cell := Except.ok.inj h
  unfold Layout.checkedOffsetOf at hd
  by_cases hl : index.length = v.layout.rank
  · by_cases hi : v.dims.Contains index
    · have hany := Shape.Contains.any_eq_false hi
      rw [dims] at hany
      simp only [hl,ne_eq,not_true_eq_false,↓reduceIte,hany,Bool.false_eq_true] at hd
      have hm := (Address.signed_modEq v.offset).add (offsetFrom_modEq hd)
      rw [Int.zero_add,← hp] at hm
      refine ⟨index,hi,?_⟩
      rw [← hcell,address,Layout.distance]
      exact Address.unsigned_congr hm.symm
    · have hany := Shape.any_eq_true_of_not_contains (hl.trans v.length_dims.symm) hi
      rw [dims] at hany
      simp [hl,hany,refuse] at hd
  · simp [hl,refuse] at hd

end View

end Strided
