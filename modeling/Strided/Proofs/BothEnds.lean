import Strided.Proofs.Slabs

set_option autoImplicit false

namespace Strided

inductive End where
  | front
  | back
  deriving DecidableEq, Repr

namespace End

def pop {α : Type} : End → List α → Option α × List α
  | .front, xs => (xs.head?,xs.tail)
  | .back, xs => (xs.getLast?,xs.dropLast)

def popEach {α : Type} : List End → List α → List (Option α) × List α
  | [], xs => ([],xs)
  | e :: ends, xs => ((e.pop xs).1 :: (popEach ends (e.pop xs).2).1,(popEach ends (e.pop xs).2).2)

variable {α : Type}

@[simp] theorem pop_nil (e : End) : e.pop ([] : List α) = (none,[]) := by cases e <;> rfl

@[simp] theorem length_pop (e : End) (xs : List α) : (e.pop xs).2.length = xs.length-1 := by
  cases e <;> simp [pop]

theorem length_popEach (ends : List End) (xs : List α) : (popEach ends xs).2.length = xs.length-ends.length := by
  induction ends generalizing xs with
  | nil => rfl
  | cons e ends ih =>
    rw [popEach,ih,length_pop,List.length_cons]
    omega

end End

namespace Slabs

/-- The answer at an end and the slabs after it, which are the same ones where the answer is nothing. -/
def take (s : Slabs) : End → Result (Option View × Slabs)
  | .front => do
    match ← s.next? with
    | none => .ok (none,s)
    | some (v,rest) => .ok (some v,rest)
  | .back => do
    match ← s.nextBack? with
    | none => .ok (none,s)
    | some (v,rest) => .ok (some v,rest)

def takeEach : List End → Slabs → Result (List (Option View) × Slabs)
  | [], s => .ok ([],s)
  | e :: ends, s => do
    let (x,s) ← s.take e
    let (xs,s) ← takeEach ends s
    .ok (x :: xs,s)

def items (s : Slabs) : List View := (List.range' s.front (s.back-s.front)).map (s.source.slabbed s.axis)

/-- Slabs of a view along an axis whose ends are in order and not past the extent. -/
structure Between (v : View) (axis : Nat) (s : Slabs) : Prop where
  source_eq : s.source = v
  axis_eq : s.axis = axis
  ordered : s.front ≤ s.back
  inside : s.back ≤ (v.dims[axis]?).getD 0

variable {v : View} {axis length : Nat} {s : Slabs}

theorem between_ofAxis (v : View) (axis : Nat) : Between v axis (ofAxis v axis) :=
  ⟨rfl,rfl,Nat.zero_le _,Nat.le_refl _⟩

theorem items_ofAxis (v : View) (axis : Nat) :
    (ofAxis v axis).items = (List.range ((v.dims[axis]?).getD 0)).map (v.slabbed axis) := by
  simp [items,ofAxis,List.range_eq_range']

theorem length_items (s : Slabs) : s.items.length = s.length := by simp [items,length]

theorem items_of_eq (h : s.front = s.back) : s.items = [] := by simp [items,h]

theorem items_eq_cons (h : s.front < s.back) :
    s.items = s.source.slabbed s.axis s.front :: { s with front := s.front+1 }.items := by
  obtain ⟨n,hn⟩ : ∃ n, s.back-s.front = n+1 := ⟨s.back-s.front-1,by omega⟩
  have hn' : s.back-(s.front+1) = n := by omega
  simp only [items,hn,hn',List.range'_succ,List.map_cons]

theorem items_eq_concat (h : s.front < s.back) :
    s.items = { s with back := s.back-1 }.items++[s.source.slabbed s.axis (s.back-1)] := by
  obtain ⟨n,hn⟩ : ∃ n, s.back-s.front = n+1 := ⟨s.back-s.front-1,by omega⟩
  have hn' : s.back-1-s.front = n := by omega
  have hlast : s.front+n = s.back-1 := by omega
  simp only [items,hn,hn',List.range'_1_concat,List.map_append,List.map_cons,List.map_nil,hlast]

theorem Between.slabAt_eq (hv : v.Near length) (h : Between v axis s) {i : Nat} (hi : i < s.back) :
    s.source.slabAt s.axis i = .ok (s.source.slabbed s.axis i) := by
  have hin := h.inside
  cases hd : v.layout.dims[axis]? with
  | none =>
    simp only [View.dims,hd,Option.getD_none] at hin
    omega
  | some d =>
    simp only [View.dims,hd,Option.getD_some] at hin
    obtain ⟨a,ha,rfl⟩ := Layout.exists_axis hd
    rw [h.source_eq,h.axis_eq,hv.slabAt_eq ha (by omega)]

/-- One step at either end takes the item there and leaves the others. -/
theorem Between.take (hv : v.Near length) (h : Between v axis s) (e : End) :
    ∃ t, s.take e = .ok ((e.pop s.items).1,t) ∧ Between v axis t ∧ t.items = (e.pop s.items).2 := by
  have ho := h.ordered
  have hin := h.inside
  by_cases hlt : s.front < s.back
  · cases e with
    | front =>
      refine ⟨{ s with front := s.front+1 },?_,⟨h.source_eq,h.axis_eq,hlt,hin⟩,by rw [items_eq_cons hlt]; rfl⟩
      rw [items_eq_cons hlt]
      simp only [Slabs.take,next?,hlt,↓reduceIte,h.slabAt_eq hv hlt,ok_bind]
      rfl
    | back =>
      have hlast : s.back-1 < s.back := by omega
      refine ⟨{ s with back := s.back-1 },?_,⟨h.source_eq,h.axis_eq,by simp only; omega,by simp only; omega⟩,?_⟩
      · rw [items_eq_concat hlt]
        simp only [Slabs.take,nextBack?,hlt,↓reduceIte,h.slabAt_eq hv hlast,ok_bind,End.pop,List.getLast?_concat]
      · rw [items_eq_concat hlt,End.pop,List.dropLast_concat]
  · have hnil := items_of_eq (s := s) (by omega)
    refine ⟨s,?_,h,by rw [hnil,End.pop_nil]⟩
    rw [hnil,End.pop_nil]
    cases e <;> simp [Slabs.take,next?,nextBack?,hlt]

theorem Between.takeEach (hv : v.Near length) (h : Between v axis s) (ends : List End) :
    ∃ t, s.takeEach ends = .ok ((End.popEach ends s.items).1,t) ∧ Between v axis t ∧
      t.items = (End.popEach ends s.items).2 := by
  induction ends generalizing s with
  | nil => exact ⟨s,rfl,h,rfl⟩
  | cons e ends ih =>
    obtain ⟨t,ht,hb,hi⟩ := h.take hv e
    obtain ⟨u,hu,hb',hi'⟩ := ih hb
    rw [hi] at hu hi'
    refine ⟨u,?_,hb',hi'⟩
    rw [Slabs.takeEach,ht,ok_bind]
    simp only [hu,ok_bind,End.popEach]

/-- Taken in any order from either end, the slabs are the items of a list taken in that order: the count is always that
of the items left, the ends never pass each other, and when there have been as many steps as items every further one
answers with nothing. -/
def Pops (s : Slabs) (items : List View) : Prop :=
  ∀ ends, ∃ t, s.takeEach ends = .ok ((End.popEach ends items).1,t) ∧ t.front ≤ t.back ∧
    t.length = (End.popEach ends items).2.length ∧ (items.length ≤ ends.length → ∀ e, t.take e = .ok (none,t))

theorem Between.pops (hv : v.Near length) (h : Between v axis s) : s.Pops s.items := by
  intro ends
  obtain ⟨t,ht,hb,hi⟩ := h.takeEach hv ends
  have hlen : t.length = (End.popEach ends s.items).2.length := by rw [← length_items,hi]
  refine ⟨t,ht,hb.ordered,hlen,fun hle e => ?_⟩
  have ho := hb.ordered
  have hmet : ¬ t.front < t.back := by
    rw [End.length_popEach,Slabs.length] at hlen
    omega
  cases e <;> simp [Slabs.take,next?,nextBack?,hmet]

end Slabs

namespace View

variable {v : View} {length : Nat}

/-- Along each axis of a well-formed view the slabs can be taken from both ends in any order like the list of the slabs
at the coordinates in turn. A view without axes has none to take. -/
theorem WellFormed.slabs_from_both_ends (h : v.WellFormed length) :
    (∀ axis < v.rank, ∃ s items, Slabs.along v axis = .ok s ∧ v.dims[axis]? = some items.length ∧
      (List.range items.length).mapM (v.slabAlong axis) = .ok items ∧ s.Pops items) ∧
      (v.rank = 0 → (Slabs.ofAxis v 0).Pops []) := by
  have hn := h.sound.toNear
  refine ⟨fun axis hr => ?_,fun hr => ?_⟩
  · obtain ⟨a,ha⟩ : ∃ a, v.layout.axes[axis]? = some a := ⟨_,List.getElem?_eq_getElem hr⟩
    have hd : v.dims[axis]? = some a.extent := by simp [dims,Layout.dims,ha]
    have hi : (Slabs.ofAxis v axis).items = (List.range a.extent).map (v.slabbed axis) := by
      rw [Slabs.items_ofAxis,hd,Option.getD_some]
    have hp := (Slabs.between_ofAxis v axis).pops hn
    rw [hi] at hp
    refine ⟨Slabs.ofAxis v axis,_,if_pos hr,by simpa using hd,?_,hp⟩
    rw [List.length_map,List.length_range]
    exact mapM_ok fun i hi => hn.slabAlong_eq ha (List.mem_range.1 hi)
  · have hd : v.dims[0]? = none := List.getElem?_eq_none (Nat.le_of_eq (by rw [length_dims,hr]))
    have hp := (Slabs.between_ofAxis v 0).pops hn
    rwa [Slabs.items_ofAxis,hd] at hp

theorem zigzag_from_both_ends :
    let column (offset : Nat) : View := { buffer := 0, layout := ⟨[⟨2,1⟩]⟩, offset }
    let dot : View := { buffer := 0, layout := ⟨[]⟩, offset := 3 }
    (Snapshot.zigzag.view.WellFormed 6 ∧ 1 < Snapshot.zigzag.view.rank ∧
      ∃ s t, Slabs.along Snapshot.zigzag.view 1 = .ok s ∧
        s.takeEach [.back,.front,.back,.front] = .ok ([some (column 0),some (column 4),some (column 2),none],t) ∧
        t.length = 0) ∧
      dot.WellFormed 6 ∧ dot.rank = 0 ∧ ∃ t, (Slabs.ofAxis dot 0).takeEach [.back,.front] = .ok ([none,none],t) := by
  intro column dot
  have h : Snapshot.zigzag.view.WellFormed 6 := by decide
  have hdot : dot.WellFormed 6 := by decide
  obtain ⟨s,items,hs,hd,hm,hp⟩ := (WellFormed.slabs_from_both_ends h).1 1 (by decide)
  have hl : items.length = 3 := Option.some.inj (hd.symm.trans (by decide))
  have hslabs : (List.range 3).mapM (Snapshot.zigzag.view.slabAlong 1) = .ok [column 4,column 2,column 0] := by
    decide +kernel
  rw [hl,hslabs] at hm
  obtain rfl := Except.ok.inj hm
  obtain ⟨t,ht,-,hlen,-⟩ := hp [.back,.front,.back,.front]
  obtain ⟨u,hu,-⟩ := (WellFormed.slabs_from_both_ends hdot).2 rfl [.back,.front]
  exact ⟨⟨h,by decide,s,t,hs,ht,hlen⟩,hdot,rfl,u,hu⟩

end View

end Strided
