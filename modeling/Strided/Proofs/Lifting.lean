import Strided.Proofs.Acceptance
import Strided.Proofs.Blocks
import Strided.Proofs.CommonShape
import Strided.Proofs.Translation
import Strided.Snapshot.Elementwise

set_option autoImplicit false

namespace Strided

/-- The block is row-major and has, at each index of the shape, the result of `g`. -/
structure Block.Holds {α : Type} (b : Block α) (s : Shape) (g : List Nat → Result α) : Prop where
  layout_eq : Layout.rowMajor s = .ok b.layout
  dims_eq : b.dims = s
  length_eq : b.data.length = s.volume
  get_eq : ∀ index, s.Contains index → ∃ x, g index = .ok x ∧ b.snapshot.get index = .ok x

theorem Block.Tabulates.exists_holds {α : Type} {s : Shape} {g g' : List Nat → Result α} {r : Result (Block α)}
    (h : Tabulates s g r) (hs : s.span ≤ 2^50) (hg : ∀ index, s.Contains index → ∃ x, g index = .ok x ∧ g' index = .ok x) :
    ∃ b, r = .ok b ∧ b.Holds s g' := by
  obtain ⟨b,rfl⟩ := h.exists_ok fun index hi => (hg index hi).imp fun _ hx => hx.1
  have hl : Layout.rowMajor s = .ok b.layout := by rw [h.1,Layout.rowMajor_eq_packed hs]
  refine ⟨b,rfl,hl,h.dims_eq,h.length_data,fun index hi => ?_⟩
  obtain ⟨x,hx,hx'⟩ := hg index hi
  exact ⟨x,hx',by rw [h.get_eq hs hi,hx]⟩

theorem View.exists_broadcastTo_iff {v : View} {target : Shape} :
    (∃ w, v.broadcastTo target = .ok w) ↔ v.dims.StretchesTo target := by
  rw [dims,← Layout.exists_broadcastTo_iff]
  constructor
  · rintro ⟨w,hw⟩
    obtain ⟨l,hl,-⟩ := bind_eq_ok.1 hw
    exact ⟨l,hl⟩
  · rintro ⟨l,hl⟩
    exact ⟨{ v with layout := l },by rw [broadcastTo,hl,ok_bind]⟩

theorem View.dims_of_broadcastTo {v w : View} {target : Shape} (h : v.broadcastTo target = .ok w) : w.dims = target := by
  obtain ⟨l,hl,h⟩ := bind_eq_ok.1 h
  obtain rfl := Except.ok.inj h
  exact Layout.dims_of_broadcastTo hl

namespace Snapshot

open Block (Tabulates)
open Shape (joint Compatible)

variable {α β γ δ : Type}

theorem exists_stretched {s : Snapshot α} {target : Shape} (h : s.dims.StretchesTo target) :
    ∃ v, s.view.broadcastTo target = .ok v ∧ s.stretched target = .ok (s.through v) ∧ (s.through v).dims = target := by
  obtain ⟨v,hv⟩ := View.exists_broadcastTo_iff.2 h
  exact ⟨v,hv,by rw [stretched,hv,ok_bind],View.dims_of_broadcastTo hv⟩

theorem valueAt_of_translates [Element α] {s : Snapshot α} {v : View} {source : List Nat → List Nat}
    (h : s.view.Translates v source) {index : List Nat} (hi : v.dims.Contains index) :
    (s.through v).valueAt index = s.valueAt (source index) := by
  simp only [valueAt,through,h.buffer_eq,h.cell_eq hi]

def seenAt [Element α] (s : Snapshot α) (index : List Nat) : α := s.valueAt (s.dims.restrict index)

theorem Sound.walk_stretched [Element α] {s : Snapshot α} (hs : s.Sound) {target : Shape}
    (h : s.dims.StretchesTo target) (hb : target.span ≤ 2^50) :
    ∃ t, s.stretched target = .ok t ∧
      t.walk = .ok (Walk.ofList (target.indices.map s.seenAt)) := by
  obtain ⟨v,hv,ht,hd⟩ := exists_stretched h
  have hsound : (s.through v).Sound := by
    obtain ⟨-,hsound⟩ := View.Sound.broadcastTo hs hb hv
    have hb := (View.translates_of_broadcastTo hv).buffer_eq
    rwa [Sound,through,hb]
  have hvalues : (s.through v).values = target.indices.map s.seenAt := by
    rw [values,hd]
    refine List.map_congr_left fun index hi => ?_
    rw [← hd] at hi
    exact valueAt_of_translates (View.translates_of_broadcastTo hv) (Shape.mem_indices.1 hi)
  exact ⟨_,ht,by rw [hsound.walk_eq,hvalues]⟩

theorem Sound.get_restrict [Element α] {s : Snapshot α} (hs : s.Sound) {target : Shape} (h : s.dims.StretchesTo target)
    {index : List Nat} (hi : target.Contains index) : s.get (s.dims.restrict index) = .ok (s.seenAt index) := by
  obtain ⟨v,hv,-,hd⟩ := exists_stretched h
  rw [← hd] at hi
  exact hs.get_eq ((View.translates_of_broadcastTo hv).contains index hi)

theorem tabulates_zipWith [Element δ] {shape : Shape} (hb : shape.span ≤ 2^50) (f : α → β → Result δ)
    (g : List Nat → α) (g' : List Nat → β) :
    Tabulates shape (fun index => f (g index) (g' index)) (do
      let data ← (Walk.zipWith f (Walk.ofList (shape.indices.map g)) (Walk.ofList (shape.indices.map g'))).collect
      Block.ofList shape data) := by
  have hn := Shape.volume_le_of_span_le hb
  rw [Walk.collect_eq_toList (by simpa using hn),Walk.toList_zipWith_ofList,List.zip_map',List.mapM_map]
  exact Block.tabulates_ofList hb _

section Tabulates

variable [Element α] [Element β] [Element γ]

theorem Sound.tabulates_zipMap2 {s : Snapshot α} {t : Snapshot β} (hs : s.Sound) (ht : t.Sound)
    (hc : Compatible s.dims t.dims) (hb : (joint s.dims t.dims).span ≤ 2^50) (f : α → β → Result γ) :
    Tabulates (joint s.dims t.dims) (fun index => f (s.seenAt index) (t.seenAt index)) (s.zipMap2 f t) := by
  obtain ⟨s',hs',hv⟩ := hs.walk_stretched (Shape.stretchesTo_joint_left _ _) hb
  obtain ⟨t',ht',hw⟩ := ht.walk_stretched hc.stretchesTo_joint hb
  rw [zipMap2,Shape.broadcast_eq_ok hc,ok_bind,hs',ok_bind,ht',ok_bind,hv,ok_bind,hw,ok_bind]
  generalize joint s.dims t.dims = shape at hb ⊢
  exact tabulates_zipWith hb f s.seenAt t.seenAt

theorem Sound.tabulates_zipMap3 [Element δ] {s : Snapshot α} {t : Snapshot β} {u : Snapshot γ} (hs : s.Sound)
    (ht : t.Sound) (hu : u.Sound) (hc : Compatible s.dims t.dims) (hc' : Compatible (joint s.dims t.dims) u.dims)
    (hb : (joint (joint s.dims t.dims) u.dims).span ≤ 2^50) (f : α → β → γ → Result δ) :
    Tabulates (joint (joint s.dims t.dims) u.dims) (fun index => f (s.seenAt index) (t.seenAt index) (u.seenAt index))
      (s.zipMap3 f t u) := by
  have hj := Shape.stretchesTo_joint_left (joint s.dims t.dims) u.dims
  obtain ⟨s',hs',hv⟩ := hs.walk_stretched ((Shape.stretchesTo_joint_left _ _).trans hj) hb
  obtain ⟨t',ht',hw⟩ := ht.walk_stretched (hc.stretchesTo_joint.trans hj) hb
  obtain ⟨u',hu',hx⟩ := hu.walk_stretched hc'.stretchesTo_joint hb
  rw [zipMap3,Shape.broadcast_eq_ok hc,ok_bind,Shape.broadcast_eq_ok hc',ok_bind,hs',ok_bind,ht',ok_bind,hu',ok_bind,
    hv,ok_bind,hw,ok_bind,hx,ok_bind]
  generalize joint (joint s.dims t.dims) u.dims = shape at hb ⊢
  simp only [Walk.zipWith_ofList_ok]
  simpa only using tabulates_zipWith hb (fun p c => f p.1 p.2 c) (fun index => (s.seenAt index,t.seenAt index)) u.seenAt

end Tabulates

section Refusals

variable {s : Snapshot α} {t : Snapshot β} {u : Snapshot γ}

theorem zipMap2_eq_refuse [Element γ] (f : α → β → Result γ) (hc : ¬ Compatible s.dims t.dims) :
    s.zipMap2 f t = refuse (.shapeMismatch s.dims t.dims) := by
  rw [zipMap2,Shape.broadcast_eq_refuse hc]
  rfl

theorem zipMap3_eq_refuse [Element δ] (f : α → β → γ → Result δ) :
    (¬ Compatible s.dims t.dims → s.zipMap3 f t u = refuse (.shapeMismatch s.dims t.dims)) ∧
      (Compatible s.dims t.dims → ¬ Compatible (joint s.dims t.dims) u.dims →
        s.zipMap3 f t u = refuse (.shapeMismatch (joint s.dims t.dims) u.dims)) := by
  constructor
  · intro hc
    rw [zipMap3,Shape.broadcast_eq_refuse hc]
    rfl
  · intro hc hc'
    rw [zipMap3,Shape.broadcast_eq_ok hc,ok_bind,Shape.broadcast_eq_refuse hc']
    rfl

theorem accepts_zipWith [Element δ] {f : α → β → Result δ} (hf : ∀ x y, Accepts (f x y)) {shape : Shape} {v : Walk α}
    {w : Walk β} (hv : v.Full ∧ v.length = shape.volume) (hw : w.Full ∧ w.length = shape.volume)
    (hvs : v.steps.Accepts) (hws : w.steps.Accepts) :
    Accepts (do
      let data ← (Walk.zipWith f v w).collect
      Block.ofList shape data) := by
  refine (Walk.accepts_collect (hvs.zipWith hf hws)).bind fun data hd => Block.accepts_ofList ?_
  obtain ⟨⟨⟩,-,hd⟩ := bind_eq_ok.1 hd
  rw [(hv.1.zipWith hw.1 f).length_toList data hd,Walk.length_zipWith,hv.2,hw.2,Nat.min_self]

theorem accepts_zipMap2 [Element γ] {f : α → β → Result γ} (hf : ∀ x y, Accepts (f x y))
    (hc : Compatible s.dims t.dims) : Accepts (s.zipMap2 f t) := by
  obtain ⟨s',-,hs',hds⟩ := exists_stretched (Shape.stretchesTo_joint_left s.dims t.dims)
  obtain ⟨t',-,ht',hdt⟩ := exists_stretched hc.stretchesTo_joint
  rw [zipMap2,Shape.broadcast_eq_ok hc,ok_bind,hs',ok_bind,ht',ok_bind]
  generalize joint s.dims t.dims = shape at hds hdt ⊢
  refine (accepts_walk _).bind fun v hv => (accepts_walk _).bind fun w hw => ?_
  exact accepts_zipWith hf (hds ▸ full_walk _ v hv) (hdt ▸ full_walk _ w hw) (accepts_steps _ v hv) (accepts_steps _ w hw)

theorem accepts_zipMap3 [Element δ] {f : α → β → γ → Result δ} (hf : ∀ x y z, Accepts (f x y z))
    (hc : Compatible s.dims t.dims) (hc' : Compatible (joint s.dims t.dims) u.dims) : Accepts (s.zipMap3 f t u) := by
  have hj := Shape.stretchesTo_joint_left (joint s.dims t.dims) u.dims
  obtain ⟨s',-,hs',hds⟩ := exists_stretched ((Shape.stretchesTo_joint_left s.dims t.dims).trans hj)
  obtain ⟨t',-,ht',hdt⟩ := exists_stretched (hc.stretchesTo_joint.trans hj)
  obtain ⟨u',-,hu',hdu⟩ := exists_stretched hc'.stretchesTo_joint
  rw [zipMap3,Shape.broadcast_eq_ok hc,ok_bind,Shape.broadcast_eq_ok hc',ok_bind,hs',ok_bind,ht',ok_bind,hu',ok_bind]
  generalize joint (joint s.dims t.dims) u.dims = shape at hds hdt hdu ⊢
  refine (accepts_walk _).bind fun v hv => (accepts_walk _).bind fun w hw => (accepts_walk _).bind fun x hx => ?_
  obtain ⟨hvf,hvl⟩ := hds ▸ full_walk _ v hv
  obtain ⟨hwf,hwl⟩ := hdt ▸ full_walk _ w hw
  have hpairs : (Walk.zipWith (fun a b => (.ok (a,b) : Result (α × β))) v w).Full ∧
      (Walk.zipWith (fun a b => (.ok (a,b) : Result (α × β))) v w).length = shape.volume :=
    ⟨hvf.zipWith hwf _,by rw [Walk.length_zipWith,hvl,hwl,Nat.min_self]⟩
  have hsteps := (accepts_steps _ v hv).zipWith (fun a b => accepts_ok (a,b)) (accepts_steps _ w hw)
  have hdata := accepts_zipWith (f := fun p c => f p.1 p.2 c) (fun p c => hf p.1 p.2 c) hpairs (hdu ▸ full_walk _ x hx)
    hsteps (accepts_steps _ x hx)
  exact hdata

end Refusals

/-- A total function of two or three elements, lifted to well-formed arrays of pairwise compatible shapes, gives a
row-major array of their joint shape that has at each index what the function makes of the operands, each read at the
index restricted to its own axes. Where two of the shapes are incompatible the shapes are refused, and otherwise
nothing is, however large the joint shape is. -/
theorem WellFormed.lifting [Element α] [Element β] [Element γ] [Element δ] {s : Snapshot α} {t : Snapshot β}
    {u : Snapshot γ} (hs : s.WellFormed) (ht : t.WellFormed) (hu : u.WellFormed) (f : α → β → δ) (g : α → β → γ → δ) :
    ((Compatible s.dims t.dims →
        ((joint s.dims t.dims).span ≤ 2^50 →
          ∃ b, s.zipMap2 (fun x y => .ok (f x y)) t = .ok b ∧ b.Holds (joint s.dims t.dims) fun index => do
            let x ← s.get (s.dims.restrict index)
            let y ← t.get (t.dims.restrict index)
            .ok (f x y)) ∧
        Accepts (s.zipMap2 (fun x y => .ok (f x y)) t)) ∧
      (¬ Compatible s.dims t.dims →
        s.zipMap2 (fun x y => .ok (f x y)) t = refuse (.shapeMismatch s.dims t.dims))) ∧
    (Compatible s.dims t.dims ∧ Compatible s.dims u.dims ∧ Compatible t.dims u.dims →
        ((joint (joint s.dims t.dims) u.dims).span ≤ 2^50 →
          ∃ b, s.zipMap3 (fun x y z => .ok (g x y z)) t u = .ok b ∧
            b.Holds (joint (joint s.dims t.dims) u.dims) fun index => do
              let x ← s.get (s.dims.restrict index)
              let y ← t.get (t.dims.restrict index)
              let z ← u.get (u.dims.restrict index)
              .ok (g x y z)) ∧
        Accepts (s.zipMap3 (fun x y z => .ok (g x y z)) t u)) ∧
      (¬ (Compatible s.dims t.dims ∧ Compatible s.dims u.dims ∧ Compatible t.dims u.dims) →
        ∃ left right, s.zipMap3 (fun x y z => .ok (g x y z)) t u = refuse (.shapeMismatch left right)) := by
  refine ⟨⟨fun hc => ⟨fun hb => ?_,accepts_zipMap2 (fun _ _ => accepts_ok _) hc⟩,zipMap2_eq_refuse _⟩,?_,?_⟩
  · refine (hs.sound.tabulates_zipMap2 ht.sound hc hb _).exists_holds hb fun index hi => ⟨_,rfl,?_⟩
    rw [hs.sound.get_restrict (Shape.stretchesTo_joint_left _ _) hi,ht.sound.get_restrict hc.stretchesTo_joint hi]
    rfl
  · rintro ⟨hc,hcu⟩
    have hc' := hc.joint_iff.2 hcu
    refine ⟨fun hb => ?_,accepts_zipMap3 (fun _ _ _ => accepts_ok _) hc hc'⟩
    refine (hs.sound.tabulates_zipMap3 ht.sound hu.sound hc hc' hb _).exists_holds hb fun index hi => ⟨_,rfl,?_⟩
    have hj := Shape.stretchesTo_joint_left (joint s.dims t.dims) u.dims
    rw [hs.sound.get_restrict ((Shape.stretchesTo_joint_left _ _).trans hj) hi,
      ht.sound.get_restrict (hc.stretchesTo_joint.trans hj) hi,hu.sound.get_restrict hc'.stretchesTo_joint hi]
    rfl
  · intro hn
    by_cases hc : Compatible s.dims t.dims
    · have hc' : ¬ Compatible (joint s.dims t.dims) u.dims := fun h => hn ⟨hc,hc.joint_iff.1 h⟩
      exact ⟨_,_,(zipMap3_eq_refuse _).2 hc hc'⟩
    · exact ⟨_,_,(zipMap3_eq_refuse _).1 hc⟩

def pillar : Snapshot (Word ⟨true,.w8⟩) where
  heap := zigzag.heap
  view := { buffer := 0, layout := ⟨[⟨2,4⟩,⟨1,0⟩,⟨1,0⟩]⟩, offset := 1 }

theorem zigzag_lifting : zigzag.WellFormed ∧ pillar.WellFormed ∧
    (∃ b, zigzag.zipMap3 (fun x y z => .ok ((x.wrappingSub y).wrappingSub z)) pillar zigzag = .ok b ∧
      b.dims = [2,2,3] ∧ b.snapshot.get [1,0,2] = .ok (Word.ofInt _ (-5))) ∧
    zigzag.zipMap2 (fun x y => .ok (x.wrappingSub y)) (pillar.through { pillar.view with layout := ⟨[⟨2,4⟩]⟩ }) =
      refuse (.shapeMismatch [2,3] [2]) := by
  have hz : zigzag.WellFormed := by decide
  have hp : pillar.WellFormed := by decide
  have hv : (pillar.through { pillar.view with layout := ⟨[⟨2,4⟩]⟩ }).WellFormed := by decide
  obtain ⟨-,hthree,-⟩ := WellFormed.lifting hz hp hz Word.wrappingSub fun x y z => (x.wrappingSub y).wrappingSub z
  obtain ⟨⟨-,htwo⟩,-⟩ := WellFormed.lifting hz hv hz Word.wrappingSub fun x y z => (x.wrappingSub y).wrappingSub z
  obtain ⟨b,hb,hh⟩ := (hthree (by decide)).1 (by decide)
  obtain ⟨x,hx,hget⟩ := hh.get_eq [1,0,2] (by decide)
  refine ⟨hz,hp,⟨b,hb,hh.dims_eq,?_⟩,htwo (by decide)⟩
  rw [hget,← hx]
  decide

end Snapshot

end Strided
