import Strided.Block
import Strided.Proofs.Full

set_option autoImplicit false

namespace Strided

variable {σ α β γ : Type}

/-- There is a result or an abort: the arguments are not refused. -/
def Accepts (r : Result α) : Prop := ∀ error, r ≠ refuse error

theorem accepts_ok (x : α) : Accepts (.ok x) := nofun

theorem accepts_abort (cause : Abort) : Accepts (abort cause : Result α) := nofun

theorem accepts_error_iff {cause : Fault} :
    Accepts (.error cause : Result α) ↔ ∀ error, cause ≠ .refusal error := by
  simp [Accepts,refuse]

theorem Accepts.bind {r : Result α} {f : α → Result β} (h : Accepts r) (hf : ∀ x, r = .ok x → Accepts (f x)) :
    Accepts (r >>= f) := by
  intro error he
  rcases bind_eq_error.1 he with he | ⟨x,hx,he⟩
  · exact h error he
  · exact hf x hx error he

theorem accepts_foldlM {f : β → α → Result β} (hf : ∀ b x, Accepts (f b x)) (xs : List α) (b : β) :
    Accepts (xs.foldlM f b) := by
  induction xs generalizing b with
  | nil => exact accepts_ok b
  | cons x xs ih => exact (hf b x).bind fun c _ => ih c

theorem accepts_ite {c : Prop} [Decidable c] {r : Result α} (h : Accepts r) (cause : Abort) :
    Accepts (if c then r else abort cause) := by
  split
  · exact h
  · exact accepts_abort cause

namespace Address

theorem accepts_add (x y : Int) : Accepts (add x y) := accepts_ite (accepts_ok _) _

theorem accepts_sub (x y : Int) : Accepts (sub x y) := accepts_ite (accepts_ok _) _

theorem accepts_mul (x y : Int) : Accepts (mul x y) := accepts_ite (accepts_ok _) _

theorem accepts_mulCount (m n : Nat) : Accepts (mulCount m n) := accepts_ite (accepts_ok _) _

end Address

theorem Shape.accepts_size (s : Shape) : Accepts s.size := accepts_foldlM Address.accepts_mulCount s 1

theorem Layout.accepts_rowMajorAxes (s : Shape) : Accepts (rowMajorAxes s) := by
  induction s with
  | nil => exact accepts_ok _
  | cons d s ih =>
    cases s with
    | nil => exact accepts_ok _
    | cons e s =>
      refine ih.bind fun inner _ => ?_
      cases inner with
      | nil => exact accepts_ok _
      | cons a inner => exact (Address.accepts_mul _ _).bind fun stride _ => accepts_ok _

theorem Layout.accepts_rowMajor (s : Shape) : Accepts (rowMajor s) :=
  (accepts_rowMajorAxes s).bind fun _ _ => accepts_ok _

theorem Heap.accepts_read (h : Heap α) (buffer cell : Nat) : Accepts (h.read buffer cell) := by
  unfold read
  split
  · exact accepts_ok _
  · exact accepts_abort _

namespace Offsets

theorem accepts_turn (axes : List Axis) (index : List Nat) (position : Int) : Accepts (turn axes index position) := by
  induction axes generalizing index position with
  | nil => exact accepts_ok _
  | cons a axes ih =>
    cases index with
    | nil => exact accepts_ok _
    | cons i index =>
      refine (ih index position).bind fun (wrapped,rest,position) _ => ?_
      cases wrapped with
      | false => exact accepts_ok _
      | true =>
        refine (Address.accepts_add _ _).bind fun stepped _ => ?_
        split
        · exact accepts_ok _
        · exact (Address.accepts_mul _ _).bind fun _ _ => (Address.accepts_sub _ _).bind fun _ _ => accepts_ok _

theorem accepts_next? (o : Offsets) : Accepts o.next? := by
  unfold next?
  split
  · exact accepts_ok _
  · dsimp only
    split
    · exact (Address.accepts_add _ _).bind fun _ _ => accepts_ok _
    · split
      · exact accepts_ok _
      · exact (accepts_turn _ _ _).bind fun _ _ => accepts_ok _

end Offsets

theorem Elements.accepts_next? (e : Elements) (h : Heap α) : Accepts (e.next? h) := by
  refine e.offsets.accepts_next?.bind fun answer _ => ?_
  cases answer with
  | none => exact accepts_ok _
  | some p => exact (h.accepts_read e.buffer p.1).bind fun x _ => accepts_ok _

namespace Steps

def Accepts : Steps α → Prop
  | .done => True
  | .fault cause => ∀ error, cause ≠ .refusal error
  | .next _ rest => Accepts (rest ())

theorem accepts_step {answer : Result α} {rest : Unit → Steps α} (h : Strided.Accepts answer)
    (hr : Accepts (rest ())) : Accepts (step answer rest) := by
  cases answer with
  | ok x => exact hr
  | error cause => exact accepts_error_iff.1 h

theorem accepts_unfold {next? : σ → Result (Option (α × σ))} (h : ∀ s, Strided.Accepts (next? s)) (n : Nat) (s : σ) :
    Accepts (unfold next? n s) := by
  induction n generalizing s with
  | zero => trivial
  | succ n ih =>
    have hs := h s
    unfold unfold
    cases ha : next? s with
    | error cause => exact accepts_error_iff.1 (ha ▸ hs)
    | ok answer =>
      cases answer with
      | none => trivial
      | some p => exact ih p.2

theorem Accepts.zipWith {f : α → β → Result γ} (hf : ∀ x y, Strided.Accepts (f x y)) {s : Steps α} {t : Steps β}
    (hs : Accepts s) (ht : Accepts t) : Accepts (zipWith f s t) := by
  induction s generalizing t with
  | done => trivial
  | fault cause => exact hs
  | next x rest ih =>
    cases t with
    | done => trivial
    | fault cause => exact ht
    | next y rest' => exact accepts_step (hf x y) (ih () hs ht)

theorem Accepts.foldl {f : β → α → Result β} (hf : ∀ b x, Strided.Accepts (f b x)) {s : Steps α} (hs : Accepts s)
    (b : β) : Strided.Accepts (s.foldl f b) := by
  induction s generalizing b with
  | done => exact accepts_ok b
  | fault cause => exact accepts_error_iff.2 hs
  | next x rest ih =>
    have hx := hf b x
    unfold Steps.foldl
    cases hc : f b x with
    | ok c => exact ih () hs c
    | error cause => exact accepts_error_iff.2 (accepts_error_iff.1 (hc ▸ hx))

end Steps

theorem Walk.accepts_collect [Element α] {w : Walk α} (h : w.steps.Accepts) : Accepts w.collect := by
  have hroom : Accepts (w.room (Element.width α)) := by
    unfold room
    split
    · exact accepts_ok _
    · cases hs : w.steps with
      | fault cause =>
        rw [hs] at h
        exact accepts_error_iff.2 h
      | done => exact accepts_abort _
      | next x rest => exact accepts_abort _
  exact hroom.bind fun _ _ => (h.foldl (fun _ _ => accepts_ok _) _).bind fun _ _ => accepts_ok _

theorem View.accepts_offsets (v : View) : Accepts v.offsets := (Shape.accepts_size _).bind fun _ _ => accepts_ok _

theorem Snapshot.accepts_walk (s : Snapshot α) : Accepts s.walk :=
  (s.view.accepts_offsets.bind fun _ _ => accepts_ok _).bind fun _ _ => accepts_ok _

theorem Snapshot.accepts_steps (s : Snapshot α) : Ensures (fun w => w.steps.Accepts) s.walk :=
  ensures_bind fun e _ => ensures_ok (Steps.accepts_unfold (fun e => e.accepts_next? s.heap) _ e)

theorem Block.accepts_ofList {s : Shape} {data : List α} (h : data.length = s.volume) : Accepts (Block.ofList s data) := by
  refine (Layout.accepts_rowMajor s).bind fun layout hl => (Shape.accepts_size _).bind fun size hsize => ?_
  have hd := Layout.dims_of_rowMajor hl
  rw [Layout.dims] at hd
  have hn := Shape.size_eq_volume hsize
  rw [Layout.dims,hd] at hn
  rw [if_pos (hn.trans h.symm)]
  exact accepts_ok _

end Strided
