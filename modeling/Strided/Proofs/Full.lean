import Strided.Proofs.Index
import Strided.Proofs.Result
import Strided.Proofs.RowMajor
import Strided.Proofs.Walk
import Strided.Snapshot

set_option autoImplicit false

namespace Strided

variable {σ α β γ : Type}

namespace Steps

/-- There are exactly `n` steps up to the end, if no fault comes before it. -/
def Full : Nat → Steps α → Prop
  | n, .done => n = 0
  | _, .fault _ => True
  | n, .next _ rest => ∃ m, n = m+1 ∧ Full m (rest ())

theorem full_ofList (xs : List α) : Full xs.length (ofList xs) := by
  induction xs with
  | nil => rfl
  | cons x xs ih => exact ⟨xs.length,rfl,ih⟩

theorem full_unfold {next? : σ → Result (Option (α × σ))} (count : σ → Nat)
    (hnone : ∀ s, next? s = .ok none → count s = 0)
    (hsome : ∀ s x t, next? s = .ok (some (x,t)) → count s = count t+1) {n : Nat} {s : σ} (hn : count s = n) :
    Full n (unfold next? n s) := by
  induction n generalizing s with
  | zero => rfl
  | succ n ih =>
    unfold unfold
    cases h : next? s with
    | error cause => trivial
    | ok answer =>
      cases answer with
      | none =>
        have := hnone s h
        omega
      | some p =>
        have hp := hsome s p.1 p.2 h
        exact ⟨n,rfl,ih (by omega)⟩

theorem Full.map {n : Nat} {s : Steps α} (h : Full n s) (f : α → Result β) : Full n (s.map f) := by
  induction s generalizing n with
  | done => exact h
  | fault cause => trivial
  | next x rest ih =>
    obtain ⟨m,rfl,hm⟩ := h
    unfold Steps.map step
    cases f x with
    | error cause => trivial
    | ok y => exact ⟨m,rfl,ih () hm⟩

theorem Full.zipWith {m n : Nat} {s : Steps α} {t : Steps β} (hs : Full m s) (ht : Full n t) (f : α → β → Result γ) :
    Full (min m n) (zipWith f s t) := by
  induction s generalizing m n t with
  | done =>
    obtain rfl : m = 0 := hs
    exact Nat.zero_min n
  | fault cause => trivial
  | next x rest ih =>
    obtain ⟨m,rfl,hm⟩ := hs
    cases t with
    | done =>
      obtain rfl : n = 0 := ht
      exact Nat.min_zero (m+1)
    | fault cause => trivial
    | next y rest' =>
      obtain ⟨n,rfl,hn⟩ := ht
      unfold Steps.zipWith step
      cases f x y with
      | error cause => trivial
      | ok z => exact ⟨min m n,Nat.succ_min_succ m n,ih () hm hn⟩

theorem Full.length_foldl {f : List β → α → Result (List β)}
    (hf : ∀ acc x, Ensures (fun ys => ys.length = acc.length+1) (f acc x)) {n : Nat} {s : Steps α} (h : Full n s)
    (acc : List β) : Ensures (fun ys => ys.length = acc.length+n) (s.foldl f acc) := by
  induction s generalizing n acc with
  | done =>
    obtain rfl : n = 0 := h
    exact ensures_ok rfl
  | fault cause => exact ensures_error cause
  | next x rest ih =>
    obtain ⟨m,rfl,hm⟩ := h
    unfold foldl
    cases hx : f acc x with
    | error cause => exact ensures_error cause
    | ok ys =>
      intro zs hzs
      have hone := hf acc x ys hx
      have hrest := ih () hm ys zs hzs
      omega

def Forall (P : α → Prop) : Steps α → Prop
  | .done => True
  | .fault _ => True
  | .next x rest => P x ∧ Forall P (rest ())

theorem forall_true (s : Steps α) : Forall (fun _ => True) s := by
  induction s with
  | done => trivial
  | fault cause => trivial
  | next x rest ih => exact ⟨trivial,ih ()⟩

theorem Forall.map {P : α → Prop} {Q : β → Prop} {s : Steps α} (hs : Forall P s) {f : α → Result β}
    (h : ∀ x, P x → Ensures Q (f x)) : Forall Q (s.map f) := by
  induction s with
  | done => trivial
  | fault cause => trivial
  | next x rest ih =>
    unfold Steps.map step
    cases hx : f x with
    | error cause => trivial
    | ok y => exact ⟨h x hs.1 y hx,ih () hs.2⟩

theorem Forall.zipWith {P : α → Prop} {Q : β → Prop} {R : γ → Prop} {s : Steps α} {t : Steps β} (hs : Forall P s)
    (ht : Forall Q t) {f : α → β → Result γ} (h : ∀ x y, P x → Q y → Ensures R (f x y)) :
    Forall R (zipWith f s t) := by
  induction s generalizing t with
  | done => trivial
  | fault cause => trivial
  | next x rest ih =>
    cases t with
    | done => trivial
    | fault cause => trivial
    | next y rest' =>
      unfold Steps.zipWith step
      cases hz : f x y with
      | error cause => trivial
      | ok z => exact ⟨h x y hs.1 ht.1 z hz,ih () hs.2 ht.2⟩

theorem forall_tabulate {P : α → Prop} {f : Nat → Result α} {n first : Nat}
    (h : ∀ i, i < first+n → Ensures P (f i)) : Forall P (tabulate f n first) := by
  induction n generalizing first with
  | zero => trivial
  | succ n ih =>
    unfold tabulate step
    cases hx : f first with
    | error cause => trivial
    | ok x => exact ⟨h first (by omega) x hx,ih fun i hi => h i (by omega)⟩

theorem ensures_foldl {Q : α → Prop} {P : β → Prop} {f : β → α → Result β} {s : Steps α} (hs : Forall Q s)
    (hf : ∀ b x, P b → Q x → Ensures P (f b x)) {b : β} (hb : P b) : Ensures P (s.foldl f b) := by
  induction s generalizing b with
  | done => exact ensures_ok hb
  | fault cause => exact ensures_error cause
  | next x rest ih =>
    unfold foldl
    cases hx : f b x with
    | error cause => exact ensures_error cause
    | ok c => exact ih () hs.2 (hf b x hb hs.1 c hx)

end Steps

namespace Walk

def Full (w : Walk α) : Prop := Steps.Full w.length w.steps

theorem full_ofList (xs : List α) : (ofList xs).Full := Steps.full_ofList xs

theorem Full.map {w : Walk α} (h : w.Full) (f : α → Result β) : (w.map f).Full := Steps.Full.map h f

theorem Full.zipWith {v : Walk α} {w : Walk β} (hv : v.Full) (hw : w.Full) (f : α → β → Result γ) :
    (zipWith f v w).Full := Steps.Full.zipWith hv hw f

theorem Full.length_toList {w : Walk α} (h : w.Full) : Ensures (fun xs => xs.length = w.length) w.toList := by
  refine ensures_bind fun reversed hr => ensures_ok ?_
  have := Steps.Full.length_foldl (fun _ _ => ensures_ok rfl) h [] reversed hr
  simpa using this

theorem Full.room_of_collect [Element α] {w : Walk α} (h : w.Full) :
    Ensures (fun xs => Element.width α*xs.length ≤ Capacity.maxBytes) w.collect :=
  ensures_bind fun _ hr => fun xs hxs => by
    rw [h.length_toList xs hxs]
    exact room_eq_ok_iff.1 hr

theorem forall_toList {P : α → Prop} {w : Walk α} (h : Steps.Forall P w.steps) :
    Ensures (fun xs => ∀ x ∈ xs, P x) w.toList := by
  refine ensures_bind fun reversed hr => ensures_ok ?_
  have hp : ∀ x ∈ reversed, P x := by
    refine Steps.ensures_foldl (P := fun xs => ∀ x ∈ xs, P x) h (fun xs x hxs hx => ensures_ok ?_) (by simp)
      reversed hr
    simpa using ⟨hx,hxs⟩
  simpa using hp

end Walk

namespace Offsets

theorem remaining_of_next? (o : Offsets) :
    (o.next? = .ok none → o.remaining = 0) ∧
      ∀ cell t, o.next? = .ok (some (cell,t)) → o.remaining = t.remaining+1 := by
  cases hr : o.remaining with
  | zero => simp [next?,hr]
  | succ n =>
    simp only [next?,hr]
    -- A fault is no answer, so only the steps that finish count.
    by_cases hc : o.contiguous = true
    · cases ha : Address.add o.position 1 <;> simp_all
    · by_cases hz : n = 0
      · simp_all
      · cases ht : turn o.axes o.index o.position <;> simp_all

end Offsets

namespace Elements

theorem length_of_next? (e : Elements) (h : Heap α) :
    (e.next? h = .ok none → e.length = 0) ∧ ∀ x t, e.next? h = .ok (some (x,t)) → e.length = t.length+1 := by
  have ho := e.offsets.remaining_of_next?
  cases hn : e.offsets.next? with
  | error cause => simp [next?,hn]
  | ok answer =>
    cases answer with
    | none => simpa [next?,hn,length] using ho.1 hn
    | some p =>
      cases hr : h.read e.buffer p.1 with
      | error cause => simp [next?,hn,hr]
      | ok x => simpa [next?,hn,hr,length] using ho.2 p.1 p.2 hn

theorem full_walk (e : Elements) (h : Heap α) : (e.walk h).Full :=
  Steps.full_unfold length (fun e => (e.length_of_next? h).1) (fun e => (e.length_of_next? h).2) rfl

end Elements

theorem View.remaining_offsets (v : View) : Ensures (fun o => o.remaining = v.dims.volume) v.offsets :=
  ensures_bind fun _ hr => ensures_ok (Shape.size_eq_volume hr)

namespace Snapshot

theorem full_walk (s : Snapshot α) : Ensures (fun w => w.Full ∧ w.length = s.dims.volume) s.walk := by
  refine ensures_bind fun e he => ensures_ok ⟨e.full_walk s.heap,?_⟩
  obtain ⟨o,ho,he⟩ := bind_eq_ok.1 he
  obtain rfl := Except.ok.inj he
  exact s.view.remaining_offsets o ho

theorem length_toList [Element α] (s : Snapshot α) : Ensures (fun xs => xs.length = s.dims.volume) s.toList := by
  refine ensures_bind fun w hw => ensures_bind fun _ _ => ?_
  obtain ⟨hf,hl⟩ := s.full_walk w hw
  rw [← hl]
  exact hf.length_toList

end Snapshot

end Strided
