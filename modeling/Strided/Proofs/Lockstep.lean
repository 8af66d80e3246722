import Strided.Proofs.Freshness
import Strided.Proofs.Placed
import Strided.Proofs.Stores

set_option autoImplicit false

/-!
Work on a heap beside the computation that it carries out. The two end alike, and where they give something, the array
that the work leaves in the heap holds the block that the computation gives. Sources that are read one by one while
their values are stored give the values that they have before the first of them is stored, as long as they are in other
buffers.
-/
namespace Strided

variable {α β γ δ ε : Type}

namespace Elements

variable {h h' : Heap α}

theorem next?_congr {e : Elements} (hc : h'.cells e.buffer = h.cells e.buffer) : e.next? h' = e.next? h := by
  have hr : h'.read e.buffer = h.read e.buffer := funext (Heap.read_congr hc)
  rw [next?,next?,hr]

theorem buffer_of_next? {e t : Elements} {x : α} (h' : e.next? h = .ok (some (x,t))) : t.buffer = e.buffer := by
  obtain ⟨answer,-,h'⟩ := bind_eq_ok.1 h'
  cases answer with
  | none => simp at h'
  | some p =>
    obtain ⟨y,-,h'⟩ := bind_eq_ok.1 h'
    simp only [Except.ok.injEq,Option.some.injEq,Prod.mk.injEq] at h'
    rw [← h'.2]

theorem unfold_congr (n : Nat) {e : Elements} (hc : h'.cells e.buffer = h.cells e.buffer) :
    Steps.unfold (·.next? h') n e = Steps.unfold (·.next? h) n e := by
  induction n generalizing e with
  | zero => rfl
  | succ n ih =>
    simp only [Steps.unfold,next?_congr hc]
    split
    · rfl
    · rename_i x t ht
      have hrest : h'.cells t.buffer = h.cells t.buffer := by rw [buffer_of_next? ht,hc]
      exact congrArg _ (funext fun _ => ih hrest)
    · rfl

theorem walk_congr {e : Elements} (hc : h'.cells e.buffer = h.cells e.buffer) : e.walk h' = e.walk h := by
  rw [walk,walk,Walk.unfold,Walk.unfold,unfold_congr e.length hc]

end Elements

/-- Both heaps look the same through the view, one element or all of them. -/
structure View.SeesSame (v : View) (h h' : Heap α) : Prop where
  walk_eq : (Snapshot.mk h' v).walk = (Snapshot.mk h v).walk
  get_eq : ∀ index, (Snapshot.mk h' v).get index = (Snapshot.mk h v).get index

theorem View.seesSame_of_cells_eq {v : View} {h h' : Heap α} (hc : h'.cells v.buffer = h.cells v.buffer) :
    v.SeesSame h h' where
  walk_eq := by
    rw [Snapshot.walk,Snapshot.walk,Snapshot.elements,Snapshot.elements]
    cases v.offsets with
    | error cause => rfl
    | ok o =>
      have he := Elements.walk_congr (e := { buffer := v.buffer, offsets := o }) hc
      exact congrArg Except.ok he
  get_eq index := by
    have hr : h'.read v.buffer = h.read v.buffer := funext (Heap.read_congr hc)
    rw [Snapshot.get,Snapshot.get]
    simp only [hr]

namespace Update

/-- The work ends as the computation does: with the same fault, or with something that the heap it leaves relates to
the result. -/
def Follows (u : Update α β) (h : Heap α) (r : Result γ) (R : Heap α → β → γ → Prop) : Prop :=
  match r with
  | .ok y => ∃ x h', u h = (.ok x,h') ∧ R h' x y
  | .error cause => (u h).1 = .error cause

section Follows

variable {h : Heap α} {R : Heap α → β → γ → Prop} {S : Heap α → δ → ε → Prop}

theorem Follows.map {R' : Heap α → β → ε → Prop} {u : Update α β} {r : Result γ} {g : γ → ε} (hu : u.Follows h r R)
    (hr : ∀ h' x y, R h' x y → R' h' x (g y)) : u.Follows h (r >>= fun y => .ok (g y)) R' := by
  cases r with
  | error cause => exact hu
  | ok y =>
    obtain ⟨x,h',he,hx⟩ := hu
    exact ⟨x,h',he,hr h' x y hx⟩

theorem Follows.mono {R' : Heap α → β → γ → Prop} {u : Update α β} {r : Result γ} (hu : u.Follows h r R)
    (hr : ∀ h' x y, R h' x y → R' h' x y) : u.Follows h r R' := by
  have hm := hu.map hr
  rwa [bind_ok] at hm

theorem Follows.congr {u u' : Update α β} {h' : Heap α} {r : Result γ} (hu : u.Follows h r R) (he : u' h' = u h) :
    u'.Follows h' r R := by
  unfold Follows
  rw [he]
  exact hu

theorem Follows.bind {u : Update α β} {r : Result γ} {f : β → Update α δ} {g : γ → Result ε} (hu : u.Follows h r R)
    (hf : ∀ h' x y, R h' x y → (f x).Follows h' (g y) S) : (u >>= f).Follows h (r >>= g) S := by
  cases r with
  | error cause =>
    show ((u >>= f) h).1 = .error cause
    rw [bind_apply]
    rcases hr : u h with ⟨x,h'⟩
    have hx : x = .error cause := by simpa [Follows,hr] using hu
    rw [hx]
  | ok y =>
    obtain ⟨x,h',he,hx⟩ := hu
    exact (hf h' x y hx).congr (bind_of_ok he f)

theorem follows_ok {x : β} {y : γ} (hr : R h x y) : (ofResult (.ok x)).Follows h (.ok y) R := ⟨x,h,rfl,hr⟩

theorem follows_error (cause : Fault) : (ofResult (.error cause)).Follows h (.error cause) R := rfl

theorem follows_bind {u : Update α β} {r : Result β} (hu : u h = (r,h)) {f : β → Update α δ} {g : β → Result ε}
    (hf : ∀ x, r = .ok x → (f x).Follows h (g x) S) : (u >>= f).Follows h (r >>= g) S := by
  cases r with
  | error cause =>
    show ((u >>= f) h).1 = .error cause
    rw [bind_apply,hu]
  | ok x =>
    exact (hf x rfl).congr (bind_of_ok hu f)

theorem follows_look {question : Heap α → Result β} {r : Result β} (hr : question h = r) {f : β → Update α δ}
    {g : β → Result ε} (hf : ∀ x, r = .ok x → (f x).Follows h (g x) S) : (look question >>= f).Follows h (r >>= g) S :=
  follows_bind (congrArg (·,h) hr) hf

theorem follows_foldl {P : γ → Prop} {R : Heap α → β → δ → Prop} {f : β → γ → Update α β} {g : δ → γ → Result δ}
    {s : Steps γ} (hs : Steps.Forall P s)
    (hf : ∀ h x y z, P z → R h x y → (f x z).Follows h (g y z) R) {x : β} {y : δ} (hr : R h x y) :
    (foldl f x s).Follows h (s.foldl g y) R := by
  induction s generalizing h x y with
  | done => exact follows_ok hr
  | fault cause => exact follows_error cause
  | next z rest ih =>
    have hfold : (Steps.next z rest).foldl g y = g y z >>= fun y => (rest ()).foldl g y := by
      rw [Steps.foldl]
      cases g y z <;> rfl
    rw [hfold]
    exact (hf h x y z hs.1 hr).bind fun h' x y hr => ih () hs.2 hr

end Follows

/-- So many works that give the values of the steps one after the other, up to the first fault. On heaps of a kind they
change nothing. -/
inductive Streams (P : Heap α → Prop) : Nat → Steps (Update α β) → Steps β → Prop
  | done : Streams P 0 .done .done
  | fault (n : Nat) (cause : Fault) : Streams P (n+1) (.fault cause) (.fault cause)
  | next {n : Nat} {u : Update α β} {us : Unit → Steps (Update α β)} {x : β} {xs : Unit → Steps β}
      (hu : ∀ h, P h → u h = (.ok x,h)) (hrest : Streams P n (us ()) (xs ())) :
      Streams P (n+1) (.next u us) (.next x xs)
  | stop {n : Nat} {u : Update α β} {us : Unit → Steps (Update α β)} {cause : Fault}
      (hu : ∀ h, P h → u h = (.error cause,h)) : Streams P (n+1) (.next u us) (.fault cause)

theorem streams_yields (P : Heap α → Prop) (xs : List β) :
    Streams P xs.length ((Steps.ofList xs).map fun x => .ok (ofResult (.ok x))) (Steps.ofList xs) := by
  induction xs with
  | nil => exact .done
  | cons x xs ih => exact .next (fun _ _ => rfl) ih

theorem streams_reads (f : α → Result β) (h : Heap α) (buffer : Nat) {n : Nat} {o : Offsets} (hn : o.remaining = n) :
    Streams (fun h' => h'.cells buffer = h.cells buffer) n
      ((Steps.unfold Offsets.next? n o).map fun cell => .ok (do
        let x ← read buffer cell
        ofResult (f x)))
      ((Steps.unfold (Elements.next? · h) n { buffer, offsets := o }).map f) := by
  induction n generalizing o with
  | zero => exact .done
  | succ n ih =>
    have hcount := o.remaining_of_next?
    have hread (cell : Nat) (h' : Heap α) (hc : h'.cells buffer = h.cells buffer) :
        (read buffer cell >>= fun x => ofResult (f x)) h' = (h.read buffer cell >>= f,h') := by
      rw [bind_apply,read,Heap.read_congr hc]
      cases h.read buffer cell <;> rfl
    unfold Steps.unfold
    cases hnext : o.next? with
    | error cause =>
      simp only [Elements.next?,hnext,error_bind]
      exact .fault n cause
    | ok answer =>
      cases answer with
      | none =>
        have := hcount.1 hnext
        omega
      | some p =>
        obtain ⟨cell,t⟩ := p
        have ht := hcount.2 cell t hnext
        simp only [Elements.next?,hnext,ok_bind]
        cases hx : h.read buffer cell with
        | error cause => exact .stop fun h' hc => by rw [hread cell h' hc,hx]; rfl
        | ok x =>
          simp only [ok_bind,Steps.map,Steps.step]
          cases hy : f x with
          | error cause => exact .stop fun h' hc => by rw [hread cell h' hc,hx,ok_bind,hy]
          | ok y => exact .next (fun h' hc => by rw [hread cell h' hc,hx,ok_bind,hy]) (ih (by omega))

theorem reads_cases (v : View) (f : α → Result β) (h : Heap α) :
    (∃ cause, v.reads f = .error cause ∧ (Snapshot.mk h v).walk = .error cause) ∨
      ∃ sources w, v.reads f = .ok sources ∧ (Snapshot.mk h v).walk = .ok w ∧ sources.length = w.length ∧
        Streams (fun h' => h'.cells v.buffer = h.cells v.buffer) w.length sources.steps (w.map f).steps := by
  rw [View.reads,View.eachCell,Snapshot.walk,Snapshot.elements]
  cases v.offsets with
  | error cause => exact Or.inl ⟨cause,rfl,rfl⟩
  | ok o => exact Or.inr ⟨_,_,rfl,rfl,rfl,streams_reads f h v.buffer rfl⟩

/-- Values that are written to the cells of a buffer in order take the place of those that are there. -/
theorem Streams.follows_perform {P : Heap α → Prop} {buffer n : Nat} (hp : ∀ h cell x, P h → P (h.put buffer cell x))
    {us : Steps (Update α α)} {xs : Steps α} (hs : Streams P n us xs) {h : Heap α} (hh : P h) {done rest : List α}
    (hc : h.cells buffer = (done.reverse++rest).toArray) (hn : rest.length = n) :
    Follows (View.perform (Steps.zipWith (fun cell source => .ok (source >>= write buffer cell))
      (Steps.ofList (List.range' done.length n)) us)) h (xs.foldl (fun ys x => .ok (x :: ys)) done)
      fun h' _ ys => h.SameBut buffer h' ∧ h'.cells buffer = ys.reverse.toArray := by
  -- The cells up to the one whose turn it is have their new values, those from there on their old ones.
  induction hs generalizing h done rest with
  | done =>
    obtain rfl := List.eq_nil_of_length_eq_zero hn
    exact ⟨(),h,rfl,Heap.SameBut.refl buffer h,by rw [hc,List.append_nil]⟩
  | fault n cause => rfl
  | @next n u us x xs hu _ ih =>
    obtain ⟨z,rest,rfl⟩ := List.exists_cons_of_length_eq_add_one hn
    have hlt : done.length < h.length buffer := by simp [Heap.length,hc]
    have hw : (u >>= write buffer done.length) h = (.ok (),h.put buffer done.length x) := by
      rw [bind_of_ok (hu h hh),write_of_lt hlt]
    have hcells : (h.put buffer done.length x).cells buffer = ((x :: done).reverse++rest).toArray := by
      rw [Heap.cells_put,if_pos rfl,hc]
      simp
    refine Follows.congr ((ih (hp h done.length x hh) hcells (by simpa using hn)).mono fun _ _ _ hr =>
      ⟨(h.sameBut_put buffer done.length x).trans hr.1,hr.2⟩) ?_
    show View.perform (.next (u >>= write buffer done.length) _) h = _
    simp only [View.perform,hw,List.length_cons]
  | @stop n u us cause hu =>
    have hw : (u >>= write buffer done.length) h = (.error cause,h) := by rw [bind_apply,hu h hh]
    show (View.perform (.next (u >>= write buffer done.length) _) h).1 = .error cause
    simp only [View.perform,hw]

end Update

end Strided
