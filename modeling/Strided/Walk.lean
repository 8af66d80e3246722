import Strided.Element

set_option autoImplicit false

/-!
Traversals whose steps may fault. A walk knows how many steps it has, but takes each of them only when it is asked
for it, so whoever stops early, at a fault or at an answer, pays for no step after that one. A walk ends at its
first fault.
-/
namespace Strided

/-- What is left of a traversal: nothing, the fault that ends it, or a value and, on demand, what comes after it. -/
inductive Steps (α : Type) where
  | done
  | fault (cause : Fault)
  | next (x : α) (rest : Unit → Steps α)

namespace Steps

def step {α : Type} (answer : Result α) (rest : Unit → Steps α) : Steps α :=
  match answer with
  | .ok x => .next x rest
  | .error cause => .fault cause

def ofList {α : Type} : List α → Steps α
  | [] => .done
  | x :: xs => .next x fun _ => ofList xs

/-- At most `n` steps of something that answers with a value and its own state afterwards. -/
def unfold {σ α : Type} (next? : σ → Result (Option (α × σ))) : Nat → σ → Steps α
  | 0, _ => .done
  | n+1, s =>
    match next? s with
    | .ok none => .done
    | .ok (some (x,rest)) => .next x fun _ => unfold next? n rest
    | .error cause => .fault cause

def tabulate {α : Type} (f : Nat → Result α) : Nat → Nat → Steps α
  | 0, _ => .done
  | n+1, first => step (f first) fun _ => tabulate f n (first+1)

def map {α β : Type} (f : α → Result β) : Steps α → Steps β
  | .done => .done
  | .fault cause => .fault cause
  | .next x rest => step (f x) fun _ => map f (rest ())

/-- One step on the left, one on the right and then `f`, as long as both have steps. -/
def zipWith {α β γ : Type} (f : α → β → Result γ) : Steps α → Steps β → Steps γ
  | .done, _ => .done
  | .fault cause, _ => .fault cause
  | .next _ _, .done => .done
  | .next _ _, .fault cause => .fault cause
  | .next x xs, .next y ys => step (f x y) fun _ => zipWith f (xs ()) (ys ())

def foldl {α β : Type} (f : β → α → Result β) : β → Steps α → Result β
  | acc, .done => .ok acc
  | _, .fault cause => .error cause
  | acc, .next x rest =>
    match f acc x with
    | .ok acc => foldl f acc (rest ())
    | .error cause => .error cause

/-- Whether every value passes; no step is taken after the first that fails. -/
def all {α : Type} (p : α → Bool) : Steps α → Result Bool
  | .done => .ok true
  | .fault cause => .error cause
  | .next x rest => if p x then all p (rest ()) else .ok false

/-- Whether two traversals have the same values in order; no step is taken after the first difference. -/
def agree {α : Type} (same : α → α → Bool) : Steps α → Steps α → Result Bool
  | .fault cause, _ => .error cause
  | .done, .done => .ok true
  | .done, .next _ _ => .ok false
  | .next _ _, .done => .ok false
  | .done, .fault cause => .error cause
  | .next _ _, .fault cause => .error cause
  | .next x xs, .next y ys => if same x y then agree same (xs ()) (ys ()) else .ok false

end Steps

structure Walk (α : Type) where
  length : Nat
  steps : Steps α

namespace Walk

def ofList {α : Type} (xs : List α) : Walk α := ⟨xs.length,Steps.ofList xs⟩

def unfold {σ α : Type} (next? : σ → Result (Option (α × σ))) (n : Nat) (s : σ) : Walk α :=
  ⟨n,Steps.unfold next? n s⟩

def tabulate {α : Type} (n : Nat) (f : Nat → Result α) : Walk α := ⟨n,Steps.tabulate f n 0⟩

def map {α β : Type} (f : α → Result β) (w : Walk α) : Walk β := ⟨w.length,w.steps.map f⟩

def zipWith {α β γ : Type} (f : α → β → Result γ) (v : Walk α) (w : Walk β) : Walk γ :=
  ⟨min v.length w.length,Steps.zipWith f v.steps w.steps⟩

def foldl {α β : Type} (f : β → α → Result β) (init : β) (w : Walk α) : Result β := w.steps.foldl f init

def toList {α : Type} (w : Walk α) : Result (List α) := do
  let reversed ← w.foldl (fun xs x => .ok (x :: xs)) []
  .ok reversed.reverse

/-- Room for one cell of `width` bytes a step, which is asked for after the first step. -/
def room {α : Type} (width : Nat) (w : Walk α) : Result Unit :=
  if width*w.length ≤ Capacity.maxBytes then .ok ()
  else
    match w.steps with
    | .fault cause => .error cause
    | _ => abort .capacityOverflow

def collectWide {α : Type} (width : Nat) (w : Walk α) : Result (List α) := do
  w.room width
  w.toList

def collect {α : Type} [Element α] (w : Walk α) : Result (List α) := w.collectWide (Element.width α)

/-- The left fold from `identity`, or from the first step where there is none; `operation` names the fold in the
refusal of an empty walk. -/
def reduce {α : Type} (operation : String) (identity : Option α) (f : α → α → Result α) (w : Walk α) : Result α :=
  match identity with
  | some e => w.foldl f e
  | none =>
    match w.steps with
    | .done => refuse (.emptyReduction operation)
    | .fault cause => .error cause
    | .next first rest => (rest ()).foldl f first

def scanStep {α : Type} (f : α → α → Result α) (folds : List α) (x : α) : Result (List α) := do
  let next ← match folds with
    | [] => .ok x
    | previous :: _ => f previous x
  .ok (next :: folds)

def scan {α : Type} [Element α] (f : α → α → Result α) (w : Walk α) : Result (List α) := do
  w.room (Element.width α)
  let folds ← w.foldl (scanStep f) []
  .ok folds.reverse

end Walk

end Strided
