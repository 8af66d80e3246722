import Strided.Session.Query
import Strided.View.Fresh

set_option autoImplicit false

/-!
Sessions: steps run one after another on named arrays. A step that faults answers with its fault and binds nothing;
the steps after it still run. What a step makes is shown before it is bound, so an array that cannot be counted is
never bound.
-/
namespace Strided.Session

def bindView {α : Type} [Element α] (s : State α) (v : View) (out : Option String) :
    Attempt (Answer α × State α) := do
  let a ← shown ⟨s.cells,v⟩
  .ok (.array a,s.bind out (.array v))

def bindMask {α : Type} (s : State α) (v : View) (out : Option String) : Attempt (Answer α × State α) := do
  let a ← shown ⟨s.masks,v⟩
  .ok (.mask a,s.bind out (.mask v))

def placeMask {α : Type} (s : State α) (b : Block Bool) (out : Option String) : Attempt (Answer α × State α) :=
  let (v,masks) := s.masks.place b
  bindMask { s with masks } v out

def placeBuffer {α : Type} (s : State α) (xs : List α) (out : Option String) : Answer α × State α :=
  let (b,cells) := s.cells.alloc xs
  (.buffer xs.length,({ s with cells }).bind out (.buffer b))

/-- The work that makes a fresh array. Reductions and scans along an axis have arrays underway in the heap; everything
else is computed first. -/
def Fresh.work {α : Type} (as : Abilities α) (s : State α) (made : Fresh α) : Attempt (Update α View) :=
  let _element := as.element
  match made with
  | .reduceAxis r a axis => do
    let r ← r.resolve as
    let a ← s.array a
    .ok (a.view.foldAlong r.name r.identity r.combine axis)
  | .reduceAxisWith g a axis => do
    let g ← binaryNamed as g
    let a ← s.array a
    .ok (a.view.foldAlong "reduce" none g axis)
  | .foldAxis g a axis init => do
    let g ← binaryNamed as g
    let a ← s.array a
    .ok (a.view.foldAlong "fold" (some init) g axis)
  | .scanAxis g a axis => do
    let g ← binaryNamed as g
    let a ← s.array a
    .ok (a.view.scanAxis g axis)
  | .cumsumAxis a axis => do
    let _arithmetic ← required as.arithmetic
    let a ← s.array a
    .ok (a.view.scanAxis Arithmetic.add axis)
  | .cumprodAxis a axis => do
    let _arithmetic ← required as.arithmetic
    let a ← s.array a
    .ok (a.view.scanAxis Arithmetic.mul axis)
  | made => do
    let b ← made.make as s
    .ok (Update.place b)

def Writing.work {α : Type} (as : Abilities α) (s : State α) (dest : View) (writing : Writing α) :
    Attempt (Update α Unit) :=
  let _element := as.element
  match writing with
  | .element index x promised =>
    .ok (if promised then dest.setPromised index x else dest.set index x)
  | .fill x => .ok (dest.fill x)
  | .values xs => .ok (dest.assign xs)
  | .copy a => do
    let a ← s.array a
    .ok (dest.copyInto a.view)
  | .map f a => do
    let f ← unaryNamed as f
    let a ← s.array a
    .ok (dest.mapInto f a.view)
  | .zipMap g a b => do
    let g ← binaryNamed as g
    let a ← s.array a
    let b ← s.array b
    .ok (dest.zipMapInto g a.view b.view)

/-- The answer to a step that finishes, and the state after it. A write that faults has changed cells all the same, and
making an array may leave buffers that nobody names, so the state comes back in either case. -/
def Step.attempt {α : Type} (as : Abilities α) (s : State α) (step : Step α) :
    Attempt (Answer α × State α) × State α :=
  let _element := as.element
  match step with
  | .write dest writing =>
    match (do
      let d ← s.array dest
      let work ← writing.work as s d.view
      .ok (d.view,work) : Attempt (View × Update α Unit)) with
    | .error o => (.error o,s)
    | .ok (v,work) =>
      let (r,cells) := work s.cells
      let s := { s with cells }
      (do
        let () ← r
        let a ← shown ⟨s.cells,v⟩
        .ok (.array a,s),s)
  | .writeTruth mask a =>
    match (do
      let m ← s.mask mask
      let a ← s.array a
      .ok (m.view,a) : Attempt (View × Snapshot α)) with
    | .error o => (.error o,s)
    | .ok (v,a) =>
      let (r,masks) := v.mapInto (fun x => .ok (isTruthy as x)) a s.masks
      let s := { s with masks }
      (do
        let () ← r
        let a ← shown ⟨s.masks,v⟩
        .ok (.mask a,s),s)
  | .writeCell a cell x =>
    match s.bufferNamed a with
    | .error o => (.error o,s)
    | .ok b =>
      let (r,cells) := Update.write b cell x s.cells
      let s := { s with cells }
      (do
        let () ← r
        .ok (.values (s.cells.cells b).toList,s),s)
  | .fresh made out =>
    match made.work as s with
    | .error o => (.error o,s)
    | .ok work =>
      let (r,cells) := work s.cells
      let s := { s with cells }
      (do
        let v ← r
        bindView s v out,s)
  | .freshMask made out =>
    (do placeMask s (← made.make as s) out,s)
  | .view a outlook out =>
    (do
      let a ← s.array a
      bindView s (← outlook.take a.view) out,s)
  | .viewMask mask outlook out =>
    (do
      let mask ← s.mask mask
      bindMask s (← outlook.take mask.view) out,s)
  | .viewBuffer a dims strides offset out =>
    (do
      let b ← s.bufferNamed a
      bindView s (← View.ofBuffer b (s.cells.length b) dims strides offset) out,s)
  | .contiguous a out =>
    (do
      let a ← s.array a
      let (v,cells) ← a.asContiguous
      bindView { s with cells } v out,s)
  | .buffer data out => (.ok (placeBuffer s data out),s)
  | .bufferFilled length x out =>
    (do
      let () ← Capacity.reserve (Element.width α) length
      .ok (placeBuffer s (List.replicate length x) out),s)
  | .bufferOf a out =>
    (do
      let a ← s.array a
      .ok (.buffer (s.cells.length a.view.buffer),s.bind out (.buffer a.view.buffer)),s)
  | .drop a => (.ok (.flag (s.lookup a).isSome,s.remove a),s)
  | .query asked =>
    (do .ok (← asked.answer as s,s),s)

def Step.run {α : Type} (as : Abilities α) (s : State α) (step : Step α) : Answer α × State α :=
  match step.attempt as s with
  | (.ok answered,_) => answered
  | (.error o,s) => (.obstacle o,s)

def run {α : Type} (as : Abilities α) : List (Step α) → State α → List (Answer α) × State α
  | [], s => ([],s)
  | step :: steps, s =>
    let (answer,s) := step.run as s
    let (answers,s) := run as steps s
    (answer :: answers,s)

end Strided.Session
