import Strided.Session.State
import Strided.Session.Step
import Strided.Snapshot.AlongAxis
import Strided.Snapshot.Elementwise

set_option autoImplicit false

namespace Strided.Session

def required {β : Type} (ability : Option β) : Attempt β :=
  match ability with
  | some x => .ok x
  | none => .error .unsupported

def unaryNamed {α : Type} (as : Abilities α) (f : String) : Result (α → Result α) :=
  OpTable.required f (as.table.unary.get? f)

def binaryNamed {α : Type} (as : Abilities α) (g : String) : Result (α → α → Result α) :=
  OpTable.required g (as.table.binary.get? g)

def compareNamed {α : Type} (as : Abilities α) (test : String) : Result (α → α → Bool) :=
  OpTable.required test (as.table.compare.get? test)

def Filling.resolve {α : Type} (as : Abilities α) : Filling α → Attempt α
  | .value x => .ok x
  | .blank => .ok as.element.blank
  | .zero => do
    let arithmetic ← required as.arithmetic
    .ok arithmetic.zero
  | .one => do
    let arithmetic ← required as.arithmetic
    .ok arithmetic.one

def ReductionName.resolve {α : Type} (as : Abilities α) : ReductionName → Attempt (Reduction α)
  | .sum => do
    let _arithmetic ← required as.arithmetic
    .ok Reduction.sum
  | .prod => do
    let _arithmetic ← required as.arithmetic
    .ok Reduction.prod
  | .min => do
    let _order ← required as.order
    .ok Reduction.min
  | .max => do
    let _order ← required as.order
    .ok Reduction.max

def Operator.resolve {α : Type} (arithmetic : Arithmetic α) : Operator → α → α → Result α
  | .add => arithmetic.add
  | .sub => arithmetic.sub
  | .mul => arithmetic.mul
  | .div => arithmetic.div

def affineValue (index : List Nat) (coefficients : List Int) : Int :=
  (List.zipWith (fun (i : Nat) (c : Int) => i*c) index coefficients).foldl (·+·) 0

def State.views {α : Type} (s : State α) (names : List String) : Attempt (List View) :=
  names.mapM fun name => do
    let a ← s.array name
    .ok a.view

def Fresh.make {α : Type} (as : Abilities α) (s : State α) (made : Fresh α) : Attempt (Block α) :=
  let _element := as.element
  match made with
  | .vector data => .ok (Block.ofVector data)
  | .listed dims data => Block.ofList dims data
  | .scalar x => .ok (Block.scalar x)
  | .filled dims filling => do
    let x ← filling.resolve as
    Block.filled dims x
  | .filledLike a filling => do
    let x ← filling.resolve as
    let a ← s.array a
    Block.filled a.dims x
  | .filledLikeNested n sequence filling => do
    let x ← filling.resolve as
    let dims ← Nested.shape n sequence
    Block.filled dims x
  | .affine dims coefficients => Block.ofFn dims fun index => .ok (as.ofInt (affineValue index coefficients))
  | .range start stop step => do
    let _arithmetic ← required as.arithmetic
    let _countable ← required as.countable
    Range.values as.memory start stop step
  | .interval first last closed reversed => do
    let interval ← required as.interval
    let data ← interval first last closed reversed
    .ok (Block.ofVector data)
  | .linspace start stop n endpoint => do
    let _floating ← required as.floating
    Range.linspace start stop (n.getD Range.defaultSamples) endpoint
  | .nested n x => Nested.toBlock n x
  | .deepCopy a => do
    let a ← s.array a
    a.deepCopy
  | .flatten a => do
    let a ← s.array a
    a.flatten
  | .transpose a => do
    let a ← s.array a
    a.transpose
  | .transposeAxes a perm => do
    let a ← s.array a
    a.transposeAxes perm
  | .stack items => do
    let views ← s.views items
    Snapshot.stack s.cells views
  | .stackShaped dims items => do
    let views ← s.views items
    Snapshot.stackShaped s.cells dims views
  | .unary f a => do
    let f ← unaryNamed as f
    let a ← s.array a
    a.map f
  | .binary g a b => do
    let g ← binaryNamed as g
    let a ← s.array a
    let b ← s.array b
    a.zipMap2 g b
  | .ternary g a b c => do
    let g ← binaryNamed as g
    let a ← s.array a
    let b ← s.array b
    let c ← s.array c
    a.zipMap3 (fun x y z => do g (← g x y) z) b c
  | .withScalar g a x => do
    let g ← binaryNamed as g
    let a ← s.array a
    a.map fun y => g y x
  | .select mask a b => do
    let mask ← s.mask mask
    let a ← s.array a
    let b ← s.array b
    mask.zipMap3 (fun c x y => .ok (if c then x else y)) a b
  | .arithmetic op a b => do
    let arithmetic ← required as.arithmetic
    let a ← s.array a
    let b ← s.array b
    a.zipMap2 (op.resolve arithmetic) b
  | .maximum a b => do
    let _order ← required as.order
    let a ← s.array a
    let b ← s.array b
    a.zipMap2 Reduction.max.combine b
  | .minimum a b => do
    let _order ← required as.order
    let a ← s.array a
    let b ← s.array b
    a.zipMap2 Reduction.min.combine b
  | .cumsum a => do
    let _arithmetic ← required as.arithmetic
    let a ← s.array a
    a.cumsum
  | .reduceAxis r a axis => do
    let r ← r.resolve as
    let a ← s.array a
    a.reduceAxis r axis
  | .reduceAxisWith g a axis => do
    let g ← binaryNamed as g
    let a ← s.array a
    a.reduceAxisWith g axis
  | .foldAxis g a axis init => do
    let g ← binaryNamed as g
    let a ← s.array a
    a.foldAxis init g axis
  | .scanAxis g a axis => do
    let g ← binaryNamed as g
    let a ← s.array a
    a.scanAxis g axis
  | .cumsumAxis a axis => do
    let _arithmetic ← required as.arithmetic
    let a ← s.array a
    a.cumsumAxis axis
  | .cumprodAxis a axis => do
    let _arithmetic ← required as.arithmetic
    let a ← s.array a
    a.cumprodAxis axis

def isTruthy {α : Type} (as : Abilities α) (x : α) : Bool := !as.same x as.element.blank

def FreshMask.make {α : Type} (as : Abilities α) (s : State α) : FreshMask → Attempt (Block Bool)
  | .listed dims data => Block.ofList dims data
  | .compare test a b => do
    let test ← compareNamed as test
    let a ← s.array a
    let b ← s.array b
    a.zipMap2 (fun x y => .ok (test x y)) b
  | .truthy a => do
    let a ← s.array a
    a.map fun x => .ok (isTruthy as x)

def Outlook.take (v : View) : Outlook → Result View
  | .whole => .ok v
  | .slab i => v.slab i
  | .slabAlong axis i => v.slabAlong axis i
  | .permuted perm => v.permuted perm
  | .broadcastTo dims => v.broadcastTo dims
  | .reshape dims => v.reshape dims

end Strided.Session
