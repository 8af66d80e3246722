import Strided.Construct

set_option autoImplicit false

namespace Strided.Session

inductive Filling (α : Type) where
  | value (x : α)
  | blank
  | zero
  | one

/-- The arithmetic of the elements themselves, which is not in their table. -/
inductive Operator where
  | add
  | sub
  | mul
  | div
  deriving DecidableEq, Repr

inductive ReductionName where
  | sum
  | prod
  | min
  | max
  deriving DecidableEq, Repr

inductive Fresh (α : Type) where
  | vector (data : List α)
  | listed (dims : Shape) (data : List α)
  | scalar (x : α)
  | filled (dims : Shape) (filling : Filling α)
  | filledLike (a : String) (filling : Filling α)
  | filledLikeNested (n : Nat) (x : Nested α n) (filling : Filling α)
  | affine (dims : Shape) (coefficients : List Int)
  | range (start stop step : α)
  | interval (first last : α) (closed reversed : Bool)
  | linspace (start stop : α) (n : Option Nat) (endpoint : Bool)
  | nested (n : Nat) (x : Nested α n)
  | deepCopy (a : String)
  | flatten (a : String)
  | transpose (a : String)
  | transposeAxes (a : String) (perm : List Nat)
  | stack (items : List String)
  | stackShaped (dims : Shape) (items : List String)
  | unary (f a : String)
  | binary (g a b : String)
  | ternary (g a b c : String)
  | withScalar (g a : String) (x : α)
  | select (mask a b : String)
  | arithmetic (op : Operator) (a b : String)
  | maximum (a b : String)
  | minimum (a b : String)
  | cumsum (a : String)
  | reduceAxis (r : ReductionName) (a : String) (axis : Nat)
  | reduceAxisWith (g a : String) (axis : Nat)
  | foldAxis (g a : String) (axis : Nat) (init : α)
  | scanAxis (g a : String) (axis : Nat)
  | cumsumAxis (a : String) (axis : Nat)
  | cumprodAxis (a : String) (axis : Nat)

inductive FreshMask where
  | listed (dims : Shape) (data : List Bool)
  | compare (test a b : String)
  | truthy (a : String)

inductive Outlook where
  | whole
  | slab (i : Nat)
  | slabAlong (axis i : Nat)
  | permuted (perm : List Nat)
  | broadcastTo (dims : Shape)
  | reshape (dims : Shape)
  deriving DecidableEq, Repr

inductive Writing (α : Type) where
  | element (index : List Nat) (x : α) (promised : Bool)
  | fill (x : α)
  | values (xs : List α)
  | copy (a : String)
  | map (f a : String)
  | zipMap (g a b : String)

inductive Action where
  | next
  | nextBack
  | length
  | rest
  | index
  deriving DecidableEq, Repr

inductive Query (α : Type) where
  | contents (a : String)
  | info (a : String)
  | bufferInfo (a : String)
  | bufferText (a : String)
  | bufferCell (a : String) (cell : Nat)
  | shares (a b : String)
  | equal (a b : String)
  | text (a : String)
  | element (a : String) (index : List Nat) (promised : Bool)
  | item (a : String)
  | values (a : String)
  | elements (a : String) (actions : List Action)
  | indexed (a : String) (actions : List Action)
  | indexedAfter (a : String) (skipped : Nat)
  | offsets (a : String) (actions : List Action)
  | slabs (a : String) (axis : Option Nat) (actions : List Action)
  | all (a : String)
  | any (a : String)
  | reduce (f g a : String) (init : α)
  | reduceWith (r : ReductionName) (a : String)
  | sum (a : String)
  | prod (a : String)
  | min (a : String)
  | max (a : String)
  | mean (a : String)
  | rangeLength (start stop step : α)
  | upTo (stop : Int)
  | maskCount (mask : String)
  | maskAll (mask : String)
  | maskAny (mask : String)

inductive Step (α : Type) where
  | fresh (made : Fresh α) (out : Option String)
  | freshMask (made : FreshMask) (out : Option String)
  | view (a : String) (outlook : Outlook) (out : Option String)
  | viewMask (mask : String) (outlook : Outlook) (out : Option String)
  | viewBuffer (a : String) (dims : Shape) (strides : List Int) (offset : Nat) (out : Option String)
  | contiguous (a : String) (out : Option String)
  | buffer (data : List α) (out : Option String)
  | bufferFilled (length : Nat) (x : α) (out : Option String)
  | bufferOf (a : String) (out : Option String)
  | write (dest : String) (writing : Writing α)
  | writeTruth (mask a : String)
  | writeCell (a : String) (cell : Nat) (x : α)
  | drop (a : String)
  | query (asked : Query α)

end Strided.Session
