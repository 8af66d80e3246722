import Strided.Text

set_option autoImplicit false

/-!
How an array operation ends without a result. A refusal names what is wrong with the arguments; an abort is
raised by the machine arithmetic or the memory that the operation stands on, whatever the arguments were meant
to say. Nothing here says when either arises.
-/
namespace Strided

inductive ArrayError where
  | rankMismatch (left right : Nat)
  | shapeMismatch (left right : List Nat)
  | invalidAxis (axis rank : Nat)
  | duplicateAxis (axis : Nat)
  | indexOutOfBounds (index dims : List Nat)
  | lengthMismatch (expected actual : Nat)
  | outOfBuffer (length : Nat)
  | offsetOverflow
  | notContiguous
  | raggedSequence (depth : Nat)
  | emptyStack
  | emptyReduction (operation : String)
  | zeroStep
  | nonFiniteRange
  | tooLarge (length : Nat)
  | notAScalar (size : Nat)
  | unknownOperation (name : String)
  deriving DecidableEq, Repr

def ArrayError.message : ArrayError → String
  | .rankMismatch left right => s!"rank mismatch: {left} vs {right}"
  | .shapeMismatch left right =>
    s!"shape mismatch: {Text.bracketedNats left} vs {Text.bracketedNats right}"
  | .invalidAxis axis rank => s!"invalid axis {axis} for rank {rank}"
  | .duplicateAxis axis => s!"axis {axis} repeated in permutation"
  | .indexOutOfBounds index dims =>
    s!"index {Text.bracketedNats index} out of bounds for dims {Text.bracketedNats dims}"
  | .lengthMismatch expected actual => s!"expected {expected} elements, got {actual}"
  | .outOfBuffer length => s!"view addresses elements outside its buffer of length {length}"
  | .offsetOverflow => "offset overflow while computing element address"
  | .notContiguous => "array is not contiguous"
  | .raggedSequence depth => s!"ragged nested sequence at depth {depth}"
  | .emptyStack => "cannot stack an empty list of arrays"
  | .emptyReduction operation => s!"{operation} of an empty sequence has no identity"
  | .zeroStep => "arange step must be nonzero"
  | .nonFiniteRange => "range length is not a finite number"
  | .tooLarge length => s!"{length} elements exceed the addressable size"
  | .notAScalar size => s!"only size-1 arrays convert to a scalar, got size {size}"
  | .unknownOperation name => s!"unknown operation: {name}"

/-- What stops an operation midway. -/
inductive Abort where
  | addOverflow
  | subtractOverflow
  | multiplyOverflow
  | divideOverflow
  | divideByZero
  | capacityOverflow
  | cellOutOfBounds (length index : Nat)
  /-- An access whose caller promised a valid index, which it was not. -/
  | brokenPromise (error : ArrayError)
  deriving DecidableEq, Repr

def Abort.message : Abort → String
  | .addOverflow => "attempt to add with overflow"
  | .subtractOverflow => "attempt to subtract with overflow"
  | .multiplyOverflow => "attempt to multiply with overflow"
  | .divideOverflow => "attempt to divide with overflow"
  | .divideByZero => "attempt to divide by zero"
  | .capacityOverflow => "capacity overflow"
  | .cellOutOfBounds length index =>
    s!"index out of bounds: the len is {length} but the index is {index}"
  | .brokenPromise error => error.message

inductive Fault where
  | refusal (error : ArrayError)
  | abort (cause : Abort)
  deriving DecidableEq, Repr

abbrev Result (α : Type) := Except Fault α

instance {α : Type} [DecidableEq α] : DecidableEq (Result α)
  | .ok x, .ok y => decidable_of_iff (x = y) ⟨congrArg _,Except.ok.inj⟩
  | .error e, .error f => decidable_of_iff (e = f) ⟨congrArg _,Except.error.inj⟩
  | .ok _, .error _ => isFalse nofun
  | .error _, .ok _ => isFalse nofun

def refuse {α : Type} (error : ArrayError) : Result α := .error (.refusal error)

def abort {α : Type} (cause : Abort) : Result α := .error (.abort cause)

/-- A refusal becomes a broken promise; everything else stays. -/
def Result.promised {α : Type} : Result α → Result α
  | .error (.refusal error) => abort (.brokenPromise error)
  | r => r

end Strided
