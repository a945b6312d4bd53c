import MeteredContract.Fault.Trail
import MeteredContract.Value.Basic

/-!
Faults: why a run ended without a result. A fault is a cause, the innermost source position that is
known, the trail of components that were active, and notes. Nothing in the language catches a fault.
-/

set_option autoImplicit false
set_option relaxedAutoImplicit false

namespace MeteredContract

/-- How a list of arguments fails to fit a list of parameters. -/
inductive Mismatch where
  | missing
  | unexpected
  | duplicate
  deriving DecidableEq

/-- Why a primitive operation gave no result. -/
inductive PrimitiveFailure where
  | unknown
  | noOverload (argTypes : List Ty)
  /-- The values are not of the types by which the operation was chosen. -/
  | shape
  | divisionByZero
  | rangeOutOfBounds
  | negativeIncrement
  /-- An argument is a closure, which has no type. -/
  | untyped (kind : ValueKind)
  | noCost
  /-- The cost needs an argument that is not there; positions count from one. -/
  | missingArgument (position : Nat)
  | described (reason : String)

/-- Where a closure was found that may not be there. -/
inductive Place where
  | field (name : String)
  | messageEntry (name : String)
  | described (place : String)

/-- What was found instead of a value of the expected type: its type or, if that says nothing, its
kind. -/
inductive Found where
  | ty (t : Ty)
  | kind (k : ValueKind)

inductive Cause where
  | unboundIdentifier (name : String)
  | notAFunction (found : ValueKind)
  | notATypeFunction (found : ValueKind)
  | arityMismatch (constructor : String) (expected got : Nat)
  | unknownConstructor (name : String)
  | callDepthExceeded (limit : Nat)
  | noMatchingClause (scrutinee : String)
  | impureValue (place : Place)
  | nonCollection (operation : String) (found : ValueKind)
  | primitive (op : String) (failure : PrimitiveFailure)
  | integerOverflow (operation : String)
  | outOfGas (required remaining : Nat)
  | nonIntegerCharge (charge : Charge)
  | constraintViolation
  | noMatchingTransition (tag : String)
  | parameterMismatch (name : String) (reason : Mismatch)
  | notAssignable (name : String) (expected : Ty) (found : Found)
  | insufficientBalance (required balance : Nat)
  | invalidRemoteAddress (expected got : Nat)
  | malformedMessage (missing : String)
  | unknownField (name : String)
  | unknownProcedure (name : String)
  | thrown (payload : Option Value)
  | storage (reason : String)

structure Fault where
  cause : Cause
  span : Option Span
  trail : Option Trail
  notes : List String

namespace Fault

def ofCause (c : Cause) : Fault := ⟨c, none, none, []⟩

/-- Record a position unless one is known; the dummy span says nothing. -/
def withSpan (s : Span) (f : Fault) : Fault :=
  if f.span.isNone && !s.isDummy then { f with span := some s } else f

/-- Record a trail unless there is one. -/
def withTrail (t : Trail) (f : Fault) : Fault :=
  if f.trail.isNone then { f with trail := some t } else f

/-- Record the trail of the running component; outside of every component there is none. -/
def attach (t : Trail) (f : Fault) : Fault := if t.isEmpty then f else f.withTrail t

def withNote (note : String) (f : Fault) : Fault := { f with notes := f.notes ++ [note] }

def isOutOfGas (f : Fault) : Bool :=
  match f.cause with
  | .outOfGas _ _ => true
  | _ => false

/-- The value that a program threw. -/
def exception? (f : Fault) : Option Value :=
  match f.cause with
  | .thrown payload => payload
  | _ => none

end Fault

end MeteredContract
