import MeteredContract.Fault.Basic
import MeteredContract.Ty.Text
import MeteredContract.Value.Text

/-!
The wording of faults.
-/

set_option autoImplicit false
set_option relaxedAutoImplicit false

namespace MeteredContract

def PrimitiveFailure.text : PrimitiveFailure → String
  | .unknown => "unknown builtin"
  | .noOverload ts => "no overload for (" ++ String.intercalate ", " (ts.map Ty.text) ++ ")"
  | .shape => "arguments do not match the resolved signature"
  | .divisionByZero => "division by zero"
  | .rangeOutOfBounds => "range out of bounds"
  | .negativeIncrement => "negative increment"
  | .untyped k => "cannot take a " ++ k.name
  | .noCost => "no cost is defined"
  | .missingArgument i => "missing argument " ++ Decimal.ofNat i
  | .described reason => reason

def Place.text : Place → String
  | .field name => "field " ++ name
  | .messageEntry name => "message entry " ++ name
  | .described place => place

def Found.text : Found → String
  | .ty t => t.text
  | .kind k => k.name

namespace Cause

def message : Cause → String
  | .unboundIdentifier name => "unbound identifier: " ++ name
  | .notAFunction found => "not a function: got a " ++ found.name
  | .notATypeFunction found => "not a type function: got a " ++ found.name
  | .arityMismatch c expected got =>
    "constructor " ++ c ++ " expects " ++ Decimal.ofNat expected ++
      (if expected = 1 then " argument" else " arguments") ++ ", got " ++ Decimal.ofNat got
  | .unknownConstructor name => "unknown constructor: " ++ name
  | .callDepthExceeded limit => "maximum call depth exceeded (limit: " ++ Decimal.ofNat limit ++ ")"
  | .noMatchingClause x => "no clause matches the value of " ++ x
  | .impureValue place => place.text ++ " holds a closure or type closure"
  | .nonCollection operation found => operation ++ " requires a map or list, got a " ++ found.name
  | .primitive op failure => "builtin " ++ op ++ ": " ++ failure.text
  | .integerOverflow operation => "integer overflow in " ++ operation
  | .outOfGas required remaining =>
    "out of gas: " ++ Decimal.ofNat required ++ " required, " ++ Decimal.ofNat remaining ++
      " remaining"
  | .nonIntegerCharge charge => "gas charge " ++ charge.text ++ " is not an integer"
  | .constraintViolation => "contract constraint is not satisfied"
  | .noMatchingTransition tag => "no transition named " ++ tag
  | .parameterMismatch name .missing => "no argument for parameter " ++ name
  | .parameterMismatch name .unexpected => "argument " ++ name ++ " matches no parameter"
  | .parameterMismatch name .duplicate => "duplicate argument " ++ name
  | .notAssignable name expected found =>
    name ++ ": expected a value of type " ++ expected.text ++ ", got " ++ found.text
  | .insufficientBalance required balance =>
    "insufficient balance: " ++ Decimal.ofNat required ++ " required, " ++ Decimal.ofNat balance ++
      " available"
  | .invalidRemoteAddress expected got =>
    "invalid address: expected " ++ Decimal.ofNat expected ++ " bytes, got " ++ Decimal.ofNat got
  | .malformedMessage missing => "malformed message: missing entry " ++ missing
  | .unknownField name => "unknown field: " ++ name
  | .unknownProcedure name => "unknown procedure: " ++ name
  | .thrown none => "exception thrown"
  | .thrown (some payload) => "exception thrown: " ++ payload.text
  | .storage reason => "state access failed: " ++ reason

end Cause

namespace Fault

def message (f : Fault) : String := f.cause.message

/-- The message and, if it is known, the position. -/
def text (f : Fault) : String :=
  match f.span with
  | some s => f.message ++ " at " ++ s.text
  | none => f.message

end Fault

end MeteredContract
