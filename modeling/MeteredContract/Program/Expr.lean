import MeteredContract.Gas.Charge
import MeteredContract.Span
import MeteredContract.Ty.Basic

/-!
Expressions of the pure language, with their literals and patterns. Arguments and scrutinees are
variables. A source position is a node of its own (`Expr.located`); `Expr.withSpan` places one.
-/

set_option autoImplicit false
set_option relaxedAutoImplicit false

namespace MeteredContract

/-- A literal as it is written: an integer may lie outside its type. -/
inductive Literal where
  | int (ty : IntTy) (value : Int)
  | str (s : String)
  | bnum (n : Nat)
  | bystrx (bytes : List UInt8)
  | bystr (bytes : List UInt8)
  | address (bytes : List UInt8)
  | emptyMap (key val : Ty)

inductive Payload where
  | lit (l : Literal)
  | var (x : String)

inductive Pattern where
  | wildcard
  | binder (x : String)
  | constructor (name : String) (args : List Pattern)

inductive Expr where
  | literal (l : Literal)
  | var (x : String)
  | letIn (x : String) (declared : Option Ty) (rhs body : Expr)
  | message (entries : List (String × Payload))
  | fn (param : String) (ty : Ty) (body : Expr)
  /-- Application to each argument in turn. -/
  | app (func : String) (args : List String)
  | construct (name : String) (targs : List Ty) (args : List String)
  | matching (scrutinee : String) (clauses : List (Pattern × Expr))
  | builtin (op : String) (targs : List Ty) (args : List String)
  | tyFn (tvar : String) (body : Expr)
  | tyApp (func : String) (targs : List Ty)
  | fix (name : String) (ty : Ty) (body : Expr)
  | gas (charge : Charge) (body : Expr)
  | located (span : Span) (e : Expr)

namespace Expr

def span : Expr → Span
  | .located s _ => s
  | _ => .dummy

/-- Give the outermost node a position, in place of the one it may have. -/
def withSpan (s : Span) : Expr → Expr
  | .located _ e => .located s e
  | e => .located s e

end Expr

end MeteredContract
