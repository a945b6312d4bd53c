import MeteredContract.Admission
import MeteredContract.Program.Module

/-!
Named arguments for parameters. Each parameter takes exactly one argument of its name; a repeated
argument is reported before one that no parameter takes, and that before a missing one.
-/

set_option autoImplicit false
set_option relaxedAutoImplicit false

namespace MeteredContract

/-- The first name that repeats an earlier one or one in `seen`. -/
def firstRepeated? : (seen : List String) → List String → Option String
  | _, [] => none
  | seen, n :: ns => if seen.contains n then some n else firstRepeated? (n :: seen) ns

namespace Arguments

/-- The value of the first argument of that name. -/
def value? (args : List (String × Value)) (name : String) : Option Value :=
  (args.find? (·.1 = name)).map Prod.snd

/-- The argument of each parameter, in the order of the parameters. -/
def inOrder (args : List (String × Value)) : List Param → Except Cause (List Value)
  | [] => .ok []
  | p :: ps =>
    match value? args p.name with
    | none => .error (.parameterMismatch p.name .missing)
    | some v => do
      let vs ← inOrder args ps
      return v :: vs

def pairUp (params : List Param) (args : List (String × Value)) : Except Cause (List Value) :=
  match firstRepeated? [] (args.map Prod.fst) with
  | some n => .error (.parameterMismatch n .duplicate)
  | none =>
    match args.find? fun x ↦ !params.any (·.name = x.1) with
    | some (n, _) => .error (.parameterMismatch n .unexpected)
    | none => inOrder args params

/-- Check each value against the type of its parameter, except for the parameters in `trusted`. -/
def checkTypes (trusted : List String) : List (Param × Value) → Except Cause (List PendingCheck)
  | [] => .ok []
  | (p, v) :: rest =>
    if trusted.contains p.name then checkTypes trusted rest
    else do
      let first ← v.checkType p.name p.ty
      let others ← checkTypes trusted rest
      return first ++ others

end Arguments

/-- Arguments that were checked, in the order of the parameters. -/
structure Admitted where
  bindings : List (Param × Value)
  pending : List PendingCheck

def admitArguments (params : List Param) (args : List (String × Value)) (trusted : List String) :
    Except Cause Admitted := do
  let values ← Arguments.pairUp params args
  let bindings := params.zip values
  let pending ← Arguments.checkTypes trusted bindings
  return ⟨bindings, pending⟩

/-- The admitted values under the names of their parameters. -/
def Admitted.named (a : Admitted) : List (String × Value) := a.bindings.map fun b ↦ (b.1.name, b.2)

end MeteredContract
