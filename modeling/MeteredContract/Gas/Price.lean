import MeteredContract.Fault.Basic
import MeteredContract.Primitive.Basic

/-!
Prices of primitive calls, as charges over the argument variables.
-/

set_option autoImplicit false
set_option relaxedAutoImplicit false

namespace MeteredContract.Gas

/-- Price of one step of integer arithmetic, by the width of the first argument. -/
def stepPrice : List Ty → UInt64
  | .prim (.int t) :: _ =>
    match t.width with
    | .w32 => 4
    | .w64 => 4
    | .w128 => 8
    | .w256 => 16
  | _ => 4

def firstIsInt : List Ty → Bool
  | .prim (.int _) :: _ => true
  | _ => false

/-- The name of the argument at position `i`, counted from zero. -/
def argument (op : String) (args : List String) (i : Nat) : Except Cause String :=
  match args[i]? with
  | some x => .ok x
  | none => .error (.primitive op (.missingArgument (i + 1)))

/-- Access to a map of `n` entries costs `1 + ln (n + 1)`, rounded up. -/
def mapAccessPrice (map : String) : Charge :=
  .divCeil (.sum (.static 1) (.log (.sum (.lengthOf map) (.static 1)))) 1

def primitivePrice (p : Primitive) (argTypes : List Ty) (args : List String) :
    Except Cause Charge := do
  let step := stepPrice argTypes
  let arg := argument p.name args
  match p with
  | .eq =>
    if firstIsInt argTypes then return .static step
    return .min (.sizeOf (← arg 0)) (.sizeOf (← arg 1))
  | .add => return .static step
  | .sub => return .static step
  | .lt => return .static step
  | .mul => return .static (step * 5)
  | .div => return .static (step * 5)
  | .rem => return .static (step * 5)
  | .pow => return .sum (.static step) (.prod (.static step) (.valueOf (← arg 1)))
  | .concat => return .sum (.sizeOf (← arg 0)) (.sizeOf (← arg 1))
  | .strlen => return .sizeOf (← arg 0)
  | .substr => return .sizeOf (← arg 0)
  | .toText =>
    if firstIsInt argTypes then return .static step
    return .sizeOf (← arg 0)
  | .blt => return .static 32
  | .badd => return .static 32
  | .bsub => return .static 32
  | .put => return mapAccessPrice (← arg 0)
  | .get => return mapAccessPrice (← arg 0)
  | .remove => return mapAccessPrice (← arg 0)
  | .contains => return mapAccessPrice (← arg 0)
  | .size => return .static 1
  | .convert _ => return .static 4

/-- The price of a call by name. Every name of the form of a conversion has the price of one. -/
def price (op : String) (argTypes : List Ty) (args : List String) : Except Cause Charge :=
  match Primitive.ofName? op with
  | some p => primitivePrice p argTypes args
  | none =>
    if op.startsWith "to_int" || op.startsWith "to_uint" then .ok (.static 4)
    else .error (.primitive op .noCost)

end MeteredContract.Gas
