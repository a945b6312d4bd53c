import MeteredContract.Datatype
import MeteredContract.Gas.Price
import MeteredContract.Primitive.Run
import MeteredContract.Scope.Arena

/-!
The parts of evaluation that only read an environment: literals, messages, constructor applications,
and the choice of a primitive by its arguments.
-/

set_option autoImplicit false
set_option relaxedAutoImplicit false

namespace MeteredContract

/-- The type of a value that a primitive is called with. -/
def Value.typeFor (op : String) (v : Value) : Except Cause Ty :=
  match v.typeOf? with
  | some t => .ok t
  | none => .error (.primitive op (.untyped v.kind))

def Value.typesFor (op : String) : List Value → Except Cause (List Ty)
  | [] => .ok []
  | v :: vs => do
    let t ← v.typeFor op
    let ts ← typesFor op vs
    return t :: ts

/-- A call of a primitive that is ready to be paid and run. -/
structure PrimitiveCall where
  op : Primitive
  args : List Value
  ret : Ty
  price : Charge

namespace Arena

variable (a : Arena) (env : Env)

def lookupAll : List String → Except Cause (List Value)
  | [] => .ok []
  | x :: xs => do
    let v ← a.lookup env x
    let vs ← lookupAll xs
    return v :: vs

/-- A type as run-time values carry it: instantiated, and without what address types ask. -/
def runtimeTy (t : Ty) : Ty := (a.resolveTy env t).erase

def literal : Literal → Except Cause Value
  | .emptyMap k v => .ok (.map (.empty (a.runtimeTy env k) (a.runtimeTy env v)))
  | l =>
    match Value.ofLiteral? l with
    | some v => .ok v
    | none => .error (.integerOverflow "literal")

def payload : Payload → Except Cause Value
  | .lit l => a.literal env l
  | .var x => a.lookup env x

/-- Entries of a message, each with the type of its value. -/
def messageEntries : List (String × Payload) → Except Cause (List MessageEntry)
  | [] => .ok []
  | (name, p) :: rest => do
    let v ← a.payload env p
    match v.typeOf?, v.isSendable with
    | some t, true =>
      let es ← messageEntries rest
      return ⟨name, t, v⟩ :: es
    | _, _ => throw (.impureValue (.messageEntry name))

def construct (types : Datatypes) (name : String) (targs : List Ty) (args : List String) :
    Except Cause Value :=
  match types.constructor? name with
  | none => .error (.unknownConstructor name)
  | some info =>
    if info.arity = args.length then do
      let vs ← a.lookupAll env args
      return .data info.tyName name (targs.map (a.runtimeTy env)) vs
    else .error (.arityMismatch name info.arity args.length)

/-- Choose a primitive by the types of its arguments, and its price. -/
def primitiveCall (op : String) (args : List String) : Except Cause PrimitiveCall := do
  let vs ← a.lookupAll env args
  let ts ← Value.typesFor op vs
  let (p, ret) ← Primitive.find op ts
  let price ← Gas.price op ts args
  return ⟨p, vs, ret, price⟩

end Arena

end MeteredContract
