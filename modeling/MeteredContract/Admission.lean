import MeteredContract.Store
import MeteredContract.Ty.Subst

/-!
Admission of values at the boundary of a contract: an argument is checked against the type of its
parameter before it is bound. Whether an address leads to an account of the right shape cannot be
seen from the value, so each address met on the way yields a check to be made on the chain.
-/

set_option autoImplicit false
set_option relaxedAutoImplicit false

namespace MeteredContract

/-- The account at `address`, which came with the parameter `name`, has to satisfy `ty`. -/
structure PendingCheck where
  name : String
  address : Address
  ty : AddressTy

namespace Value

/-- What to report of a value that does not have the expected type. -/
def found (v : Value) : Found :=
  match v.typeOf? with
  | some t => .ty t
  | none => .kind v.kind

def notAssignable (name : String) (expected : Ty) (v : Value) : Cause :=
  .notAssignable name expected v.found

mutual

/-- Check a value against a type. The arguments of options, lists and pairs are checked in turn;
values of other datatypes are taken by their type alone. -/
def checkType (name : String) : Value → Ty → Except Cause (List PendingCheck)
  | .bystrx b, .address a =>
    if b.length = addressWidth then .ok [⟨name, b, a⟩]
    else .error (notAssignable name (.address a) (.bystrx b))
  | .message _, .prim .message => .ok []
  | .message _, .prim .event => .ok []
  | .message _, .prim .exception => .ok []
  | .map ⟨k', v', es⟩, .map k v =>
    if k'.erase = k.erase ∧ v'.erase = v.erase then checkEntries name es k v
    else .error (notAssignable name (.map k v) (.map ⟨k', v', es⟩))
  | .data n' c ts' args, .data n ts =>
    if n' = n ∧ Ty.eraseAll ts' = Ty.eraseAll ts then
      match n, c, ts, args with
      | "Option", "Some", [t], [v] => checkType name v t
      | "List", "Cons", [t], [head, tail] => do
        let first ← checkType name head t
        let rest ← checkType name tail (.list t)
        return first ++ rest
      | "Pair", "Pair", [t, t'], [v, v'] => do
        let first ← checkType name v t
        let rest ← checkType name v' t'
        return first ++ rest
      | _, _, _, _ => .ok []
    else .error (notAssignable name (.data n ts) (.data n' c ts' args))
  | v, .prim p =>
    if v.typeOf? = some (.prim p) then .ok [] else .error (notAssignable name (.prim p) v)
  | v, t => .error (notAssignable name t v)
termination_by structural v => v

def checkEntries (name : String) : List (Value × Value) → Ty → Ty →
    Except Cause (List PendingCheck)
  | [], _, _ => .ok []
  | (key, val) :: es, k, v => do
    let first ← checkType name key k
    let second ← checkType name val v
    let rest ← checkEntries name es k v
    return first ++ second ++ rest
termination_by structural es => es

end

end Value

/-- The account at an address has the shape that an address type asks for. -/
def Store.satisfies (s : Store) (address : Address) (ty : AddressTy) : Bool :=
  s.addressExists address &&
    match ty.kind with
    | .any => true
    | .library => true
    | .contract => ty.fields.all fun f ↦
      match s.remoteFieldTy? address f.1 with
      | some t => t.erase = f.2.erase
      | none => false

end MeteredContract
