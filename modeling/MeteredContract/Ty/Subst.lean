import MeteredContract.Ty.Basic

/-!
Operations on types: forgetting what address types ask (`Ty.erase`), replacing free type variables
(`Ty.resolve`) and asking whether there are any (`Ty.hasFreeVars`).
-/

set_option autoImplicit false
set_option relaxedAutoImplicit false

namespace MeteredContract.Ty

mutual

/-- Every address type becomes the type of 20-byte strings. -/
def erase : Ty → Ty
  | .prim p => .prim p
  | .map k v => .map (erase k) (erase v)
  | .fn a r => .fn (erase a) (erase r)
  | .data n ts => .data n (eraseAll ts)
  | .var n => .var n
  | .poly n t => .poly n (erase t)
  | .unit => .unit
  | .address _ => bystr20

def eraseAll : List Ty → List Ty
  | [] => []
  | t :: ts => erase t :: eraseAll ts

end

/-- A substitution of types for type variables. -/
abbrev Subst : Type := String → Option Ty

/-- The substitution inside a binder of `name`. -/
def Subst.under (s : Subst) (name : String) : Subst := fun x ↦ if x = name then none else s x

mutual

/-- Replace the free type variables that the substitution knows and keep the others. -/
def resolve : Ty → Subst → Ty
  | .prim p, _ => .prim p
  | .map k v, s => .map (resolve k s) (resolve v s)
  | .fn a r, s => .fn (resolve a s) (resolve r s)
  | .data n ts, s => .data n (resolveAll ts s)
  | .var n, s => (s n).getD (.var n)
  | .poly n t, s => .poly n (resolve t (s.under n))
  | .unit, _ => .unit
  | .address ⟨k, fs⟩, s => .address ⟨k, resolveFields fs s⟩

def resolveAll : List Ty → Subst → List Ty
  | [], _ => []
  | t :: ts, s => resolve t s :: resolveAll ts s

def resolveFields : List (String × Ty) → Subst → List (String × Ty)
  | [], _ => []
  | (n, t) :: fs, s => (n, resolve t s) :: resolveFields fs s

end

mutual

/-- The type has a type variable that no enclosing binder and no name in `bound` binds. -/
def hasFreeVarsBeyond : Ty → List String → Bool
  | .prim _, _ => false
  | .map k v, bound => hasFreeVarsBeyond k bound || hasFreeVarsBeyond v bound
  | .fn a r, bound => hasFreeVarsBeyond a bound || hasFreeVarsBeyond r bound
  | .data _ ts, bound => anyHasFreeVarsBeyond ts bound
  | .var n, bound => !bound.contains n
  | .poly n t, bound => hasFreeVarsBeyond t (n :: bound)
  | .unit, _ => false
  | .address ⟨_, fs⟩, bound => anyFieldHasFreeVarsBeyond fs bound

def anyHasFreeVarsBeyond : List Ty → List String → Bool
  | [], _ => false
  | t :: ts, bound => hasFreeVarsBeyond t bound || anyHasFreeVarsBeyond ts bound

def anyFieldHasFreeVarsBeyond : List (String × Ty) → List String → Bool
  | [], _ => false
  | (_, t) :: fs, bound => hasFreeVarsBeyond t bound || anyFieldHasFreeVarsBeyond fs bound

end

def hasFreeVars (t : Ty) : Bool := t.hasFreeVarsBeyond []

end MeteredContract.Ty
