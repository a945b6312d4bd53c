import MeteredContract.Fault.Basic
import MeteredContract.Primitive.Basic
import MeteredContract.Ty.Subst

/-!
Signatures of the primitives. They are overloaded on the types of their arguments, which also
determine the type of the result.
-/

set_option autoImplicit false
set_option relaxedAutoImplicit false

namespace MeteredContract

def Ty.isComparable : Ty → Bool
  | .prim (.int _) => true
  | .prim .string => true
  | .prim .bnum => true
  | .prim (.bystrx _) => true
  | .prim .bystr => true
  | _ => false

namespace Primitive

/-- The type of two integers of one type. -/
def commonInt? : List Ty → Option IntTy
  | [.prim (.int a), .prim (.int b)] => if b = a then some a else none
  | _ => none

/-- Key and value type of a map that is accessed at a key and, for an insertion, with a value. What
address types ask does not matter. -/
def mapAccess? : List Ty → Option (Ty × Ty)
  | [.map k v, key] => if key.erase = k.erase then some (k, v) else none
  | _ => none

def mapInsertion? : List Ty → Option (Ty × Ty)
  | [.map k v, key, val] =>
    if key.erase = k.erase ∧ val.erase = v.erase then some (k, v) else none
  | _ => none

/-- The type of the result, if the primitive takes arguments of these types. -/
def resultTy? : Primitive → List Ty → Option Ty
  | eq, [a, b] => if a = b ∧ a.isComparable then some .bool else none
  | add, ts => (commonInt? ts).map .int
  | sub, ts => (commonInt? ts).map .int
  | mul, ts => (commonInt? ts).map .int
  | div, ts => (commonInt? ts).map .int
  | rem, ts => (commonInt? ts).map .int
  | lt, ts => (commonInt? ts).map fun _ ↦ .bool
  | pow, [.prim (.int base), .prim (.int exp)] =>
    if exp = .uint32 then some (.int base) else none
  | concat, [.prim .string, .prim .string] => some .string
  | concat, [.prim .bystr, .prim .bystr] => some .bystr
  | concat, [.prim (.bystrx m), .prim (.bystrx n)] =>
    if m + n < widthLimit then some (.bystrx (m + n)) else none
  | strlen, [.prim .string] => some .uint32
  | strlen, [.prim .bystr] => some .uint32
  | substr, [.prim .string, .prim (.int i), .prim (.int n)] =>
    if i = .uint32 ∧ n = .uint32 then some .string else none
  | toText, [.prim (.int _)] => some .string
  | toText, [.prim (.bystrx _)] => some .string
  | toText, [.prim .bystr] => some .string
  | blt, [.prim .bnum, .prim .bnum] => some .bool
  | badd, [.prim .bnum, .prim (.int i)] => if i.signed then none else some .bnum
  | bsub, [.prim .bnum, .prim .bnum] => some (.int .int256)
  | put, ts => (mapInsertion? ts).map fun kv ↦ .map kv.1 kv.2
  | get, ts => (mapAccess? ts).map fun kv ↦ .option kv.2
  | remove, ts => (mapAccess? ts).map fun kv ↦ .map kv.1 kv.2
  | contains, ts => (mapAccess? ts).map fun _ ↦ .bool
  | size, [.map _ _] => some .uint32
  | convert t, [.prim (.int _)] => some (.option (.int t))
  | convert t, [.prim .string] => some (.option (.int t))
  | _, _ => none

/-- The primitive with the given name and its result type at the given argument types. -/
def find (name : String) (argTypes : List Ty) : Except Cause (Primitive × Ty) :=
  match ofName? name with
  | none => .error (.primitive name .unknown)
  | some p =>
    match p.resultTy? argTypes with
    | none => .error (.primitive name (.noOverload argTypes))
    | some ret => .ok (p, ret)

end Primitive

end MeteredContract
