import MeteredContract.Value.Order

/-!
Maps as entry lists sorted by key. A key is looked up by the order of values; inserting at a key
that is present keeps the key that stands there and replaces its value.
-/

set_option autoImplicit false
set_option relaxedAutoImplicit false

namespace MeteredContract

namespace MapEntries

def get? : List (Value × Value) → Value → Option Value
  | [], _ => none
  | (k, v) :: es, key => if key.same k then some v else get? es key

def insert : List (Value × Value) → Value → Value → List (Value × Value)
  | [], key, val => [(key, val)]
  | (k, v) :: es, key, val =>
    match key.cmp k with
    | .lt => (key, val) :: (k, v) :: es
    | .eq => (k, val) :: es
    | .gt => (k, v) :: insert es key val

def erase (es : List (Value × Value)) (key : Value) : List (Value × Value) :=
  es.filter fun e ↦ !key.same e.1

end MapEntries

namespace TypedMap

def empty (keyTy valTy : Ty) : MapValue := ⟨keyTy, valTy, []⟩

def ty (m : MapValue) : Ty := .map m.keyTy m.valTy

def size (m : MapValue) : Nat := m.entries.length

def get? (m : MapValue) (key : Value) : Option Value := MapEntries.get? m.entries key

def insert (m : MapValue) (key val : Value) : MapValue :=
  { m with entries := MapEntries.insert m.entries key val }

def erase (m : MapValue) (key : Value) : MapValue :=
  { m with entries := MapEntries.erase m.entries key }

end TypedMap

end MeteredContract
