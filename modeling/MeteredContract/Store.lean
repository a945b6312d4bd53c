import MeteredContract.Fault.Basic
import MeteredContract.Table
import MeteredContract.Text.Hex
import MeteredContract.Value.Map

/-!
Persistent state: the fields of the running contract and, for reading only, those of other
contracts. Maps are read and written in place along a path of keys.
-/

set_option autoImplicit false
set_option relaxedAutoImplicit false

namespace MeteredContract

abbrev Address : Type := List UInt8

inductive StoreFault where
  | unknownField (field : String)
  /-- A value on the key path is not a map. -/
  | notAMap (field : String)
  | unknownContract (address : Address)
  | emptyKeyPath (field : String)

namespace StoreFault

def message : StoreFault → String
  | .unknownField f => "no field `" ++ f ++ "`"
  | .notAMap f => "field `" ++ f ++ "` is not a map at the requested depth"
  | .unknownContract a => "no contract at address " ++ Hex.tagged a
  | .emptyKeyPath f => "map access to `" ++ f ++ "` needs at least one key"

def cause : StoreFault → Cause
  | .unknownField f => .unknownField f
  | e => .storage e.message

end StoreFault

namespace KeyPath

/-- The type of the values that lie `depth` maps further down than values of type `t`. -/
def tyAt? : (t : Ty) → (depth : Nat) → Option Ty
  | t, 0 => some t
  | .map _ v, depth + 1 => tyAt? v depth
  | _, _ + 1 => none

/-- The entry at a path that starts with `key`. -/
def entry? (field : String) : MapValue → (key : Value) → (rest : List Value) →
    Except StoreFault (Option Value)
  | m, key, [] => .ok (m.get? key)
  | m, key, next :: rest =>
    match m.get? key with
    | none => .ok none
    | some (.map inner) => entry? field inner next rest
    | some _ => .error (.notAMap field)

/-- Read along a path: the entry as an option if `fetch` holds, else whether there is one. -/
def read (field : String) (v : Value) (keys : List Value) (fetch : Bool) :
    Except StoreFault Value :=
  match keys, v with
  | [], _ => .error (.emptyKeyPath field)
  | key :: rest, .map m =>
    match tyAt? m.valTy rest.length with
    | none => .error (.notAMap field)
    | some t => do
      let found ← entry? field m key rest
      return if fetch then .ofOption t found else .bool found.isSome
  | _ :: _, _ => .error (.notAMap field)

/-- Set the entry at a path that starts with `key`, or delete it. Missing maps on the way are
created for an insertion, and leave nothing to delete. -/
def update (field : String) (val : Option Value) : MapValue → (key : Value) → (rest : List Value) →
    Except StoreFault MapValue
  | m, key, [] =>
    match val with
    | some v => .ok (m.insert key v)
    | none => .ok (m.erase key)
  | m, key, next :: rest =>
    match m.get? key, val, m.valTy with
    | some (.map inner), _, _ => do
      return m.insert key (.map (← update field val inner next rest))
    | some _, _, _ => .error (.notAMap field)
    | none, none, _ => .ok m
    | none, some _, .map k v => do
      return m.insert key (.map (← update field val (.empty k v) next rest))
    | none, some _, _ => .error (.notAMap field)

end KeyPath

structure Store where
  fields : Table String Value
  remote : Table Address (Table String (Ty × Value))

namespace Store

def empty : Store := ⟨[], []⟩

/-- The values of all fields, those of other contracts included. -/
def values (s : Store) : List Value :=
  s.fields.map Prod.snd ++ s.remote.flatMap fun contract ↦ contract.2.map fun field ↦ field.2.2

/-- Register another contract, in place of the one that may be at the address. -/
def addContract (s : Store) (address : Address) (fields : List (String × Ty × Value)) : Store :=
  { s with remote := s.remote.put address (Table.putAll [] fields) }

def field? (s : Store) (field : String) : Option Value := s.fields.get? field

def load (s : Store) (field : String) : Except StoreFault Value :=
  match s.field? field with
  | some v => .ok v
  | none => .error (.unknownField field)

def put (s : Store) (field : String) (v : Value) : Store :=
  { s with fields := s.fields.put field v }

def mapGet (s : Store) (field : String) (keys : List Value) (fetch : Bool) :
    Except StoreFault Value := do
  KeyPath.read field (← s.load field) keys fetch

def mapUpdate (s : Store) (field : String) (keys : List Value) (val : Option Value) :
    Except StoreFault Store := do
  match ← s.load field, keys with
  | .map m, key :: rest => return s.put field (.map (← KeyPath.update field val m key rest))
  | .map _, [] => throw (.emptyKeyPath field)
  | _, _ => throw (.notAMap field)

def remoteField (s : Store) (address : Address) (field : String) :
    Except StoreFault (Ty × Value) :=
  match s.remote.get? address with
  | none => .error (.unknownContract address)
  | some fields =>
    match fields.get? field with
    | none => .error (.unknownField field)
    | some f => .ok f

def remoteLoad (s : Store) (address : Address) (field : String) : Except StoreFault Value := do
  return (← s.remoteField address field).2

def remoteMapGet (s : Store) (address : Address) (field : String) (keys : List Value)
    (fetch : Bool) : Except StoreFault Value := do
  KeyPath.read field (← s.remoteLoad address field) keys fetch

def remoteFieldTy? (s : Store) (address : Address) (field : String) : Option Ty := do
  let fields ← s.remote.get? address
  return (← fields.get? field).1

def addressExists (s : Store) (address : Address) : Bool := (s.remote.get? address).isSome

end Store

end MeteredContract
