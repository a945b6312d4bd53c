import MeteredContract.IntTy

/-!
The primitive operations of the language and their names.
-/

set_option autoImplicit false
set_option relaxedAutoImplicit false

namespace MeteredContract

inductive Primitive where
  | eq
  | add
  | sub
  | mul
  | div
  | rem
  | lt
  | pow
  | concat
  | strlen
  | substr
  | toText
  /-- Is one block before another? -/
  | blt
  | badd
  /-- Difference of two block numbers. -/
  | bsub
  | put
  | get
  | remove
  | contains
  | size
  /-- Conversion to an integer type, from an integer or its text. -/
  | convert (target : IntTy)
  deriving DecidableEq

namespace Primitive

def conversionName : IntTy → String
  | ⟨true, .w32⟩ => "to_int32"
  | ⟨true, .w64⟩ => "to_int64"
  | ⟨true, .w128⟩ => "to_int128"
  | ⟨true, .w256⟩ => "to_int256"
  | ⟨false, .w32⟩ => "to_uint32"
  | ⟨false, .w64⟩ => "to_uint64"
  | ⟨false, .w128⟩ => "to_uint128"
  | ⟨false, .w256⟩ => "to_uint256"

def name : Primitive → String
  | eq => "eq"
  | add => "add"
  | sub => "sub"
  | mul => "mul"
  | div => "div"
  | rem => "rem"
  | lt => "lt"
  | pow => "pow"
  | concat => "concat"
  | strlen => "strlen"
  | substr => "substr"
  | toText => "to_string"
  | blt => "blt"
  | badd => "badd"
  | bsub => "bsub"
  | put => "put"
  | get => "get"
  | remove => "remove"
  | contains => "contains"
  | size => "size"
  | convert t => conversionName t

def all : List Primitive :=
  [eq, add, sub, mul, div, rem, lt, pow, concat, strlen, substr, toText, blt, badd, bsub, put, get,
    remove, contains, size] ++ IntTy.all.map convert

def ofName? (s : String) : Option Primitive := all.find? (·.name = s)

theorem ofName?_name (p : Primitive) : ofName? p.name = some p := by
  cases p with
  | convert t =>
    obtain ⟨s, w⟩ := t
    cases s <;> cases w <;> decide
  | _ => decide

end Primitive

end MeteredContract
