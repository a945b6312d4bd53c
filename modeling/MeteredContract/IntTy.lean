import MeteredContract.Word

/-!
Fixed-width integer types: signed and unsigned, of 32, 64, 128 and 256 bits. A type is known by its
name (`IntTy.name`, `IntTy.ofName?`) and by the range of integers it holds (`IntTy.Contains`).
-/

set_option autoImplicit false
set_option relaxedAutoImplicit false

namespace MeteredContract

inductive IntWidth where
  | w32
  | w64
  | w128
  | w256
  deriving DecidableEq

namespace IntWidth

def bits : IntWidth → Nat
  | w32 => 32
  | w64 => 64
  | w128 => 128
  | w256 => 256

def bytes (w : IntWidth) : Nat := w.bits / 8

end IntWidth

structure IntTy where
  signed : Bool
  width : IntWidth
  deriving DecidableEq

namespace IntTy

def int32 : IntTy := ⟨true, .w32⟩
def int64 : IntTy := ⟨true, .w64⟩
def int128 : IntTy := ⟨true, .w128⟩
def int256 : IntTy := ⟨true, .w256⟩
def uint32 : IntTy := ⟨false, .w32⟩
def uint64 : IntTy := ⟨false, .w64⟩
def uint128 : IntTy := ⟨false, .w128⟩
def uint256 : IntTy := ⟨false, .w256⟩

def minValue (t : IntTy) : Int :=
  if t.signed then -(wordCount (t.width.bits - 1) : Int) else 0

def maxValue (t : IntTy) : Int :=
  (wordCount (if t.signed then t.width.bits - 1 else t.width.bits) : Int) - 1

/-- The integer `n` is one of the values of the type. -/
def Contains (t : IntTy) (n : Int) : Prop := t.minValue ≤ n ∧ n ≤ t.maxValue

instance (t : IntTy) (n : Int) : Decidable (t.Contains n) :=
  inferInstanceAs (Decidable (_ ∧ _))

def name : IntTy → String
  | ⟨true, .w32⟩ => "Int32"
  | ⟨true, .w64⟩ => "Int64"
  | ⟨true, .w128⟩ => "Int128"
  | ⟨true, .w256⟩ => "Int256"
  | ⟨false, .w32⟩ => "Uint32"
  | ⟨false, .w64⟩ => "Uint64"
  | ⟨false, .w128⟩ => "Uint128"
  | ⟨false, .w256⟩ => "Uint256"

/-- Every integer type, in the order in which values of different types are sorted: unsigned before
signed, narrow before wide. -/
def all : List IntTy :=
  [uint32, uint64, uint128, uint256, int32, int64, int128, int256]

def ofName? (s : String) : Option IntTy := all.find? (·.name = s)

/-- Position of the type in `all`. -/
def rank (t : IntTy) : Nat :=
  (if t.signed then 4 else 0) +
    match t.width with
    | .w32 => 0
    | .w64 => 1
    | .w128 => 2
    | .w256 => 3

theorem mem_all (t : IntTy) : t ∈ all := by
  rcases t with ⟨s, w⟩
  cases s <;> cases w <;> decide

theorem ofName?_name (t : IntTy) : ofName? t.name = some t := by
  rcases t with ⟨s, w⟩
  cases s <;> cases w <;> decide

/-- An unsigned type holds the words of its width. -/
theorem contains_unsigned (w : IntWidth) {n : Nat} (h : n < wordCount w.bits) :
    Contains ⟨false, w⟩ n := by
  constructor
  · exact Int.natCast_nonneg n
  · have hle : (n : Int) < wordCount w.bits := Int.ofNat_lt.mpr h
    exact Int.le_sub_one_of_lt hle

end IntTy

end MeteredContract
