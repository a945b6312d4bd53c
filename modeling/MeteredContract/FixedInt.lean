import MeteredContract.IntTy
import MeteredContract.Tokens

/-!
Integers of a fixed width: an integer together with a type that contains it. Every operation
computes in unbounded integers and answers only if the result fits the type of its first operand, so
nothing ever wraps.
-/

set_option autoImplicit false
set_option relaxedAutoImplicit false

namespace MeteredContract

structure FixedInt where
  ty : IntTy
  val : Int
  fits : ty.Contains val
  deriving DecidableEq

namespace FixedInt

def ofInt? (t : IntTy) (n : Int) : Option FixedInt :=
  if h : t.Contains n then some ⟨t, n, h⟩ else none

def ofUInt32 (n : UInt32) : FixedInt where
  ty := .uint32
  val := n.toNat
  fits := by
    have hlt : n.toNat < wordCount 32 := n.toNat_lt
    exact IntTy.contains_unsigned .w32 hlt

def ofUInt64 (n : UInt64) : FixedInt where
  ty := .uint64
  val := n.toNat
  fits := by
    have hlt : n.toNat < wordCount 64 := n.toNat_lt
    exact IntTy.contains_unsigned .w64 hlt

def ofTokens (n : Tokens) : FixedInt where
  ty := .uint128
  val := n.val
  fits := IntTy.contains_unsigned .w128 n.isLt

/-- The value as a word of that many bits, if it is one. -/
def toWord? (bits : Nat) (a : FixedInt) : Option Nat :=
  if 0 ≤ a.val ∧ a.val < wordCount bits then some a.val.toNat else none

def toTokens? (a : FixedInt) : Option Tokens :=
  if 0 ≤ a.val then Tokens.ofNat? a.val.toNat else none

def convert? (a : FixedInt) (t : IntTy) : Option FixedInt := ofInt? t a.val

def add? (a b : FixedInt) : Option FixedInt := ofInt? a.ty (a.val + b.val)

def sub? (a b : FixedInt) : Option FixedInt := ofInt? a.ty (a.val - b.val)

def mul? (a b : FixedInt) : Option FixedInt := ofInt? a.ty (a.val * b.val)

/-- Division rounded toward zero. -/
def div? (a b : FixedInt) : Option FixedInt :=
  if b.val = 0 then none else ofInt? a.ty (a.val.tdiv b.val)

/-- Remainder with the sign of the dividend. -/
def rem? (a b : FixedInt) : Option FixedInt :=
  if b.val = 0 then none else ofInt? a.ty (a.val.tmod b.val)

/-- The power by its magnitude and sign. -/
def signedPow (base : Int) (exp : Nat) : Int :=
  let magnitude := Nat.pow base.natAbs exp
  if base < 0 ∧ exp % 2 = 1 then -Int.ofNat magnitude else Int.ofNat magnitude

/-- Beyond an exponent of 256 only bases of magnitude at most one have a power that fits. -/
def pow? (a : FixedInt) (exp : Nat) : Option FixedInt :=
  if 256 < exp ∧ 1 < a.val.natAbs then none else ofInt? a.ty (signedPow a.val exp)

/-- Order by type, then by value. -/
def cmp (a b : FixedInt) : Ordering :=
  (compare a.ty.rank b.ty.rank).then (compare a.val b.val)

end FixedInt

end MeteredContract
