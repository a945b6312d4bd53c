import MeteredContract.Value.Basic

/-!
Amounts of gas are words of 64 bits that stop at the largest one instead of wrapping. The size of a
value is such an amount, the sum of the sizes of its parts, and so is the cost of sorting a map.
-/

set_option autoImplicit false
set_option relaxedAutoImplicit false

namespace MeteredContract

namespace Gas

def cap : Nat := wordCount 64 - 1

/-- A number of bytes or elements as an amount. -/
def ofCount (n : Nat) : Nat := min cap n

def satAdd (a b : Nat) : Nat := min cap (a + b)

def satMul (a b : Nat) : Nat := min cap (a * b)

/-- `n` times the least `k` with `n ≤ 2 ^ k`; fewer than two entries need no sorting. -/
def sortCost (n : Nat) : Nat := if n < 2 then 0 else satMul n ((n - 1).log2 + 1)

end Gas

namespace Value

open Gas

mutual

/-- Serialized size in bytes. Closures have none. -/
def size : Value → Nat
  | .int i => i.ty.width.bytes
  | .str s => ofCount s.utf8ByteSize
  | .bnum _ => 64
  | .bystrx b => ofCount b.length
  | .bystr b => ofCount b.length
  | .closure .. => 0
  | .tyClosure .. => 0
  | .data _ _ _ args => sizeAll args
  | .map ⟨_, _, es⟩ => sizeEntries es
  | .message es => sizeMessage es

def sizeAll : List Value → Nat
  | [] => 0
  | v :: vs => satAdd (size v) (sizeAll vs)

def sizeEntries : List (Value × Value) → Nat
  | [] => 0
  | (k, v) :: es => satAdd (satAdd (size k) (size v)) (sizeEntries es)

def sizeMessage : List (EntryOf Value) → Nat
  | [] => 0
  | ⟨n, _, v⟩ :: es => satAdd (satAdd n.utf8ByteSize (size v)) (sizeMessage es)

end

end Value

end MeteredContract
