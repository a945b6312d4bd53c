import MeteredContract.Table

/-!
What a run sees of the chain.
-/

set_option autoImplicit false
set_option relaxedAutoImplicit false

namespace MeteredContract

structure Chain where
  blockNumber : Nat
  chainId : UInt32
  /-- Timestamps by block number. -/
  timestamps : Table Nat UInt64

namespace Chain

def empty : Chain := ⟨0, 0, []⟩

def timestamp? (c : Chain) (block : Nat) : Option UInt64 := c.timestamps.get? block

end Chain

end MeteredContract
