import MeteredContract.Fault.Basic

/-!
The gas budget of a run. A charge that the budget cannot pay fails and takes nothing.
-/

set_option autoImplicit false
set_option relaxedAutoImplicit false

namespace MeteredContract.Gas

/-- The budget that is left after paying `amount`. -/
def pay (budget amount : Nat) : Except Cause Nat :=
  if amount ≤ budget then .ok (budget - amount) else .error (.outOfGas amount budget)

end MeteredContract.Gas
