/-!
Words of a fixed number of bits, as bounds on natural numbers.
-/

set_option autoImplicit false
set_option relaxedAutoImplicit false

namespace MeteredContract

/-- The number of words of `bits` bits: two to that power. -/
def wordCount (bits : Nat) : Nat := Nat.pow 2 bits

end MeteredContract
