/-!
Lower-case hexadecimal text: two digits for a byte, and as few as possible for a number.
-/

set_option autoImplicit false
set_option relaxedAutoImplicit false

namespace MeteredContract.Hex

def ofNat (n : Nat) : String := String.ofList (Nat.toDigits 16 n)

def digitsOfByte (b : UInt8) : List Char :=
  [Nat.digitChar (b.toNat / 16), Nat.digitChar (b.toNat % 16)]

def ofBytes (bytes : List UInt8) : String := String.ofList (bytes.flatMap digitsOfByte)

/-- The digits of a byte string after `0x`. -/
def tagged (bytes : List UInt8) : String := "0x" ++ ofBytes bytes

end MeteredContract.Hex
