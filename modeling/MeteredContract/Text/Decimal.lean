/-!
Decimal text of integers. Writing gives the digits without leading zeros, after a minus sign for a
negative number. Reading accepts that form and, in addition, a plus sign, leading zeros, and
underscores after the first digit.
-/

set_option autoImplicit false
set_option relaxedAutoImplicit false

namespace MeteredContract.Decimal

def ofNat (n : Nat) : String := String.ofList (Nat.toDigits 10 n)

def ofInt : Int → String
  | .ofNat n => ofNat n
  | .negSucc n => "-" ++ ofNat (n + 1)

/-- Continue a number `acc` with the digits of a text; underscores are skipped. -/
def readDigits? : Nat → List Char → Option Nat
  | acc, [] => some acc
  | acc, c :: cs =>
    if c = '_' then readDigits? acc cs
    else if c.isDigit then readDigits? (acc * 10 + (c.toNat - '0'.toNat)) cs
    else none

/-- One plus sign may stand before the digits. -/
def dropPlus : List Char → List Char
  | '+' :: '+' :: cs => '+' :: '+' :: cs
  | '+' :: cs => cs
  | cs => cs

def readNat? (text : List Char) : Option Nat :=
  match dropPlus text with
  | [] => none
  | '_' :: _ => none
  | cs => readDigits? 0 cs

/-- A sign before the digits is a minus or a plus, never both. -/
def readInt? (text : String) : Option Int :=
  match text.toList with
  | '-' :: '+' :: _ => none
  | '-' :: cs => (readNat? cs).map fun n ↦ -Int.ofNat n
  | cs => (readNat? cs).map Int.ofNat

end MeteredContract.Decimal
