import MeteredContract.Text.Decimal

/-!
Gas charges: cost expressions whose leaves name variables in scope. Their constants are 64-bit
words.
-/

set_option autoImplicit false
set_option relaxedAutoImplicit false

namespace MeteredContract

inductive Charge where
  | static (amount : UInt64)
  /-- Serialized size of the value of a variable. -/
  | sizeOf (x : String)
  /-- The integer or block number that a variable holds. -/
  | valueOf (x : String)
  /-- Number of elements of a map or list. -/
  | lengthOf (x : String)
  /-- Cost of sorting a map. -/
  | mapSortCost (x : String)
  | sum (a b : Charge)
  | prod (a b : Charge)
  | min (a b : Charge)
  /-- Division by a constant, rounded up. -/
  | divCeil (a : Charge) (divisor : UInt64)
  /-- Natural logarithm. -/
  | log (a : Charge)
  deriving DecidableEq

def Charge.text : Charge → String
  | .static n => Decimal.ofNat n.toNat
  | .sizeOf x => "sizeof(" ++ x ++ ")"
  | .valueOf x => "valueof(" ++ x ++ ")"
  | .lengthOf x => "lengthof(" ++ x ++ ")"
  | .mapSortCost x => "mapsortcost(" ++ x ++ ")"
  | .sum a b => "(" ++ a.text ++ " + " ++ b.text ++ ")"
  | .prod a b => "(" ++ a.text ++ " * " ++ b.text ++ ")"
  | .min a b => "min(" ++ a.text ++ ", " ++ b.text ++ ")"
  | .divCeil a d => "ceil(" ++ a.text ++ " / " ++ Decimal.ofNat d.toNat ++ ")"
  | .log a => "log(" ++ a.text ++ ")"

end MeteredContract
