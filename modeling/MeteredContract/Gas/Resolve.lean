import MeteredContract.Fault.Basic
import MeteredContract.Gas.Size

/-!
Resolving a charge to an amount of gas. Amounts are whole until a logarithm makes them fractional;
then they are binary floating-point numbers, and the charge as a whole must come out integral again.
-/

set_option autoImplicit false
set_option relaxedAutoImplicit false

namespace MeteredContract.Gas

inductive Amount where
  | whole (n : Nat)
  | frac (x : Float)

namespace Amount

def toFloat : Amount → Float
  | .whole n => (UInt64.ofNat n).toFloat
  | .frac x => x

/-- Two whole amounts stay whole; any other two are combined as fractions. -/
def combine (onWhole : Nat → Nat → Nat) (onFrac : Float → Float → Float) : Amount → Amount → Amount
  | .whole a, .whole b => .whole (onWhole a b)
  | a, b => .frac (onFrac a.toFloat b.toFloat)

def add : Amount → Amount → Amount := combine satAdd (· + ·)

def mul : Amount → Amount → Amount := combine satMul (· * ·)

/-- The lesser of two fractions; one that is not a number gives way to the other. -/
def minFrac (x y : Float) : Float :=
  if x.isNaN then y else if y.isNaN then x else if y < x then y else x

def min : Amount → Amount → Amount := combine Nat.min minFrac

def divCeil (a : Amount) (d : UInt64) : Amount :=
  match a with
  | .whole n => .whole ((n + d.toNat - 1) / d.toNat)
  | .frac x => .frac (x / d.toFloat).ceil

/-- Distance from one below which a logarithm counts as zero: two to the power of `-52`. -/
def logTolerance : Float := 1.0 / 4503599627370496.0

/-- Natural logarithm of an amount that is not below one. -/
def log? (a : Amount) : Option Amount :=
  let x := a.toFloat
  if x < 1.0 then none
  else if (x - 1.0).abs < logTolerance then some (.whole 0)
  else some (.frac x.log)

/-- The amount as a word of gas, if it is finite, not negative and integral. -/
def toGas? : Amount → Option Nat
  | .whole n => some n
  | .frac x =>
    if !x.isFinite || x < 0.0 || x.floor != x then none
    else if (UInt64.ofNat cap).toFloat ≤ x then some cap
    else some x.toUInt64.toNat

end Amount

/-- The value of a charge, whose variables `lookup` knows. -/
def evaluate (lookup : String → Except Cause Value) : Charge → Except Cause Amount
  | .static n => .ok (.whole n.toNat)
  | .sizeOf x => do
    let v ← lookup x
    return .whole v.size
  | .valueOf x => do
    let v ← lookup x
    match v.magnitude? with
    | some n => return .whole n
    | none => throw (.nonIntegerCharge (.valueOf x))
  | .lengthOf x => do
    match ← lookup x with
    | .map m => return .whole (ofCount m.entries.length)
    | v =>
      match v.toList? with
      | some items => return .whole (ofCount items.length)
      | none => throw (.nonCollection "lengthof" v.kind)
  | .mapSortCost x => do
    match ← lookup x with
    | .map m => return .whole (sortCost m.entries.length)
    | v => throw (.nonCollection "mapsortcost" v.kind)
  | .sum a b => do return (← evaluate lookup a).add (← evaluate lookup b)
  | .prod a b => do return (← evaluate lookup a).mul (← evaluate lookup b)
  | .min a b => do return (← evaluate lookup a).min (← evaluate lookup b)
  | .divCeil a d => do
    if d = 0 then throw (.nonIntegerCharge (.divCeil a d))
    return (← evaluate lookup a).divCeil d
  | .log a => do
    match (← evaluate lookup a).log? with
    | some r => return r
    | none => throw (.nonIntegerCharge (.log a))

def resolve (lookup : String → Except Cause Value) (c : Charge) : Except Cause Nat := do
  match (← evaluate lookup c).toGas? with
  | some n => return n
  | none => throw (.nonIntegerCharge c)

end MeteredContract.Gas
