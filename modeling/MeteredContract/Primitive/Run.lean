import MeteredContract.Primitive.Signature
import MeteredContract.Text.Decimal
import MeteredContract.Text.Hex
import MeteredContract.Text.Slice
import MeteredContract.Value.Map

/-!
What the primitives compute. Arguments whose types were found to fit always have the right shape;
others are refused.
-/

set_option autoImplicit false
set_option relaxedAutoImplicit false

namespace MeteredContract.Primitive

/-- The name under which a primitive reports its failures; all conversions share one. -/
def reportName : Primitive → String
  | convert _ => "to_int"
  | p => p.name

def fail (p : Primitive) (failure : PrimitiveFailure) : Except Cause Value :=
  .error (.primitive p.reportName failure)

/-- An integer result, or an overflow. -/
def intResult (p : Primitive) : Option FixedInt → Except Cause Value
  | some i => .ok (.int i)
  | none => .error (.integerOverflow p.reportName)

def lengthResult (p : Primitive) (n : Nat) : Except Cause Value :=
  p.intResult (FixedInt.ofInt? .uint32 n)

/-- The type argument of an option type. -/
def payloadTy : Ty → Ty
  | .data _ (t :: _) => t
  | _ => .unit

/-- Apply a primitive to values; `ret` is the type of the result. -/
def run (p : Primitive) (args : List Value) (ret : Ty) : Except Cause Value :=
  match p, args with
  | eq, [a, b] => .ok (.bool (a.same b))
  | add, [.int a, .int b] => p.intResult (a.add? b)
  | sub, [.int a, .int b] => p.intResult (a.sub? b)
  | mul, [.int a, .int b] => p.intResult (a.mul? b)
  | div, [.int a, .int b] =>
    if b.val = 0 then p.fail .divisionByZero else p.intResult (a.div? b)
  | rem, [.int a, .int b] =>
    if b.val = 0 then p.fail .divisionByZero else p.intResult (a.rem? b)
  | lt, [.int a, .int b] => .ok (.bool (a.val < b.val))
  | pow, [.int base, .int exp] =>
    match exp.toWord? 32 with
    | some e => p.intResult (base.pow? e)
    | none => p.fail .shape
  | concat, [.str a, .str b] => .ok (.str (a ++ b))
  | concat, [.bystrx a, .bystrx b] => .ok (.bystrx (a ++ b))
  | concat, [.bystr a, .bystr b] => .ok (.bystr (a ++ b))
  | strlen, [.str s] => p.lengthResult s.utf8ByteSize
  | strlen, [.bystr b] => p.lengthResult b.length
  | substr, [.str s, .int start, .int len] =>
    match start.toWord? 64, len.toWord? 64 with
    | some i, some n =>
      match Text.slice? s i n with
      | some t => .ok (.str t)
      | none => p.fail .rangeOutOfBounds
    | _, _ => p.fail .rangeOutOfBounds
  | toText, [.int i] => .ok (.str (Decimal.ofInt i.val))
  | toText, [.bystrx b] => .ok (.str (Hex.tagged b))
  | toText, [.bystr b] => .ok (.str (Hex.tagged b))
  | blt, [.bnum a, .bnum b] => .ok (.bool (a < b))
  | badd, [.bnum a, .int b] =>
    if b.val < 0 then p.fail .negativeIncrement else .ok (.bnum (a + b.val.toNat))
  | bsub, [.bnum a, .bnum b] => p.intResult (FixedInt.ofInt? .int256 (a - b))
  | put, [.map m, k, v] => .ok (.map (m.insert k v))
  | get, [.map m, k] => .ok (.ofOption (payloadTy ret) (m.get? k))
  | remove, [.map m, k] => .ok (.map (m.erase k))
  | contains, [.map m, k] => .ok (.bool (m.get? k).isSome)
  | size, [.map m] => p.lengthResult m.size
  | convert t, [.int i] => .ok (.ofOption (.int t) ((i.convert? t).map .int))
  | convert t, [.str s] =>
    .ok (.ofOption (.int t) (((Decimal.readInt? s).bind (FixedInt.ofInt? t)).map .int))
  | _, _ => p.fail .shape

end MeteredContract.Primitive
