import MeteredContract.Primitive.Run

/-!
What primitives come to. `Primitive.Gives` lists the results that a primitive can have, with the
arguments where these become part of the result; no other proof goes through the primitives one by
one.
-/

set_option autoImplicit false
set_option relaxedAutoImplicit false

namespace MeteredContract.Primitive

inductive Gives (p : Primitive) (args : List Value) : Except Cause Value → Prop
  | failure (f : PrimitiveFailure) : Gives p args (p.fail f)
  | overflow : Gives p args (.error (.integerOverflow p.reportName))
  | int (i : FixedInt) : Gives p args (.ok (.int i))
  | bool (b : Bool) : Gives p args (.ok (.bool b))
  | str (s : String) : Gives p args (.ok (.str s))
  | bnum (n : Nat) : Gives p args (.ok (.bnum n))
  | bystrx (b : List UInt8) : Gives p args (.ok (.bystrx b))
  | bystr (b : List UInt8) : Gives p args (.ok (.bystr b))
  | converted (t : Ty) (o : Option FixedInt) : Gives p args (.ok (.ofOption t (o.map .int)))
  | inserted {m : MapValue} {k v : Value} (hargs : args = [.map m, k, v]) :
    Gives p args (.ok (.map (m.insert k v)))
  | erased {m : MapValue} {k : Value} (hargs : args = [.map m, k]) :
    Gives p args (.ok (.map (m.erase k)))
  | found {m : MapValue} {k : Value} (t : Ty) (hargs : args = [.map m, k]) :
    Gives p args (.ok (.ofOption t (m.get? k)))

theorem gives_intResult (p : Primitive) (args : List Value) (r : Option FixedInt) :
    p.Gives args (p.intResult r) := by
  cases r with
  | none => exact .overflow
  | some i => exact .int i

theorem gives_run (p : Primitive) (args : List Value) (ret : Ty) :
    p.Gives args (p.run args ret) := by
  unfold run
  split
  all_goals repeat' split
  all_goals
    first
    | exact .failure _
    | exact gives_intResult _ _ _
    | exact .bool _
    | exact .str _
    | exact .bnum _
    | exact .bystrx _
    | exact .bystr _
    | exact .converted _ _
    | exact .inserted rfl
    | exact .erased rfl
    | exact .found _ rfl

end MeteredContract.Primitive
