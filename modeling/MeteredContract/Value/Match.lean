import MeteredContract.Value.Basic

/-!
Matching values against patterns. A match adds the names it binds, with their values, to the
bindings there are, from left to right, and ends at the first part that does not fit. Of several
patterns the first that matches is taken; each of them is tried with no bindings yet.
-/

set_option autoImplicit false
set_option relaxedAutoImplicit false

namespace MeteredContract.Pattern

mutual

/-- Whether the pattern matches, with the bindings there are afterwards: a match that fails may have
added some before it did. A constructor pattern fits a value with the same constructor and the same
number of arguments, whatever its type is called. -/
def matchOnto : Pattern → Value → List (String × Value) → Bool × List (String × Value)
  | .wildcard, _, binds => (true, binds)
  | .binder x, v, binds => (true, binds ++ [(x, v)])
  | .constructor c ps, .data _ c' _ args, binds =>
    if c' = c ∧ args.length = ps.length then matchAllOnto ps args binds else (false, binds)
  | .constructor _ _, _, binds => (false, binds)

def matchAllOnto : List Pattern → List Value → List (String × Value) → Bool × List (String × Value)
  | p :: ps, v :: vs, binds =>
    match p.matchOnto v binds with
    | (true, binds) => matchAllOnto ps vs binds
    | (false, binds) => (false, binds)
  | _, _, binds => (true, binds)

end

/-- The position of the first pattern that matches, with its bindings. -/
def firstMatch : List Pattern → Value → Option (Nat × List (String × Value))
  | [], _ => none
  | p :: ps, v =>
    -- what a match that failed has bound is dropped
    match p.matchOnto v [] with
    | (true, binds) => some (0, binds)
    | (false, _) => (firstMatch ps v).map fun r ↦ (r.1 + 1, r.2)

end MeteredContract.Pattern
