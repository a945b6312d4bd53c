import MeteredContract.Span

/-!
The trail of active components: the transition that a message selected and the procedures called
from it, innermost first.
-/

set_option autoImplicit false
set_option relaxedAutoImplicit false

namespace MeteredContract

/-- An active transition or procedure. A transition has no call statement and so no span. -/
structure Call where
  name : String
  span : Option Span
  deriving DecidableEq

abbrev Trail : Type := List Call

namespace Trail

def push (trail : Trail) (name : String) (span : Option Span) : Trail := ⟨name, span⟩ :: trail

def pop (trail : Trail) : Trail := trail.tail

def depth (trail : Trail) : Nat := trail.length

def names (trail : Trail) : List String := trail.map (·.name)

def lineText (position : Nat) (c : Call) : String :=
  let place := match c.span with
    | some s => " at " ++ s.text
    | none => ""
  "  " ++ Decimal.ofNat position ++ ": " ++ c.name ++ place ++ "\n"

/-- One line for each call, under a heading; the empty trail has no text. -/
def text (trail : Trail) : String :=
  if trail.isEmpty then ""
  else "call trail:\n" ++ String.join (trail.mapIdx lineText)

end Trail

end MeteredContract
