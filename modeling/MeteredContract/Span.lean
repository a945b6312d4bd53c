import MeteredContract.Text.Decimal

/-!
Source spans. The span `0..0` stands for generated code and says nothing about a position.
-/

set_option autoImplicit false
set_option relaxedAutoImplicit false

namespace MeteredContract

/-- Byte offsets of a source range; `stop` is exclusive. -/
structure Span where
  start : Nat
  stop : Nat
  deriving DecidableEq

namespace Span

def dummy : Span := ⟨0, 0⟩

def isDummy (s : Span) : Bool := s.start == 0 && s.stop == 0

def text (s : Span) : String := Decimal.ofNat s.start ++ ".." ++ Decimal.ofNat s.stop

end Span

end MeteredContract
