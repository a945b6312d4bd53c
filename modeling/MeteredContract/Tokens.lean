import MeteredContract.Word

/-!
Amounts of the native token: natural numbers of at most 128 bits. Addition and subtraction answer
only if the result is again such an amount.
-/

set_option autoImplicit false
set_option relaxedAutoImplicit false

namespace MeteredContract

structure Tokens where
  val : Nat
  isLt : val < wordCount 128
  deriving DecidableEq

namespace Tokens

def zero : Tokens := ⟨0, by decide⟩

def ofNat? (n : Nat) : Option Tokens :=
  if h : n < wordCount 128 then some ⟨n, h⟩ else none

def add? (a b : Tokens) : Option Tokens := ofNat? (a.val + b.val)

def sub? (a b : Tokens) : Option Tokens :=
  if b.val ≤ a.val then some ⟨a.val - b.val, Nat.lt_of_le_of_lt (Nat.sub_le _ _) a.isLt⟩ else none

theorem ofNat?_eq_some_iff (n : Nat) (t : Tokens) : ofNat? n = some t ↔ t.val = n := by
  unfold ofNat?
  split
  · next h =>
    constructor
    · rintro ⟨rfl⟩
      rfl
    · rintro rfl
      rfl
  · next h =>
    constructor
    · exact nofun
    · rintro rfl
      exact absurd t.isLt h

theorem add?_eq_some_iff (a b t : Tokens) : add? a b = some t ↔ t.val = a.val + b.val :=
  ofNat?_eq_some_iff _ t

end Tokens

end MeteredContract
