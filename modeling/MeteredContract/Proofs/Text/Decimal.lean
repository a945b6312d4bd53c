import MeteredContract.Text.Decimal

/-!
Integers are read back from their decimal text (`Decimal.readInt?_ofInt`). The text of a natural
number is a list of digits that is not empty, so its first character is neither a sign nor an
underscore (`Decimal.exists_digits`), and what is read without one of these is the number that the
digits stand for.
-/

set_option autoImplicit false
set_option relaxedAutoImplicit false

namespace MeteredContract.Decimal

variable {c : Char} {cs : List Char}

theorem ne_of_isDigit (h : c.isDigit = true) : c ≠ '+' ∧ c ≠ '-' ∧ c ≠ '_' := by
  refine ⟨?_, ?_, ?_⟩ <;>
  · rintro rfl
    exact absurd h (by decide)

/-- The text of a natural number starts with a digit and consists of digits. -/
theorem exists_digits (n : Nat) :
    ∃ c cs, Nat.toDigits 10 n = c :: cs ∧ ∀ d ∈ c :: cs, d.isDigit = true := by
  obtain ⟨c, cs, hdigits⟩ := List.exists_cons_of_ne_nil (Nat.toDigits_ne_nil (n := n) (b := 10))
  refine ⟨c, cs, hdigits, fun d hd ↦ ?_⟩
  rw [← hdigits] at hd
  exact Nat.isDigit_of_mem_toDigits (by decide) (by decide) hd

theorem readDigits?_of_digits (h : ∀ d ∈ cs, d.isDigit = true) (acc : Nat) :
    readDigits? acc cs = some (Nat.ofDigitChars 10 cs acc) := by
  induction cs generalizing acc with
  | nil => rw [readDigits?, Nat.ofDigitChars_nil]
  | cons d ds ih =>
    obtain ⟨hd, hds⟩ := List.forall_mem_cons.mp h
    rw [readDigits?, if_neg (ne_of_isDigit hd).2.2, if_pos hd, ih hds, Nat.ofDigitChars_cons,
      Nat.mul_comm acc]

/-- Digits are read as the number that they stand for. -/
theorem readNat?_of_digits (h : ∀ d ∈ c :: cs, d.isDigit = true) :
    readNat? (c :: cs) = some (Nat.ofDigitChars 10 (c :: cs) 0) := by
  obtain ⟨hplus, -, hunderscore⟩ := ne_of_isDigit (h c List.mem_cons_self)
  have hdrop : dropPlus (c :: cs) = c :: cs := by simp [dropPlus, hplus]
  rw [readNat?, hdrop, ← readDigits?_of_digits h]
  simp [hunderscore]

theorem readNat?_toDigits (n : Nat) : readNat? (Nat.toDigits 10 n) = some n := by
  obtain ⟨c, cs, hdigits, hall⟩ := exists_digits n
  rw [hdigits, readNat?_of_digits hall, ← hdigits, Nat.ofDigitChars_ten_toDigits]

/-- Without a sign the text of a natural number is read. -/
theorem readInt?_of_unsigned {text : String} (h : text.toList = c :: cs) (hminus : c ≠ '-') :
    readInt? text = (readNat? (c :: cs)).map Int.ofNat := by
  rw [readInt?, h]
  split
  next heq => exact absurd (List.cons.inj heq).1 hminus
  next heq => exact absurd (List.cons.inj heq).1 hminus
  next => rfl

/-- After a minus sign, which no plus sign follows, the number is negative. -/
theorem readInt?_of_minus {text : String} (h : text.toList = '-' :: c :: cs) (hplus : c ≠ '+') :
    readInt? text = (readNat? (c :: cs)).map fun n ↦ -Int.ofNat n := by
  rw [readInt?, h]
  split
  next heq => exact absurd (List.cons.inj (List.cons.inj heq).2).1 hplus
  next heq =>
    obtain ⟨-, rfl⟩ := List.cons.inj heq
    rfl
  next hne => exact absurd rfl (hne (c :: cs))

theorem readInt?_ofInt (n : Int) : readInt? (ofInt n) = some n := by
  cases n with
  | ofNat n =>
    obtain ⟨c, cs, hdigits, hall⟩ := exists_digits n
    obtain ⟨-, hminus, -⟩ := ne_of_isDigit (hall c List.mem_cons_self)
    have htext : (ofInt (.ofNat n)).toList = c :: cs := by
      rw [ofInt, ofNat, String.toList_ofList, hdigits]
    rw [readInt?_of_unsigned htext hminus, ← hdigits, readNat?_toDigits]
    rfl
  | negSucc n =>
    obtain ⟨c, cs, hdigits, hall⟩ := exists_digits (n + 1)
    obtain ⟨hplus, -, -⟩ := ne_of_isDigit (hall c List.mem_cons_self)
    have htext : (ofInt (.negSucc n)).toList = '-' :: c :: cs := by
      rw [ofInt, ofNat, hdigits, String.toList_append, String.toList_ofList (l := c :: cs)]
      rfl
    rw [readInt?_of_minus htext hplus, ← hdigits, readNat?_toDigits]
    rfl

end MeteredContract.Decimal
