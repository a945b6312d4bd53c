import MeteredContract.FixedInt
import Mathlib.Algebra.Order.Ring.Int
import Mathlib.Algebra.Ring.Parity

/-!
Integers of a fixed width against unbounded integers. A type holds the integers of its width, in
two's complement if it is signed (`IntTy.contains_iff`). With an integer it holds all that lie
between it and zero (`IntTy.Contains.between`), so remainders always fit, and quotients do unless
the least integer is divided by minus one (`IntTy.contains_tdiv_iff`). No type holds a power with an
exponent beyond 256, unless the magnitude of its base is at most one, so a power is the exact one
wherever it fits (`FixedInt.pow?_eq`).
-/

set_option autoImplicit false
set_option relaxedAutoImplicit false

namespace MeteredContract

namespace IntTy

/-- The integer is within the range of the type: two's complement if it is signed. -/
def InRange (t : IntTy) (n : Int) : Prop :=
  if t.signed = true then -2 ^ (t.width.bits - 1) ≤ n ∧ n < 2 ^ (t.width.bits - 1)
  else 0 ≤ n ∧ n < 2 ^ t.width.bits

variable {t : IntTy} {m n : Int}

theorem contains_iff : t.Contains n ↔ t.InRange n := by
  obtain ⟨signed, width⟩ := t
  cases signed <;> cases width <;>
    simp [Contains, InRange, minValue, maxValue, wordCount, IntWidth.bits] <;> omega

theorem InRange.natAbs_le (h : t.InRange n) : n.natAbs ≤ 2 ^ 256 := by
  obtain ⟨signed, width⟩ := t
  cases signed <;> cases width <;> simp [InRange, IntWidth.bits] at h <;> omega

/-! ### Division -/

theorem contains_zero (t : IntTy) : t.Contains 0 := by
  obtain ⟨signed, width⟩ := t
  cases signed <;> cases width <;> decide

/-- A type holds whatever lies between zero and an integer that it holds. -/
theorem Contains.between (hm : t.Contains m) (hn : 0 ≤ n ∧ n ≤ m ∨ m ≤ n ∧ n ≤ 0) :
    t.Contains n := by
  obtain ⟨hmin, hmax⟩ := t.contains_zero
  obtain ⟨hlow, hhigh⟩ := hm
  constructor <;> omega

theorem tmod_between (m n : Int) : 0 ≤ m.tmod n ∧ m.tmod n ≤ m ∨ m ≤ m.tmod n ∧ m.tmod n ≤ 0 := by
  have habs : (m.tmod n).natAbs ≤ m.natAbs := by
    rw [Int.natAbs_tmod]
    exact Nat.mod_le _ _
  obtain hm | hm := Int.le_total 0 m
  · have hnonneg := Int.tmod_nonneg n hm
    omega
  · have hnonneg := Int.tmod_nonneg n (Int.neg_nonneg_of_nonpos hm)
    rw [Int.neg_tmod] at hnonneg
    omega

theorem Contains.tmod (hm : t.Contains m) (n : Int) : t.Contains (m.tmod n) :=
  hm.between (tmod_between m n)

/-- A quotient by a positive integer lies between zero and what is divided. -/
theorem tdiv_between (m : Int) (hn : 0 < n) :
    0 ≤ m.tdiv n ∧ m.tdiv n ≤ m ∨ m ≤ m.tdiv n ∧ m.tdiv n ≤ 0 := by
  obtain hm | hm := Int.le_total 0 m
  · exact .inl ⟨Int.tdiv_nonneg hm hn.le, Int.tdiv_le_self n hm⟩
  · have hneg : 0 ≤ -m := Int.neg_nonneg_of_nonpos hm
    have hnonneg := Int.tdiv_nonneg hneg hn.le
    have hle := Int.tdiv_le_self n hneg
    rw [Int.neg_tdiv] at hnonneg hle
    omega

/-- A quotient by an integer that is not a unit has at most half the magnitude. -/
theorem two_mul_natAbs_tdiv_le (m : Int) (hn : 2 ≤ n.natAbs) :
    2 * (m.tdiv n).natAbs ≤ m.natAbs := by
  have hdiv : (m.tdiv n).natAbs = m.natAbs / n.natAbs := Int.natAbs_tdiv m n
  calc 2 * (m.tdiv n).natAbs ≤ n.natAbs * (m.natAbs / n.natAbs) := by
        rw [hdiv]
        exact Nat.mul_le_mul_right _ hn
    _ ≤ m.natAbs := Nat.mul_div_le m.natAbs n.natAbs

/-- The signed types have one negative integer more than positive ones. -/
theorem maxValue_of_signed (ht : t.signed = true) : t.maxValue = -t.minValue - 1 := by
  simp [maxValue, minValue, ht]

theorem contains_neg_iff (ht : t.signed = true) (hm : t.Contains m) :
    t.Contains (-m) ↔ m ≠ t.minValue := by
  obtain ⟨hlow, hhigh⟩ := hm
  rw [maxValue_of_signed ht] at hhigh
  unfold Contains
  rw [maxValue_of_signed ht]
  omega

/-- A quotient fits the type of its operands, unless the least integer of a signed type is divided
by minus one. -/
theorem contains_tdiv_iff (hm : t.Contains m) (hn : t.Contains n) (hne : n ≠ 0) :
    t.Contains (m.tdiv n) ↔ ¬ (t.signed = true ∧ m = t.minValue ∧ n = -1) := by
  obtain hpos | hneg := Int.lt_or_gt_of_ne hne.symm
  · have hfits := hm.between (tdiv_between m hpos)
    refine ⟨fun _ ⟨_, _, hunit⟩ ↦ ?_, fun _ ↦ hfits⟩
    rw [hunit] at hpos
    exact absurd hpos (by decide)
  · -- only the signed types hold a negative divisor
    have ht : t.signed = true := by
      by_contra hunsigned
      have hmin : t.minValue = 0 := if_neg hunsigned
      have hlow := hn.1
      omega
    by_cases hunit : n = -1
    · subst hunit
      rw [Int.tdiv_neg, Int.tdiv_one, contains_neg_iff ht hm]
      simp [ht]
    · have hhalf := two_mul_natAbs_tdiv_le m (show 2 ≤ n.natAbs by omega)
      refine ⟨fun _ h ↦ hunit h.2.2, fun _ ↦ ?_⟩
      obtain ⟨hlow, hhigh⟩ := hm
      have hmin := t.contains_zero.1
      have hmax := maxValue_of_signed ht
      constructor <;> omega

end IntTy

namespace FixedInt

/-! ### Division with remainder -/

theorem sign_of_tmod (m n : Int) : m.tmod n = 0 ∨ (m.tmod n).sign = m.sign := by
  rw [Int.sign_tmod]
  by_cases hdvd : n ∣ m
  · exact .inl (Int.tmod_eq_zero_of_dvd hdvd)
  · exact .inr (if_neg hdvd)

theorem natAbs_tmod_lt (m : Int) {n : Int} (hn : n ≠ 0) : (m.tmod n).natAbs < n.natAbs := by
  rw [Int.natAbs_tmod]
  exact Nat.mod_lt _ (Int.natAbs_pos.mpr hn)

/-! ### Powers -/

theorem signedPow_eq (base : Int) (exp : Nat) : signedPow base exp = base ^ exp := by
  have hmagnitude : Nat.pow base.natAbs exp = base.natAbs ^ exp := Nat.pow_eq
  unfold signedPow
  rw [hmagnitude]
  by_cases hbase : base < 0
  · have habs : base = -(base.natAbs : Int) := by omega
    obtain heven | hodd := Nat.even_or_odd exp
    · have hsign : ¬ (base < 0 ∧ exp % 2 = 1) := by
        rw [Nat.even_iff.mp heven]
        simp
      rw [if_neg hsign, habs, heven.neg_pow]
      simp
    · rw [if_pos ⟨hbase, Nat.odd_iff.mp hodd⟩, habs, hodd.neg_pow]
      simp
  · have habs : base = (base.natAbs : Int) := by omega
    rw [if_neg fun h ↦ hbase h.1, habs]
    simp

/-- Beyond an exponent of 256, every power of a base of magnitude two or more is too large. -/
theorem not_inRange_pow (t : IntTy) {base : Int} {exp : Nat} (hexp : 256 < exp)
    (hbase : 1 < base.natAbs) : ¬ t.InRange (base ^ exp) := by
  intro h
  have hle : base.natAbs ^ exp ≤ 2 ^ 256 := by
    rw [← Int.natAbs_pow]
    exact h.natAbs_le
  have hlt : 2 ^ 256 < base.natAbs ^ exp :=
    calc 2 ^ 256 < 2 ^ exp := Nat.pow_lt_pow_right (by decide) hexp
      _ ≤ base.natAbs ^ exp := Nat.pow_le_pow_left hbase exp
  exact absurd (hlt.trans_le hle) (lt_irrefl _)

theorem ofInt?_eq_none {t : IntTy} {n : Int} (h : ¬ t.InRange n) : ofInt? t n = none :=
  dif_neg fun hn ↦ h (IntTy.contains_iff.mp hn)

theorem ofInt?_eq_some_iff {t : IntTy} {n : Int} {i : FixedInt} :
    ofInt? t n = some i ↔ i.ty = t ∧ i.val = n := by
  unfold ofInt?
  split
  · next h =>
    constructor
    · rintro ⟨⟩
      exact ⟨rfl, rfl⟩
    · rintro ⟨rfl, rfl⟩
      rfl
  · next h =>
    constructor
    · rintro ⟨⟩
    · rintro ⟨rfl, rfl⟩
      exact absurd i.fits h

/-- Leaving out the powers that are too large changes nothing. -/
theorem pow?_eq (a : FixedInt) (exp : Nat) : a.pow? exp = ofInt? a.ty (a.val ^ exp) := by
  unfold pow?
  split
  · next h => rw [ofInt?_eq_none (not_inRange_pow a.ty h.1 h.2)]
  · rw [signedPow_eq]

end FixedInt

end MeteredContract
