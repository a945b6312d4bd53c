import MeteredContract.Proofs.Primitive.Signature

/-!
Arithmetic of the primitives is exact. Sums, differences, products and powers are those of unbounded
integers, or an overflow where these do not fit the type (`Primitive.Exact`). Division rounds toward
zero and leaves a remainder with the sign of what is divided; it fails for the divisor zero alone
and overflows only where the least integer of a type is divided by minus one
(`Primitive.Divides`). Both are relations between numbers and results that leave no choice of the
result.
-/

set_option autoImplicit false
set_option relaxedAutoImplicit false

namespace MeteredContract

namespace Primitive

/-- The result is the integer `n`, as a value of the type, or an overflow if it is out of range. -/
inductive Exact (p : Primitive) (t : IntTy) (n : Int) : Except Cause Value → Prop
  | value {i : FixedInt} (hrange : t.InRange n) (hty : i.ty = t) (hval : i.val = n) :
    Exact p t n (.ok (.int i))
  | overflow (hrange : ¬ t.InRange n) : Exact p t n (.error (.integerOverflow p.reportName))

/-- The results of dividing an integer by another one of its type: the quotient and the remainder,
each of the same type. -/
inductive Divides (a b : FixedInt) : Except Cause Value → Except Cause Value → Prop
  | byZero (hzero : b.val = 0) : Divides a b (fail .div .divisionByZero) (fail .rem .divisionByZero)
  | overflow {r : FixedInt} (hsigned : a.ty.signed = true) (hleast : a.val = a.ty.minValue)
    (hunit : b.val = -1) (hr : r.ty = a.ty) (hzero : r.val = 0) :
    Divides a b (.error (.integerOverflow div.reportName)) (.ok (.int r))
  | returns {q r : FixedInt} (hzero : b.val ≠ 0)
    (hfits : ¬ (a.ty.signed = true ∧ a.val = a.ty.minValue ∧ b.val = -1)) (hq : q.ty = a.ty)
    (hr : r.ty = a.ty) (hdiv : a.val = q.val * b.val + r.val)
    (hlt : r.val.natAbs < b.val.natAbs) (hsign : r.val = 0 ∨ r.val.sign = a.val.sign) :
    Divides a b (.ok (.int q)) (.ok (.int r))

theorem exact_ofInt? (p : Primitive) (t : IntTy) (n : Int) :
    p.Exact t n (p.intResult (FixedInt.ofInt? t n)) := by
  unfold FixedInt.ofInt?
  split
  · next h => exact .value (IntTy.contains_iff.mp h) rfl rfl
  · next h => exact .overflow fun hrange ↦ h (IntTy.contains_iff.mpr hrange)

theorem exact_pow {a e : FixedInt} (he : e.ty = .uint32) (ret : Ty) :
    Exact .pow a.ty (a.val ^ e.val.toNat) (run .pow [.int a, .int e] ret) := by
  rw [run, FixedInt.toWord?_of_uint32 he (Nat.le_refl 32)]
  change Exact _ _ _ (intResult .pow (a.pow? e.val.toNat))
  rw [FixedInt.pow?_eq]
  exact exact_ofInt? _ _ _

/-- A division by another integer than zero leaves a remainder, whether or not there is a
quotient. -/
theorem run_rem {a b : FixedInt} (hzero : b.val ≠ 0) (ret : Ty) :
    ∃ r : FixedInt, run .rem [.int a, .int b] ret = .ok (.int r) ∧ r.ty = a.ty ∧
      r.val = a.val.tmod b.val := by
  refine ⟨⟨a.ty, a.val.tmod b.val, a.fits.tmod b.val⟩, ?_, rfl, rfl⟩
  rw [run, if_neg hzero, FixedInt.rem?, if_neg hzero, FixedInt.ofInt?, dif_pos (a.fits.tmod b.val)]
  rfl

theorem divides_run {a b : FixedInt} (hb : b.ty = a.ty) (ret : Ty) :
    Divides a b (run .div [.int a, .int b] ret) (run .rem [.int a, .int b] ret) := by
  by_cases hzero : b.val = 0
  · rw [run, run, if_pos hzero, if_pos hzero]
    exact .byZero hzero
  · obtain ⟨r, hrun, hr, hrem⟩ := run_rem hzero ret
    have hquotient := IntTy.contains_tdiv_iff a.fits (hb ▸ b.fits) hzero
    rw [hrun, run, if_neg hzero, FixedInt.div?, if_neg hzero, FixedInt.ofInt?]
    split
    · next hfits =>
      refine .returns hzero (hquotient.mp hfits) rfl hr ?_ ?_ ?_
      · rw [hrem]
        exact (Int.tdiv_mul_add_tmod a.val b.val).symm
      · rw [hrem]
        exact FixedInt.natAbs_tmod_lt a.val hzero
      · rw [hrem]
        exact FixedInt.sign_of_tmod a.val b.val
    · next hfits =>
      obtain ⟨hsigned, hleast, hunit⟩ := not_not.mp fun h ↦ hfits (hquotient.mpr h)
      refine .overflow hsigned hleast hunit hr ?_
      rw [hrem, hunit, Int.tmod_neg, Int.tmod_one]

end Primitive

open Primitive

/-- The primitives for integers compute what the operations on unbounded integers do, and an
overflow is reported exactly where the type of the operands does not hold that. -/
theorem integer_arithmetic_exact {a b e : FixedInt} (hb : b.ty = a.ty) (he : e.ty = .uint32)
    (ret : Ty) :
    Exact .add a.ty (a.val + b.val) (run .add [.int a, .int b] ret) ∧
    Exact .sub a.ty (a.val - b.val) (run .sub [.int a, .int b] ret) ∧
    Exact .mul a.ty (a.val * b.val) (run .mul [.int a, .int b] ret) ∧
    Divides a b (run .div [.int a, .int b] ret) (run .rem [.int a, .int b] ret) ∧
    Exact .pow a.ty (a.val ^ e.val.toNat) (run .pow [.int a, .int e] ret) :=
  ⟨exact_ofInt? _ _ _, exact_ofInt? _ _ _, exact_ofInt? _ _ _, divides_run hb ret,
    exact_pow he ret⟩

/-- The least integer of 32 bits and minus one: their sum and their quotient overflow, and so does a
power with an exponent that is never computed with. -/
theorem integer_arithmetic_exact_least :
    let least : FixedInt := ⟨.int32, -2147483648, by decide⟩
    let unit : FixedInt := ⟨.int32, -1, by decide⟩
    let exponent : FixedInt := ⟨.uint32, 4294967295, by decide⟩
    unit.ty = least.ty ∧ exponent.ty = .uint32 ∧
      Exact .add .int32 (-2147483649) (.error (.integerOverflow "add")) ∧
      Exact .sub .int32 (-2147483647) (.ok (.int ⟨.int32, -2147483647, by decide⟩)) ∧
      Divides least unit (.error (.integerOverflow "div")) (.ok (.int ⟨.int32, 0, by decide⟩)) ∧
      Exact .pow .int32 (least.val ^ exponent.val.toNat) (.error (.integerOverflow "pow")) := by
  intro least unit exponent
  obtain ⟨hadd, hsub, hmul, hdiv, hpow⟩ :=
    integer_arithmetic_exact (a := least) (b := unit) (e := exponent) rfl rfl .unit
  exact ⟨rfl, rfl, hadd, hsub, hdiv, hpow⟩

end MeteredContract
