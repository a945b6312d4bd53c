import Mathlib.Data.List.Forall2
import MeteredContract.Proofs.Evaluation.Atom
import MeteredContract.Proofs.FixedInt
import MeteredContract.Proofs.Value.Entries
import MeteredContract.Proofs.Value.Parts

/-!
Primitives keep to their signatures. `Primitive.Takes` lists the arguments that the signatures let
through, as values; a primitive whose signature was found is given such arguments
(`Primitive.takes_of_resultTy?`), and from them it gives a value of the announced type, or it runs
out of range in one of the ways that `Primitive.Agrees` allows. Refusing the shape of the arguments
is not one of them.
-/

set_option autoImplicit false
set_option relaxedAutoImplicit false

namespace MeteredContract

/-- The values have these types. -/
abbrev HaveTypes : List Value → List Ty → Prop := List.Forall₂ fun v t ↦ v.typeOf? = some t

namespace Value

/-! ### Values of a type -/

theorem haveTypes_of_typesFor {op : String} {vs : List Value} {ts : List Ty}
    (h : typesFor op vs = .ok ts) : HaveTypes vs ts := by
  induction vs generalizing ts with
  | nil =>
    cases h
    exact .nil
  | cons v vs ih =>
    obtain ⟨t, ht, h⟩ := except_bind_eq_ok.mp h
    obtain ⟨rest, hrest, h⟩ := except_bind_eq_ok.mp h
    cases h
    rw [typeFor] at ht
    split at ht
    · next hv =>
      cases ht
      exact .cons hv (ih hrest)
    · cases ht

variable {v : Value}

theorem eq_int_of_typeOf? {t : IntTy} (h : v.typeOf? = some (.prim (.int t))) :
    ∃ i : FixedInt, v = .int i ∧ i.ty = t := by
  cases v <;> simp [typeOf?, Ty.int, Ty.string, Ty.bnum, Ty.bystr, Ty.bystrx, Ty.message] at h
  exact ⟨_, rfl, h⟩

theorem eq_str_of_typeOf? (h : v.typeOf? = some (.prim .string)) : ∃ s, v = .str s := by
  cases v <;> simp [typeOf?, Ty.int, Ty.string, Ty.bnum, Ty.bystr, Ty.bystrx, Ty.message] at h
  exact ⟨_, rfl⟩

theorem eq_bnum_of_typeOf? (h : v.typeOf? = some (.prim .bnum)) : ∃ n, v = .bnum n := by
  cases v <;> simp [typeOf?, Ty.int, Ty.string, Ty.bnum, Ty.bystr, Ty.bystrx, Ty.message] at h
  exact ⟨_, rfl⟩

theorem eq_bystr_of_typeOf? (h : v.typeOf? = some (.prim .bystr)) : ∃ b, v = .bystr b := by
  cases v <;> simp [typeOf?, Ty.int, Ty.string, Ty.bnum, Ty.bystr, Ty.bystrx, Ty.message] at h
  exact ⟨_, rfl⟩

theorem eq_bystrx_of_typeOf? {n : Nat} (h : v.typeOf? = some (.prim (.bystrx n))) :
    ∃ b : List UInt8, v = .bystrx b ∧ b.length = n := by
  cases v <;> simp [typeOf?, Ty.int, Ty.string, Ty.bnum, Ty.bystr, Ty.bystrx, Ty.message] at h
  exact ⟨_, rfl, h.2⟩

theorem eq_map_of_typeOf? {k t : Ty} (h : v.typeOf? = some (.map k t)) :
    ∃ m : MapValue, v = .map m ∧ m.keyTy = k ∧ m.valTy = t := by
  cases v <;> simp [typeOf?, Ty.int, Ty.string, Ty.bnum, Ty.bystr, Ty.bystrx, Ty.message] at h
  exact ⟨_, rfl, h⟩

end Value

namespace Primitive

/-! ### Signatures -/

def arithmetic : List Primitive := [add, sub, mul, div, rem]

/-- The arguments that the signatures let through, with the type of the result. -/
inductive Takes : Primitive → List Value → Ty → Prop
  | eq {v w : Value} {t : Ty} (ht : t.isComparable = true) (hv : v.typeOf? = some t)
    (hw : w.typeOf? = some t) : Takes .eq [v, w] .bool
  | arithmetic {p : Primitive} (hp : p ∈ arithmetic) (i j : FixedInt) :
    Takes p [.int i, .int j] (.int i.ty)
  | lt (i j : FixedInt) : Takes .lt [.int i, .int j] .bool
  | pow {i j : FixedInt} (hj : j.ty = .uint32) : Takes .pow [.int i, .int j] (.int i.ty)
  | concatStr (s t : String) : Takes .concat [.str s, .str t] .string
  | concatBytes (b c : List UInt8) : Takes .concat [.bystr b, .bystr c] .bystr
  | concatFixed {b c : List UInt8} (hwidth : b.length + c.length < widthLimit) :
    Takes .concat [.bystrx b, .bystrx c] (.bystrx (b.length + c.length))
  | strlenStr (s : String) : Takes .strlen [.str s] .uint32
  | strlenBytes (b : List UInt8) : Takes .strlen [.bystr b] .uint32
  | substr (s : String) (i j : FixedInt) : Takes .substr [.str s, .int i, .int j] .string
  | textInt (i : FixedInt) : Takes .toText [.int i] .string
  | textFixed (b : List UInt8) : Takes .toText [.bystrx b] .string
  | textBytes (b : List UInt8) : Takes .toText [.bystr b] .string
  | blt (n m : Nat) : Takes .blt [.bnum n, .bnum m] .bool
  | badd (n : Nat) {i : FixedInt} (hi : i.ty.signed = false) : Takes .badd [.bnum n, .int i] .bnum
  | bsub (n m : Nat) : Takes .bsub [.bnum n, .bnum m] (.int .int256)
  | put {m : MapValue} {k v : Value} (hk : k.typeOf?.map Ty.erase = some m.keyTy.erase)
    (hv : v.typeOf?.map Ty.erase = some m.valTy.erase) : Takes .put [.map m, k, v] m.ty
  | get {m : MapValue} {k : Value} (hk : k.typeOf?.map Ty.erase = some m.keyTy.erase) :
    Takes .get [.map m, k] (.option m.valTy)
  | remove {m : MapValue} {k : Value} (hk : k.typeOf?.map Ty.erase = some m.keyTy.erase) :
    Takes .remove [.map m, k] m.ty
  | contains {m : MapValue} {k : Value} (hk : k.typeOf?.map Ty.erase = some m.keyTy.erase) :
    Takes .contains [.map m, k] .bool
  | size (m : MapValue) : Takes .size [.map m] .uint32
  | convertInt (t : IntTy) (i : FixedInt) : Takes (.convert t) [.int i] (.option (.int t))
  | convertStr (t : IntTy) (s : String) : Takes (.convert t) [.str s] (.option (.int t))

variable {args : List Value} {ts : List Ty}

theorem eq_of_commonInt? {t : IntTy} (hargs : HaveTypes args ts) (h : commonInt? ts = some t) :
    ∃ i j : FixedInt, args = [.int i, .int j] ∧ i.ty = t := by
  unfold commonInt? at h
  split at h
  · rcases hargs with _ | ⟨hv, _ | ⟨hw, _ | _⟩⟩
    obtain ⟨i, rfl, rfl⟩ := Value.eq_int_of_typeOf? hv
    obtain ⟨j, rfl, rfl⟩ := Value.eq_int_of_typeOf? hw
    split at h
    · cases h
      exact ⟨i, j, rfl, rfl⟩
    · cases h
  · cases h

theorem eq_of_mapAccess? {kt : Ty × Ty} (hargs : HaveTypes args ts)
    (h : mapAccess? ts = some kt) :
    ∃ (m : MapValue) (k : Value), args = [.map m, k] ∧ kt = (m.keyTy, m.valTy) ∧
      k.typeOf?.map Ty.erase = some m.keyTy.erase := by
  unfold mapAccess? at h
  split at h
  · rcases hargs with _ | ⟨hm, _ | ⟨hk, _ | _⟩⟩
    obtain ⟨m, rfl, rfl, rfl⟩ := Value.eq_map_of_typeOf? hm
    split at h
    · next hkey =>
      cases h
      exact ⟨m, _, rfl, rfl, by rw [hk, Option.map_some, hkey]⟩
    · cases h
  · cases h

theorem eq_of_mapInsertion? {kt : Ty × Ty} (hargs : HaveTypes args ts)
    (h : mapInsertion? ts = some kt) :
    ∃ (m : MapValue) (k v : Value), args = [.map m, k, v] ∧ kt = (m.keyTy, m.valTy) ∧
      k.typeOf?.map Ty.erase = some m.keyTy.erase ∧
      v.typeOf?.map Ty.erase = some m.valTy.erase := by
  unfold mapInsertion? at h
  split at h
  · rcases hargs with _ | ⟨hm, _ | ⟨hk, _ | ⟨hv, _ | _⟩⟩⟩
    obtain ⟨m, rfl, rfl, rfl⟩ := Value.eq_map_of_typeOf? hm
    split at h
    · next hfits =>
      cases h
      exact ⟨m, _, _, rfl, rfl, by rw [hk, Option.map_some, hfits.1],
        by rw [hv, Option.map_some, hfits.2]⟩
    · cases h
  · cases h

theorem takes_of_commonInt? {p : Primitive} (hp : p ∈ arithmetic) {ret : Ty}
    (hargs : HaveTypes args ts) (h : (commonInt? ts).map Ty.int = some ret) : p.Takes args ret := by
  obtain ⟨t, ht, rfl⟩ := Option.map_eq_some_iff.mp h
  obtain ⟨i, j, rfl, rfl⟩ := eq_of_commonInt? hargs ht
  exact .arithmetic hp i j

theorem takes_of_resultTy? {p : Primitive} {ret : Ty}
    (hargs : HaveTypes args ts) (h : p.resultTy? ts = some ret) : p.Takes args ret := by
  revert h
  -- The cases are the lines of the table of signatures.
  fun_cases resultTy? p ts <;> intro h
  case case1 t t' htypes =>
    cases h
    obtain ⟨rfl, ht⟩ := htypes
    rcases hargs with _ | ⟨hv, _ | ⟨hw, _ | _⟩⟩
    exact .eq ht hv hw
  case case3 | case4 | case5 | case6 | case7 => exact takes_of_commonInt? (by decide) hargs h
  case case8 =>
    obtain ⟨t, ht, rfl⟩ := Option.map_eq_some_iff.mp h
    obtain ⟨i, j, rfl, -⟩ := eq_of_commonInt? hargs ht
    exact .lt i j
  case case9 =>
    cases h
    rcases hargs with _ | ⟨hv, _ | ⟨hw, _ | _⟩⟩
    obtain ⟨i, rfl, rfl⟩ := Value.eq_int_of_typeOf? hv
    obtain ⟨j, rfl, hj⟩ := Value.eq_int_of_typeOf? hw
    exact .pow hj
  case case11 =>
    cases h
    rcases hargs with _ | ⟨hv, _ | ⟨hw, _ | _⟩⟩
    obtain ⟨s, rfl⟩ := Value.eq_str_of_typeOf? hv
    obtain ⟨t, rfl⟩ := Value.eq_str_of_typeOf? hw
    exact .concatStr s t
  case case12 =>
    cases h
    rcases hargs with _ | ⟨hv, _ | ⟨hw, _ | _⟩⟩
    obtain ⟨b, rfl⟩ := Value.eq_bystr_of_typeOf? hv
    obtain ⟨c, rfl⟩ := Value.eq_bystr_of_typeOf? hw
    exact .concatBytes b c
  case case13 hwidth =>
    cases h
    rcases hargs with _ | ⟨hv, _ | ⟨hw, _ | _⟩⟩
    obtain ⟨b, rfl, rfl⟩ := Value.eq_bystrx_of_typeOf? hv
    obtain ⟨c, rfl, rfl⟩ := Value.eq_bystrx_of_typeOf? hw
    exact .concatFixed hwidth
  case case15 =>
    cases h
    rcases hargs with _ | ⟨hv, _ | _⟩
    obtain ⟨s, rfl⟩ := Value.eq_str_of_typeOf? hv
    exact .strlenStr s
  case case16 =>
    cases h
    rcases hargs with _ | ⟨hv, _ | _⟩
    obtain ⟨b, rfl⟩ := Value.eq_bystr_of_typeOf? hv
    exact .strlenBytes b
  case case17 =>
    cases h
    rcases hargs with _ | ⟨hs, _ | ⟨hv, _ | ⟨hw, _ | _⟩⟩⟩
    obtain ⟨s, rfl⟩ := Value.eq_str_of_typeOf? hs
    obtain ⟨i, rfl, -⟩ := Value.eq_int_of_typeOf? hv
    obtain ⟨j, rfl, -⟩ := Value.eq_int_of_typeOf? hw
    exact .substr s i j
  case case19 =>
    cases h
    rcases hargs with _ | ⟨hv, _ | _⟩
    obtain ⟨i, rfl, -⟩ := Value.eq_int_of_typeOf? hv
    exact .textInt i
  case case20 =>
    cases h
    rcases hargs with _ | ⟨hv, _ | _⟩
    obtain ⟨b, rfl, -⟩ := Value.eq_bystrx_of_typeOf? hv
    exact .textFixed b
  case case21 =>
    cases h
    rcases hargs with _ | ⟨hv, _ | _⟩
    obtain ⟨b, rfl⟩ := Value.eq_bystr_of_typeOf? hv
    exact .textBytes b
  case case22 =>
    cases h
    rcases hargs with _ | ⟨hv, _ | ⟨hw, _ | _⟩⟩
    obtain ⟨n, rfl⟩ := Value.eq_bnum_of_typeOf? hv
    obtain ⟨m, rfl⟩ := Value.eq_bnum_of_typeOf? hw
    exact .blt n m
  case case24 hsigned =>
    cases h
    rcases hargs with _ | ⟨hv, _ | ⟨hw, _ | _⟩⟩
    obtain ⟨n, rfl⟩ := Value.eq_bnum_of_typeOf? hv
    obtain ⟨i, rfl, rfl⟩ := Value.eq_int_of_typeOf? hw
    exact .badd n (Bool.not_eq_true _ ▸ hsigned)
  case case25 =>
    cases h
    rcases hargs with _ | ⟨hv, _ | ⟨hw, _ | _⟩⟩
    obtain ⟨n, rfl⟩ := Value.eq_bnum_of_typeOf? hv
    obtain ⟨m, rfl⟩ := Value.eq_bnum_of_typeOf? hw
    exact .bsub n m
  case case26 =>
    obtain ⟨kt, hkt, rfl⟩ := Option.map_eq_some_iff.mp h
    obtain ⟨m, k, v, rfl, rfl, hk, hv⟩ := eq_of_mapInsertion? hargs hkt
    exact .put hk hv
  case case27 =>
    obtain ⟨kt, hkt, rfl⟩ := Option.map_eq_some_iff.mp h
    obtain ⟨m, k, rfl, rfl, hk⟩ := eq_of_mapAccess? hargs hkt
    exact .get hk
  case case28 =>
    obtain ⟨kt, hkt, rfl⟩ := Option.map_eq_some_iff.mp h
    obtain ⟨m, k, rfl, rfl, hk⟩ := eq_of_mapAccess? hargs hkt
    exact .remove hk
  case case29 =>
    obtain ⟨kt, hkt, rfl⟩ := Option.map_eq_some_iff.mp h
    obtain ⟨m, k, rfl, -, hk⟩ := eq_of_mapAccess? hargs hkt
    exact .contains hk
  case case30 =>
    cases h
    rcases hargs with _ | ⟨hm, _ | _⟩
    obtain ⟨m, rfl, -⟩ := Value.eq_map_of_typeOf? hm
    exact .size m
  case case31 t _ =>
    cases h
    rcases hargs with _ | ⟨hv, _ | _⟩
    obtain ⟨i, rfl, -⟩ := Value.eq_int_of_typeOf? hv
    exact .convertInt t i
  case case32 t =>
    cases h
    rcases hargs with _ | ⟨hv, _ | _⟩
    obtain ⟨s, rfl⟩ := Value.eq_str_of_typeOf? hv
    exact .convertStr t s
  all_goals cases h

end Primitive

/-! ### Results -/

/-- The integer lies between the bounds of its type: two's complement if it is signed. -/
def FixedInt.InWidth (i : FixedInt) : Prop :=
  if i.ty.signed = true then
    -2 ^ (i.ty.width.bits - 1) ≤ i.val ∧ i.val < 2 ^ (i.ty.width.bits - 1)
  else 0 ≤ i.val ∧ i.val < 2 ^ i.ty.width.bits

theorem FixedInt.inWidth (i : FixedInt) : i.InWidth := IntTy.contains_iff.mp i.fits

theorem FixedInt.nonneg_of_unsigned {i : FixedInt} (h : i.ty.signed = false) : 0 ≤ i.val := by
  have hwidth := i.inWidth
  rw [InWidth, h, if_neg Bool.false_ne_true] at hwidth
  exact hwidth.1

theorem FixedInt.toWord?_of_uint32 {i : FixedInt} (h : i.ty = .uint32) {bits : Nat}
    (hbits : 32 ≤ bits) : i.toWord? bits = some i.val.toNat := by
  have hwidth := i.inWidth
  rw [InWidth, h] at hwidth
  have hcount : (2 ^ 32 : Int) ≤ 2 ^ bits := pow_le_pow_right₀ (by decide) hbits
  refine if_pos ⟨hwidth.1, hwidth.2.trans_le (hcount.trans_eq ?_)⟩
  rw [wordCount, Nat.pow_eq, Nat.cast_pow, Nat.cast_ofNat]

/-- The keys and the values of the map have the types that it notes, up to what address types ask of
an account. -/
def TypedMap.Homogeneous (m : MapValue) : Prop :=
  ∀ e ∈ m.entries, e.1.typeOf?.map Ty.erase = some m.keyTy.erase ∧
    e.2.typeOf?.map Ty.erase = some m.valTy.erase

namespace Primitive

/-- What a value that a primitive returns has to be. If the primitive works on a map and that map is
homogeneous, then so is a map that it returns, and an optional value that it returns is a value of
that map. -/
structure Returns (args : List Value) (ret : Ty) (v : Value) : Prop where
  typeOf? : v.typeOf? = some ret
  inWidth : ∀ i : FixedInt, (Value.int i).Part v → i.InWidth
  homogeneous : ∀ (m m' : MapValue) (rest : List Value), args = .map m :: rest →
    m.Homogeneous → v = .map m' → m'.Homogeneous
  payload : ∀ (m : MapValue) (rest : List Value) (t : Ty) (w : Value), args = .map m :: rest →
    m.Homogeneous → v = .present t w → w.typeOf?.map Ty.erase = some m.valTy.erase

/-- What may come of a primitive. -/
inductive Agrees (p : Primitive) (args : List Value) (ret : Ty) : Except Cause Value → Prop
  | returns {v : Value} (h : Returns args ret v) : Agrees p args ret (.ok v)
  | overflow : Agrees p args ret (.error (.integerOverflow p.reportName))
  | divisionByZero (hp : p = .div ∨ p = .rem) : Agrees p args ret (p.fail .divisionByZero)
  | rangeOutOfBounds (hp : p = .substr) : Agrees p args ret (p.fail .rangeOutOfBounds)

variable {p : Primitive} {args : List Value} {ret : Ty} {v : Value}

theorem Returns.of_args (ht : v.typeOf? = some ret) (hargs : ∀ m rest, args ≠ .map m :: rest) :
    Returns args ret v where
  typeOf? := ht
  inWidth i _ := i.inWidth
  homogeneous _ _ _ h := absurd h (hargs _ _)
  payload _ _ _ _ h := absurd h (hargs _ _)

theorem Returns.of_result (ht : v.typeOf? = some ret) (hmap : ∀ m, v ≠ .map m)
    (hpresent : ∀ t w, v ≠ .present t w) : Returns args ret v where
  typeOf? := ht
  inWidth i _ := i.inWidth
  homogeneous _ _ _ _ _ h := absurd h (hmap _)
  payload _ _ _ _ _ _ h := absurd h (hpresent _ _)

theorem returns_bool (b : Bool) : Returns args .bool (.bool b) :=
  .of_result rfl (fun _ h ↦ nomatch h) fun _ _ h ↦ absurd (Value.data.inj h).1 (by decide)

theorem returns_insert {m : MapValue} {k v : Value}
    (hk : k.typeOf?.map Ty.erase = some m.keyTy.erase)
    (hv : v.typeOf?.map Ty.erase = some m.valTy.erase) :
    Returns [.map m, k, v] m.ty (.map (m.insert k v)) where
  typeOf? := rfl
  inWidth i _ := i.inWidth
  homogeneous := by
    rintro _ _ _ ⟨⟩ hm ⟨⟩
    exact TypedMap.forall_insert (p := fun k ↦ k.typeOf?.map Ty.erase = some m.keyTy.erase)
      (q := fun v ↦ v.typeOf?.map Ty.erase = some m.valTy.erase) hm hk hv
  payload _ _ _ _ _ _ h := nomatch h

theorem returns_erase (m : MapValue) (k : Value) :
    Returns [.map m, k] m.ty (.map (m.erase k)) where
  typeOf? := rfl
  inWidth i _ := i.inWidth
  homogeneous := by
    rintro _ _ _ ⟨⟩ hm ⟨⟩ e he
    exact hm e (TypedMap.mem_of_mem_erase he)
  payload _ _ _ _ _ _ h := nomatch h

theorem returns_get (m : MapValue) (k : Value) :
    Returns [.map m, k] (.option m.valTy) (.ofOption m.valTy (m.get? k)) where
  typeOf? := by cases m.get? k <;> rfl
  inWidth i _ := i.inWidth
  homogeneous _ _ _ _ _ h := by cases hget : m.get? k <;> rw [hget] at h <;> cases h
  payload := by
    rintro _ _ t w ⟨⟩ hm h
    cases hget : m.get? k with
    | none =>
      rw [hget] at h
      exact absurd (Value.data.inj h).2.1 (by decide)
    | some found =>
      rw [hget] at h
      cases h
      obtain ⟨e, he, -, rfl⟩ := TypedMap.exists_of_get? hget
      exact (hm e he).2

theorem agrees_intResult {r : Option FixedInt} (h : ∀ i, r = some i → ret = .int i.ty) :
    p.Agrees args ret (p.intResult r) := by
  cases r with
  | none => exact .overflow
  | some i =>
    have ht : (Value.int i).typeOf? = some ret := congrArg some (h i rfl).symm
    exact .returns (.of_result ht (fun _ h ↦ nomatch h) fun _ _ h ↦ nomatch h)

theorem agrees_ofInt? (t : IntTy) (n : Int) :
    p.Agrees args (.int t) (p.intResult (FixedInt.ofInt? t n)) :=
  agrees_intResult fun _ hi ↦ congrArg Ty.int (FixedInt.ofInt?_eq_some_iff.mp hi).1.symm

theorem agrees_lengthResult (n : Nat) : p.Agrees args .uint32 (p.lengthResult n) :=
  agrees_ofInt? .uint32 n

theorem agrees_arithmetic (hp : p ∈ arithmetic) (i j : FixedInt) :
    p.Agrees [.int i, .int j] (.int i.ty) (p.run [.int i, .int j] (.int i.ty)) := by
  simp only [arithmetic, List.mem_cons, List.not_mem_nil, or_false] at hp
  rcases hp with rfl | rfl | rfl | rfl | rfl
  · exact agrees_ofInt? _ _
  · exact agrees_ofInt? _ _
  · exact agrees_ofInt? _ _
  · rw [run]
    split
    · exact .divisionByZero (.inl rfl)
    · next hzero =>
      rw [FixedInt.div?, if_neg hzero]
      exact agrees_ofInt? _ _
  · rw [run]
    split
    · exact .divisionByZero (.inr rfl)
    · next hzero =>
      rw [FixedInt.rem?, if_neg hzero]
      exact agrees_ofInt? _ _

theorem agrees_pow {i j : FixedInt} (hj : j.ty = .uint32) :
    Agrees .pow [.int i, .int j] (.int i.ty) (run .pow [.int i, .int j] (.int i.ty)) := by
  rw [run, FixedInt.toWord?_of_uint32 hj (Nat.le_refl 32)]
  change Agrees _ _ _ (intResult .pow (i.pow? j.val.toNat))
  unfold FixedInt.pow?
  split
  · exact .overflow
  · exact agrees_ofInt? _ _

theorem agrees_substr (s : String) (i j : FixedInt) :
    Agrees .substr [.str s, .int i, .int j] .string
      (run .substr [.str s, .int i, .int j] .string) := by
  rw [run]
  split
  · split
    · exact .returns (.of_args rfl fun _ _ h ↦ by cases h)
    · exact .rangeOutOfBounds rfl
  · exact .rangeOutOfBounds rfl

theorem agrees_badd (n : Nat) {i : FixedInt} (hi : i.ty.signed = false) :
    Agrees .badd [.bnum n, .int i] .bnum (run .badd [.bnum n, .int i] .bnum) := by
  have hnonneg : ¬i.val < 0 := Int.not_lt.mpr (FixedInt.nonneg_of_unsigned hi)
  rw [run, if_neg hnonneg]
  exact .returns (.of_args rfl fun _ _ h ↦ by cases h)

theorem returns_ofOption {t : Ty} {o : Option FixedInt}
    (hargs : ∀ m rest, args ≠ .map m :: rest) :
    Returns args (.option t) (.ofOption t (o.map .int)) := by
  refine .of_args ?_ hargs
  cases o <;> rfl

/-- Arguments that a signature lets through lead to a value of the announced type, or out of
range. -/
theorem agrees_run (h : p.Takes args ret) : p.Agrees args ret (p.run args ret) := by
  cases h with
  | eq => exact .returns (returns_bool _)
  | arithmetic hp i j => exact agrees_arithmetic hp i j
  | lt i j => exact .returns (returns_bool _)
  | pow hj => exact agrees_pow hj
  | concatStr s t => exact .returns (.of_args rfl fun _ _ h ↦ by cases h)
  | concatBytes b c => exact .returns (.of_args rfl fun _ _ h ↦ by cases h)
  | @concatFixed b c hwidth =>
    have ht : (Value.bystrx (b ++ c)).typeOf? = some (.bystrx (b.length + c.length)) := by
      rw [Value.typeOf?, List.length_append, if_pos hwidth]
    exact .returns (.of_args ht fun _ _ h ↦ by cases h)
  | strlenStr s => exact agrees_lengthResult _
  | strlenBytes b => exact agrees_lengthResult _
  | substr s i j => exact agrees_substr s i j
  | textInt | textFixed | textBytes => exact .returns (.of_args rfl fun _ _ h ↦ by cases h)
  | blt n m => exact .returns (returns_bool _)
  | badd n hi => exact agrees_badd n hi
  | bsub n m => exact agrees_ofInt? _ _
  | put hk hv => exact .returns (returns_insert hk hv)
  | get hk => exact .returns (returns_get _ _)
  | remove hk => exact .returns (returns_erase _ _)
  | contains hk => exact .returns (returns_bool _)
  | size m => exact agrees_lengthResult _
  | convertInt t i => exact .returns (returns_ofOption fun _ _ h ↦ by cases h)
  | convertStr t s => exact .returns (returns_ofOption fun _ _ h ↦ by cases h)

theorem find_eq_ok {name : String} {ts : List Ty} :
    find name ts = .ok (p, ret) ↔ ofName? name = some p ∧ p.resultTy? ts = some ret := by
  unfold find
  cases ofName? name with
  | none => simp
  | some q =>
    cases hret : q.resultTy? ts with
    | none =>
      simp only [hret, reduceCtorEq, false_iff, Option.some.injEq, not_and]
      rintro rfl
      simp [hret]
    | some ret' =>
      simp only [hret, Except.ok.injEq, Prod.mk.injEq, Option.some.injEq]
      refine and_congr_right ?_
      rintro rfl
      simp [hret]

theorem takes_of_find {name : String} {ts : List Ty} (hargs : HaveTypes args ts)
    (hfind : find name ts = .ok (p, ret)) : p.Takes args ret :=
  takes_of_resultTy? hargs (find_eq_ok.mp hfind).2

theorem Agrees.returns_of_ok (h : p.Agrees args ret (.ok v)) : Returns args ret v := by
  generalize hresult : Except.ok v = r at h
  cases h with
  | returns h =>
    cases hresult
    exact h
  | _ => cases hresult

theorem Agrees.failure_eq {r : Except Cause Value} (h : p.Agrees args ret r) {op : String}
    {failure : PrimitiveFailure} (hr : r = .error (.primitive op failure)) :
    failure = .divisionByZero ∨ failure = .rangeOutOfBounds := by
  cases h with
  | returns | overflow => cases hr
  | divisionByZero =>
    cases hr
    exact .inl rfl
  | rangeOutOfBounds =>
    cases hr
    exact .inr rfl

end Primitive

/-- A call in a program is one of the primitive with that name, on the values of the names, and its
signature lets them through. -/
theorem Arena.takes_of_primitiveCall {a : Arena} {env : Env} {op : String} {args : List String}
    {call : PrimitiveCall} (h : a.primitiveCall env op args = .ok call) :
    a.lookupAll env args = .ok call.args ∧ Primitive.ofName? op = some call.op ∧
      call.op.Takes call.args call.ret := by
  obtain ⟨ts, hvs, hts, hfind, -⟩ := exists_of_primitiveCall h
  exact ⟨hvs, (Primitive.find_eq_ok.mp hfind).1,
    Primitive.takes_of_find (Value.haveTypes_of_typesFor hts) hfind⟩

/-- The calls of primitives in a program come to nothing else. -/
theorem Arena.agrees_of_primitiveCall {a : Arena} {env : Env} {op : String} {args : List String}
    {call : PrimitiveCall} (h : a.primitiveCall env op args = .ok call) :
    call.op.Agrees call.args call.ret (call.op.run call.args call.ret) :=
  Primitive.agrees_run (takes_of_primitiveCall h).2.2

/-- A primitive that was found by the types of its arguments returns a value of the announced type,
unless it overflows, divides by zero or takes a part of a string that is not there. It never finds
that its arguments do not fit the signature. -/
theorem primitives_keep_signatures {name : String} {args : List Value} {ts : List Ty}
    {p : Primitive} {ret : Ty} (hargs : HaveTypes args ts)
    (hfind : Primitive.find name ts = .ok (p, ret)) :
    p.Agrees args ret (p.run args ret) ∧
      ∀ (op : String) (failure : PrimitiveFailure),
        p.run args ret = .error (.primitive op failure) →
          failure = .divisionByZero ∨ failure = .rangeOutOfBounds := by
  have hagrees := Primitive.agrees_run (Primitive.takes_of_find hargs hfind)
  exact ⟨hagrees, fun _ _ ↦ hagrees.failure_eq⟩

/-- A look-up in a map from addresses, at the bytes of an address. -/
theorem primitives_keep_signatures_get :
    let owner : Value := .bystrx (List.replicate addressWidth 0)
    let balance : Value := .int (FixedInt.ofUInt32 7)
    let m : MapValue := ⟨.address ⟨.any, []⟩, .uint32, [(owner, balance)]⟩
    m.Homogeneous ∧
      Primitive.run .get [.map m, owner] (.option .uint32) = .ok (.present .uint32 balance) ∧
      Primitive.Returns [.map m, owner] (.option .uint32) (.present .uint32 balance) := by
  intro owner balance m
  have htyped : m.Homogeneous := fun e he ↦ by
    obtain rfl := List.mem_singleton.mp he
    exact ⟨rfl, rfl⟩
  have hrun : Primitive.run .get [.map m, owner] (.option .uint32) =
      .ok (.present .uint32 balance) := by rfl
  have hargs : HaveTypes [.map m, owner] [.map (.address ⟨.any, []⟩) .uint32, .bystr20] :=
    .cons rfl (.cons rfl .nil)
  have hfind : Primitive.find "get" [.map (.address ⟨.any, []⟩) .uint32, .bystr20] =
      .ok (.get, .option .uint32) := by rfl
  have hagrees := (primitives_keep_signatures hargs hfind).1
  rw [hrun] at hagrees
  exact ⟨htyped, hrun, hagrees.returns_of_ok⟩

end MeteredContract
