import MeteredContract.Proofs.Primitive.Price
import MeteredContract.Proofs.Text.Decimal
import MeteredContract.Proofs.Text.Slice

/-!
Primitives for texts, called by name and chosen by the types of their arguments (`Primitive.call`),
as calls in a program are (`Arena.run_eq_call`). An integer can be converted to another type by way
of its text (`text_converts_alike`). Offsets and lengths of texts count the bytes of the UTF-8 form,
and a part can be taken out of a text where both of its ends fall between characters
(`text_slices`).
-/

set_option autoImplicit false
set_option relaxedAutoImplicit false

namespace MeteredContract

namespace Primitive

/-- What the primitive of that name, chosen by the types of the values, comes to. -/
def call (name : String) (args : List Value) : Except Cause Value := do
  let ts ← Value.typesFor name args
  let (p, ret) ← find name ts
  p.run args ret

variable {name : String} {args : List Value} {ts : List Ty} {p : Primitive} {ret : Ty}

theorem call_of_find (htypes : HaveTypes args ts) (hfind : find name ts = .ok (p, ret)) :
    call name args = p.run args ret := by
  unfold call
  rw [Value.typesFor_of_haveTypes name htypes]
  show (find name ts >>= fun q ↦ q.1.run args q.2) = _
  rw [hfind]
  rfl

theorem call_name (p : Primitive) (htypes : HaveTypes args ts) (hret : p.resultTy? ts = some ret) :
    call p.name args = p.run args ret :=
  call_of_find htypes (find_eq_ok.mpr ⟨ofName?_name p, hret⟩)

end Primitive

/-- The calls in a program come to the same. -/
theorem Arena.run_eq_call {a : Arena} {env : Env} {op : String} {args : List String}
    {call : PrimitiveCall} (h : a.primitiveCall env op args = .ok call) :
    call.op.run call.args call.ret = Primitive.call op call.args := by
  obtain ⟨ts, -, htypes, hfind, -⟩ := exists_of_primitiveCall h
  exact (Primitive.call_of_find (Value.haveTypes_of_typesFor htypes) hfind).symm

namespace Primitive

variable {s t u : String} {i j k m n : FixedInt}

/-! ### Integers as text -/

theorem call_convert_int (target : IntTy) (i : FixedInt) :
    call (conversionName target) [.int i] =
      .ok (.ofOption (.int target) ((FixedInt.ofInt? target i.val).map .int)) :=
  call_name (convert target) (.cons rfl .nil) rfl

theorem call_convert_str (target : IntTy) (s : String) :
    call (conversionName target) [.str s] =
      .ok (.ofOption (.int target)
        (((Decimal.readInt? s).bind (FixedInt.ofInt? target)).map .int)) :=
  call_name (convert target) (.cons rfl .nil) rfl

theorem call_toText (i : FixedInt) : call "to_string" [.int i] = .ok (.str (Decimal.ofInt i.val)) :=
  call_name toText (.cons rfl .nil) rfl

/-- The text of an integer is converted to what the integer is converted to. -/
theorem call_convert_text (target : IntTy) (i : FixedInt) :
    call (conversionName target) [.str (Decimal.ofInt i.val)] =
      call (conversionName target) [.int i] := by
  rw [call_convert_str, call_convert_int, Decimal.readInt?_ofInt]
  rfl

/-- Conversion of an integer to a type: the same integer, if the type holds it. -/
inductive Converts (i : FixedInt) (target : IntTy) : Except Cause Value → Prop
  | present {j : FixedInt} (hty : j.ty = target) (hval : j.val = i.val) :
    Converts i target (.ok (.present (.int target) (.int j)))
  | absent (hrange : ¬ target.InRange i.val) : Converts i target (.ok (.absent (.int target)))

theorem converts_call (target : IntTy) (i : FixedInt) :
    Converts i target (call (conversionName target) [.int i]) := by
  rw [call_convert_int]
  cases hi : FixedInt.ofInt? target i.val with
  | some j =>
    obtain ⟨hty, hval⟩ := FixedInt.ofInt?_eq_some_iff.mp hi
    exact .present hty hval
  | none =>
    refine .absent fun hrange ↦ ?_
    rw [FixedInt.ofInt?, dif_pos (IntTy.contains_iff.mpr hrange)] at hi
    cases hi

/-! ### Parts of texts -/

theorem call_concat (s t : String) : call "concat" [.str s, .str t] = .ok (.str (s ++ t)) := by
  have htypes : HaveTypes [.str s, .str t] [.string, .string] := .cons rfl (.cons rfl .nil)
  exact call_name concat htypes rfl

theorem exists_call_strlen (h : s.utf8ByteSize < 2 ^ 32) :
    ∃ n : FixedInt, n.ty = .uint32 ∧ n.val = s.utf8ByteSize ∧
      call "strlen" [.str s] = .ok (.int n) := by
  have hfits : IntTy.Contains .uint32 s.utf8ByteSize := IntTy.contains_unsigned .w32 h
  refine ⟨⟨.uint32, s.utf8ByteSize, hfits⟩, rfl, rfl, ?_⟩
  have hcall : call strlen.name [.str s] = strlen.run [.str s] .uint32 :=
    call_name strlen (.cons rfl .nil) rfl
  refine hcall.trans ?_
  rw [run, lengthResult, FixedInt.ofInt?, dif_pos hfits]
  rfl

theorem call_add_eq_ok (hi : i.ty = .uint32) (hj : j.ty = .uint32) :
    call "add" [.int i, .int j] = .ok (.int k) ↔ k.ty = .uint32 ∧ k.val = i.val + j.val := by
  have htypes : HaveTypes [.int i, .int j] [.uint32, .uint32] :=
    .cons (congrArg (some ∘ Ty.int) hi) (.cons (congrArg (some ∘ Ty.int) hj) .nil)
  have hcall : call add.name [.int i, .int j] = add.run [.int i, .int j] .uint32 :=
    call_name add htypes rfl
  refine Iff.trans (Eq.congr_left hcall) ?_
  rw [run, FixedInt.add?, hi, ← FixedInt.ofInt?_eq_some_iff]
  cases FixedInt.ofInt? .uint32 (i.val + j.val) <;> simp [intResult]

/-- A part of a text at an offset, both counted in bytes, or a refusal if an end of it falls inside
a character or beyond the end of the text. -/
inductive Slices (s : String) (start len : Nat) : Except Cause Value → Prop
  | part {before part after : String} (hcuts : Text.Cuts s start len)
    (hs : s = before ++ part ++ after) (hbefore : before.utf8ByteSize = start)
    (hpart : part.utf8ByteSize = len) : Slices s start len (.ok (.str part))
  | refused (hcuts : ¬ Text.Cuts s start len) :
    Slices s start len (.error (.primitive "substr" .rangeOutOfBounds))

theorem call_substr (s : String) (hi : i.ty = .uint32) (hn : n.ty = .uint32) :
    call "substr" [.str s, .int i, .int n] =
      match Text.slice? s i.val.toNat n.val.toNat with
      | some t => .ok (.str t)
      | none => .error (.primitive "substr" .rangeOutOfBounds) := by
  have htypes : HaveTypes [.str s, .int i, .int n] [.string, .uint32, .uint32] :=
    .cons rfl (.cons (congrArg (some ∘ Ty.int) hi) (.cons (congrArg (some ∘ Ty.int) hn) .nil))
  have hcall : call substr.name [.str s, .int i, .int n] =
      substr.run [.str s, .int i, .int n] .string := call_name substr htypes rfl
  refine hcall.trans ?_
  have hbits : 32 ≤ 64 := by decide
  rw [run, FixedInt.toWord?_of_uint32 hi hbits, FixedInt.toWord?_of_uint32 hn hbits]
  rfl

theorem call_substr_eq_ok (hi : i.ty = .uint32) (hn : n.ty = .uint32) :
    call "substr" [.str s, .int i, .int n] = .ok (.str t) ↔
      Text.slice? s i.val.toNat n.val.toNat = some t := by
  rw [call_substr s hi hn]
  cases Text.slice? s i.val.toNat n.val.toNat <;> simp

theorem slices_call (s : String) (hi : i.ty = .uint32) (hn : n.ty = .uint32) :
    Slices s i.val.toNat n.val.toNat (call "substr" [.str s, .int i, .int n]) := by
  rw [call_substr s hi hn]
  cases hslice : Text.slice? s i.val.toNat n.val.toNat with
  | some t =>
    obtain ⟨before, after, hs, hbefore, hpart⟩ := Text.slice?_eq_some_iff.mp hslice
    exact .part (Text.exists_slice?_iff.mp ⟨t, hslice⟩) hs hbefore hpart
  | none =>
    refine .refused fun hcuts ↦ ?_
    obtain ⟨t, ht⟩ := Text.exists_slice?_iff.mpr hcuts
    rw [hslice] at ht
    cases ht

/-- Texts of `m` and `n` bytes that are joined to one of `l` bytes and taken apart again. -/
structure Joins (s t : String) (m n l : FixedInt) : Prop where
  bytes_left : m.val = s.utf8ByteSize
  bytes_right : n.val = t.utf8ByteSize
  length_left : call "strlen" [.str s] = .ok (.int m)
  length_right : call "strlen" [.str t] = .ok (.int n)
  joined : call "concat" [.str s, .str t] = .ok (.str (s ++ t))
  length_joined : call "strlen" [.str (s ++ t)] = .ok (.int l)
  length_sum : call "add" [.int m, .int n] = .ok (.int l)
  left : call "substr" [.str (s ++ t), .int (.ofUInt32 0), .int m] = .ok (.str s)
  right : call "substr" [.str (s ++ t), .int m, .int n] = .ok (.str t)

theorem exists_joins (h : (s ++ t).utf8ByteSize < 2 ^ 32) : ∃ m n l, Joins s t m n l := by
  have hsize : (s ++ t).utf8ByteSize = s.utf8ByteSize + t.utf8ByteSize := String.utf8ByteSize_append
  obtain ⟨m, hm, hmsize, hmcall⟩ := exists_call_strlen (s := s) (by omega)
  obtain ⟨n, hn, hnsize, hncall⟩ := exists_call_strlen (s := t) (by omega)
  obtain ⟨l, hl, hlsize, hlcall⟩ := exists_call_strlen h
  refine ⟨m, n, l, hmsize, hnsize, hmcall, hncall, call_concat s t, hlcall, ?_, ?_, ?_⟩
  · exact (call_add_eq_ok hm hn).mpr ⟨hl, by omega⟩
  · refine (call_substr_eq_ok rfl hm).mpr ?_
    rw [hmsize]
    exact Text.slice?_append_left s t
  · refine (call_substr_eq_ok hm hn).mpr ?_
    rw [hmsize, hnsize]
    exact Text.slice?_append_right s t

/-- A part and the one that starts where it ends make up one part. -/
theorem call_substr_append (hi : i.ty = .uint32) (hn : n.ty = .uint32) (hm : m.ty = .uint32)
    (hj : call "add" [.int i, .int n] = .ok (.int j))
    (hk : call "add" [.int n, .int m] = .ok (.int k))
    (ht : call "substr" [.str s, .int i, .int n] = .ok (.str t))
    (hu : call "substr" [.str s, .int j, .int m] = .ok (.str u)) :
    call "substr" [.str s, .int i, .int k] = .ok (.str (t ++ u)) := by
  obtain ⟨hj, hjval⟩ := (call_add_eq_ok hi hn).mp hj
  obtain ⟨hk, hkval⟩ := (call_add_eq_ok hn hm).mp hk
  rw [call_substr_eq_ok hi hn] at ht
  rw [call_substr_eq_ok hj hm] at hu
  have hunsigned : ∀ l : FixedInt, l.ty = .uint32 → 0 ≤ l.val := fun l hl ↦
    FixedInt.nonneg_of_unsigned (by rw [hl]; rfl)
  have hinonneg := hunsigned i hi
  have hnnonneg := hunsigned n hn
  have hmnonneg := hunsigned m hm
  have hstart : j.val.toNat = i.val.toNat + n.val.toNat := by omega
  have hlen : k.val.toNat = n.val.toNat + m.val.toNat := by omega
  rw [call_substr_eq_ok hi hk, hlen]
  exact Text.slice?_append ht (hstart ▸ hu)

end Primitive

open Primitive

/-- An integer can be written out and the text converted to any integer type: the result is that of
converting the integer, which is there if the type holds it, and for its own type is the integer
itself. -/
theorem text_converts_alike (i : FixedInt) (target : IntTy) :
    ∃ text, call "to_string" [.int i] = .ok (.str text) ∧
      call (conversionName target) [.str text] = call (conversionName target) [.int i] ∧
      Converts i target (call (conversionName target) [.int i]) ∧
      call (conversionName i.ty) [.str text] = .ok (.present (.int i.ty) (.int i)) := by
  refine ⟨Decimal.ofInt i.val, call_toText i, call_convert_text target i,
    converts_call target i, ?_⟩
  rw [call_convert_text, call_convert_int, FixedInt.ofInt?_eq_some_iff.mpr ⟨rfl, rfl⟩]
  rfl

/-- Lengths add up where texts are joined, and each of two joined texts is the part at its place.
A part can be taken out exactly where both of its ends fall between characters of the text. Parts
next to each other make up one part. -/
theorem text_slices :
    (∀ s t : String, (s ++ t).utf8ByteSize < 2 ^ 32 → ∃ m n l, Joins s t m n l) ∧
    (∀ (s : String) (i n : FixedInt), i.ty = .uint32 → n.ty = .uint32 →
      Slices s i.val.toNat n.val.toNat (call "substr" [.str s, .int i, .int n])) ∧
    (∀ (s t u : String) (i n m j k : FixedInt), i.ty = .uint32 → n.ty = .uint32 → m.ty = .uint32 →
      call "add" [.int i, .int n] = .ok (.int j) → call "add" [.int n, .int m] = .ok (.int k) →
      call "substr" [.str s, .int i, .int n] = .ok (.str t) →
      call "substr" [.str s, .int j, .int m] = .ok (.str u) →
      call "substr" [.str s, .int i, .int k] = .ok (.str (t ++ u)) ∧
        call "concat" [.str t, .str u] = .ok (.str (t ++ u))) := by
  refine ⟨fun s t ↦ exists_joins, fun s i n ↦ slices_call s, ?_⟩
  intro s t u i n m j k hi hn hm hj hk ht hu
  exact ⟨call_substr_append hi hn hm hj hk ht hu, call_concat t u⟩

/-- A text in which the characters have one, two and three bytes. -/
theorem text_slices_accent :
    ("né" ++ "€").utf8ByteSize < 2 ^ 32 ∧ (∃ m n l, Joins "né" "€" m n l) ∧
      Slices "né€" 2 1 (.error (.primitive "substr" .rangeOutOfBounds)) ∧
      call "add" [.int (.ofUInt32 1), .int (.ofUInt32 2)] = .ok (.int (.ofUInt32 3)) ∧
      call "add" [.int (.ofUInt32 2), .int (.ofUInt32 3)] = .ok (.int (.ofUInt32 5)) ∧
      call "substr" [.str "né€", .int (.ofUInt32 1), .int (.ofUInt32 2)] = .ok (.str "é") ∧
      call "substr" [.str "né€", .int (.ofUInt32 3), .int (.ofUInt32 3)] = .ok (.str "€") ∧
      call "substr" [.str "né€", .int (.ofUInt32 1), .int (.ofUInt32 5)] = .ok (.str "é€") := by
  obtain ⟨hjoins, hslices, happend⟩ := text_slices
  have hsize : ("né" ++ "€").utf8ByteSize < 2 ^ 32 := by decide
  have hstart : call "add" [.int (.ofUInt32 1), .int (.ofUInt32 2)] = .ok (.int (.ofUInt32 3)) := by
    rfl
  have hlen : call "add" [.int (.ofUInt32 2), .int (.ofUInt32 3)] = .ok (.int (.ofUInt32 5)) := by
    rfl
  have hleft : call "substr" [.str "né€", .int (.ofUInt32 1), .int (.ofUInt32 2)] =
      .ok (.str "é") := by rfl
  have hright : call "substr" [.str "né€", .int (.ofUInt32 3), .int (.ofUInt32 3)] =
      .ok (.str "€") := by rfl
  have hinside : Slices "né€" 2 1 (.error (.primitive "substr" .rangeOutOfBounds)) :=
    hslices "né€" (.ofUInt32 2) (.ofUInt32 1) rfl rfl
  exact ⟨hsize, hjoins _ _ hsize, hinside, hstart, hlen, hleft, hright,
    (happend _ _ _ _ _ _ _ _ rfl rfl rfl hstart hlen hleft hright).1⟩

end MeteredContract
