import MeteredContract.Proofs.Gas.Saturation
import MeteredContract.Proofs.Primitive.Signature

/-!
The prices of primitives agree with their signatures. Whatever arguments a signature lets through,
the price finds the arguments that it names, of the kinds that it asks for, and comes to a word of
gas (`Primitive.priced_of_takes`). Most prices are free of logarithms. Those of the primitives that
look something up in a map are not, and that these come out integral is a matter of how doubles are
rounded, of which no more is taken for granted than `Gas.RoundsLogs`. So a call whose primitive was
found is either paid and run, or it fails for want of gas (`calls_priced`).
-/

set_option autoImplicit false
set_option relaxedAutoImplicit false

namespace MeteredContract

namespace Gas

variable {lookup : String → Except Cause Value}

/-! ### Logarithms -/

/-- The double is finite, not negative and integral, so it counts units of gas. -/
structure IsCount (x : Float) : Prop where
  isFinite : x.isFinite = true
  not_neg : ¬x < 0.0
  floor_beq : (x.floor == x) = true

/-- What is taken for granted of doubles: a positive word is not below one as a double, and one with
its logarithm on top counts units of gas after rounding up. -/
def RoundsLogs : Prop :=
  ∀ n : UInt64, 1 ≤ n → ¬n.toFloat < 1.0 ∧ IsCount ((1.0 + n.toFloat.log) / 1.0).ceil

theorem toGas?_of_isCount {x : Float} (hx : IsCount x) :
    ∃ n < wordCount 64, (Amount.frac x).toGas? = some n := by
  have haccepted : (!x.isFinite || x < 0.0 || x.floor != x) = false := by
    simp [hx.isFinite, hx.not_neg, hx.floor_beq, bne]
  by_cases hcap : (UInt64.ofNat cap).toFloat ≤ x
  · refine ⟨cap, by decide, ?_⟩
    simp only [Amount.toGas?, haccepted, hcap, Bool.false_eq_true, if_false, if_true]
  · refine ⟨x.toUInt64.toNat, x.toUInt64.toNat_lt, ?_⟩
    simp only [Amount.toGas?, haccepted, hcap, Bool.false_eq_true, if_false]

theorem one_le_ofNat {n : Nat} (hpos : 1 ≤ n) (hle : n ≤ cap) : 1 ≤ UInt64.ofNat n := by
  have hlt : n < 2 ^ 64 := Nat.lt_of_le_sub_one (by decide) hle
  rw [UInt64.le_iff_toNat_le, UInt64.toNat_ofNat_of_lt' hlt]
  exact hpos

/-- One is a whole amount, so next to a fraction it is made a double before it is added. -/
theorem one_add_frac_divCeil (x : Float) :
    ((Amount.whole 1).add (.frac x)).divCeil 1 = .frac ((1.0 + x) / 1.0).ceil := by
  rfl

/-- The price of access to a collection counts units of gas, either because no logarithm is left in
it or because of how it is rounded. -/
theorem exists_toGas?_of_count (hlogs : RoundsLogs) {k : Nat} (hpos : 1 ≤ k) (hle : k ≤ cap) :
    ∃ r, (Amount.whole k).log? = some r ∧
      ∃ n < wordCount 64, (((Amount.whole 1).add r).divCeil 1).toGas? = some n := by
  obtain ⟨hnotlt, hcount⟩ := hlogs (UInt64.ofNat k) (one_le_ofNat hpos hle)
  by_cases hone : ((UInt64.ofNat k).toFloat - 1.0).abs < Amount.logTolerance
  · refine ⟨.whole 0, ?_, 1, by decide, rfl⟩
    simp only [Amount.log?, Amount.toFloat, hnotlt, hone, if_true, if_false]
  · refine ⟨.frac (UInt64.ofNat k).toFloat.log, ?_, ?_⟩
    · simp only [Amount.log?, Amount.toFloat, hnotlt, hone, if_false]
    · rw [one_add_frac_divCeil]
      exact toGas?_of_isCount hcount

theorem resolve_mapAccessPrice (hlogs : RoundsLogs) {x : String} {v : Value}
    (hx : lookup x = .ok v) (hcoll : v.IsCollection) :
    ∃ n < wordCount 64, resolve lookup (mapAccessPrice x) = .ok n := by
  let k := satAdd (ofCount v.count) 1
  have hpos : 1 ≤ k := le_min (by decide) (Nat.le_add_left 1 _)
  obtain ⟨r, hr, n, hn, hgas⟩ := exists_toGas?_of_count hlogs hpos (min_le_left cap _)
  have hentries : evaluate lookup (.sum (.lengthOf x) (.static 1)) = .ok (.whole k) := by
    rw [evaluate, evaluate_lengthOf hx hcoll]
    rfl
  have hlog : evaluate lookup (.log (.sum (.lengthOf x) (.static 1))) = .ok r := by
    rw [evaluate, hentries]
    simp only [bind, Except.bind, hr]
    rfl
  have hsum : evaluate lookup (.sum (.static 1) (.log (.sum (.lengthOf x) (.static 1)))) =
      .ok ((Amount.whole 1).add r) := by
    rw [evaluate, hlog]
    rfl
  have hprice : evaluate lookup (mapAccessPrice x) =
      .ok (((Amount.whole 1).add r).divCeil 1) := by
    rw [mapAccessPrice, evaluate, hsum, if_neg (by decide)]
    rfl
  refine ⟨n, hn, ?_⟩
  rw [resolve, hprice]
  simp only [bind, Except.bind, hgas]
  rfl

end Gas

/-! ### Prices -/

theorem FixedInt.isWord_of_uint32 {i : FixedInt} (h : i.ty = .uint32) : (Value.int i).IsWord := by
  have hwidth := i.inWidth
  rw [InWidth, h] at hwidth
  exact .int hwidth.1 (hwidth.2.trans (by decide))

namespace Primitive

/-- The primitives that look up a key of a map. -/
def mapAccesses : List Primitive := [put, get, remove, contains]

/-- The call has a price, which comes to a word of gas. -/
def Priced (lookup : String → Except Cause Value) (p : Primitive) (ts : List Ty)
    (args : List String) : Prop :=
  ∃ c n, Gas.primitivePrice p ts args = .ok c ∧ Gas.resolve lookup c = .ok n ∧ n < wordCount 64

section

variable {lookup : String → Except Cause Value} {p : Primitive} {ts : List Ty} {args : List String}

theorem Priced.of_logFree {c : Charge} (hprice : Gas.primitivePrice p ts args = .ok c)
    (hlog : c.LogFree) (hdef : ∀ s ∈ c.parts, Gas.Defined lookup s) : Priced lookup p ts args := by
  obtain ⟨n, hn, hamounts⟩ := Gas.resolves c hlog hdef
  have hle : n ≤ Gas.cap := hamounts.le.trans (min_le_left _ _)
  exact ⟨c, n, hprice, Gas.resolve_of_whole hn, Nat.lt_of_le_sub_one (by decide) hle⟩

theorem Priced.of_static {k : UInt64} (hprice : Gas.primitivePrice p ts args = .ok (.static k)) :
    Priced lookup p ts args :=
  .of_logFree hprice (by simp [Charge.LogFree, Charge.parts])
    (by simp [Charge.parts, Gas.Defined])

theorem Priced.of_sizeOf {x : String} {v : Value}
    (hprice : Gas.primitivePrice p ts args = .ok (.sizeOf x)) (hx : lookup x = .ok v) :
    Priced lookup p ts args :=
  .of_logFree hprice (by simp [Charge.LogFree, Charge.parts])
    (by simp [Charge.parts, Gas.Defined, hx])

theorem Priced.of_mapAccess {x : String} {m : MapValue} (hlogs : Gas.RoundsLogs)
    (hprice : Gas.primitivePrice p ts args = .ok (Gas.mapAccessPrice x))
    (hx : lookup x = .ok (.map m)) : Priced lookup p ts args := by
  obtain ⟨n, hn, hresolve⟩ := Gas.resolve_mapAccessPrice hlogs hx (.map m)
  exact ⟨_, n, hprice, hresolve, hn⟩

theorem priced_eq {x y : String} {v w : Value} (hx : lookup x = .ok v) (hy : lookup y = .ok w) :
    Priced lookup .eq ts [x, y] := by
  by_cases hint : Gas.firstIsInt ts = true
  · exact .of_static (by rw [Gas.primitivePrice, if_pos hint]; rfl)
  · have hprice : Gas.primitivePrice .eq ts [x, y] = .ok (.min (.sizeOf x) (.sizeOf y)) := by
      rw [Gas.primitivePrice, if_neg hint]
      rfl
    exact .of_logFree hprice (by simp [Charge.LogFree, Charge.parts])
      (by simp [Charge.parts, Gas.Defined, hx, hy])

theorem priced_pow {x y : String} {j : FixedInt} (hj : j.ty = .uint32)
    (hy : lookup y = .ok (.int j)) : Priced lookup .pow ts [x, y] := by
  let step : Charge := .static (Gas.stepPrice ts)
  have hprice : Gas.primitivePrice .pow ts [x, y] = .ok (.sum step (.prod step (.valueOf y))) := rfl
  exact .of_logFree hprice (by simp [Charge.LogFree, Charge.parts, step])
    (by simp [Charge.parts, Gas.Defined, step, hy, FixedInt.isWord_of_uint32 hj])

theorem priced_concat {x y : String} {v w : Value} (hx : lookup x = .ok v)
    (hy : lookup y = .ok w) : Priced lookup .concat ts [x, y] := by
  have hprice : Gas.primitivePrice .concat ts [x, y] = .ok (.sum (.sizeOf x) (.sizeOf y)) := rfl
  exact .of_logFree hprice (by simp [Charge.LogFree, Charge.parts])
    (by simp [Charge.parts, Gas.Defined, hx, hy])

theorem priced_toText {x : String} {v : Value} (hx : lookup x = .ok v) :
    Priced lookup .toText ts [x] := by
  by_cases hint : Gas.firstIsInt ts = true
  · exact .of_static (by rw [Gas.primitivePrice, if_pos hint]; rfl)
  · exact .of_sizeOf (by rw [Gas.primitivePrice, if_neg hint]; rfl) hx

/-- What a price names and measures is there once a signature has let the arguments through. -/
theorem priced_of_takes {vs : List Value} {ret : Ty} (hlogs : p ∈ mapAccesses → Gas.RoundsLogs)
    (hargs : List.Forall₂ (fun x v ↦ lookup x = .ok v) args vs) (h : p.Takes vs ret) :
    Priced lookup p ts args := by
  cases h with
  | eq =>
    rcases hargs with _ | ⟨hx, _ | ⟨hy, _ | _⟩⟩
    exact priced_eq hx hy
  | arithmetic hp i j =>
    simp only [arithmetic, List.mem_cons, List.not_mem_nil, or_false] at hp
    rcases hp with rfl | rfl | rfl | rfl | rfl <;> exact .of_static rfl
  | lt | blt | badd | bsub | size | convertInt | convertStr => exact .of_static rfl
  | pow hj =>
    rcases hargs with _ | ⟨hx, _ | ⟨hy, _ | _⟩⟩
    exact priced_pow hj hy
  | concatStr | concatBytes | concatFixed =>
    rcases hargs with _ | ⟨hx, _ | ⟨hy, _ | _⟩⟩
    exact priced_concat hx hy
  | strlenStr | strlenBytes =>
    rcases hargs with _ | ⟨hx, _ | _⟩
    exact .of_sizeOf rfl hx
  | substr =>
    rcases hargs with _ | ⟨hx, _⟩
    exact .of_sizeOf rfl hx
  | textInt | textFixed | textBytes =>
    rcases hargs with _ | ⟨hx, _ | _⟩
    exact priced_toText hx
  | put | get | remove | contains =>
    rcases hargs with _ | ⟨hx, _⟩
    exact .of_mapAccess (hlogs (by decide)) rfl hx

end

end Primitive

/-! ### Calls -/

theorem Value.typesFor_of_haveTypes (op : String) {vs : List Value} {ts : List Ty}
    (h : HaveTypes vs ts) : typesFor op vs = .ok ts := by
  induction h with
  | nil => rfl
  | cons hv _ ih =>
    rw [typesFor, typeFor, hv, ih]
    rfl

namespace Arena

variable {a : Arena} {env : Env} {op : String} {args : List String} {vs : List Value}

theorem forall₂_of_lookupAll (h : a.lookupAll env args = .ok vs) :
    List.Forall₂ (fun x v ↦ a.lookup env x = .ok v) args vs := by
  induction args generalizing vs with
  | nil =>
    cases h
    exact .nil
  | cons x args ih =>
    obtain ⟨v, vs, rfl, hv, hvs⟩ := lookupAll_cons_eq_ok.mp h
    exact .cons hv (ih hvs)

theorem primitiveCall_of_find {ts : List Ty} {p : Primitive} {ret : Ty} {c : Charge}
    (hargs : a.lookupAll env args = .ok vs) (htypes : HaveTypes vs ts)
    (hfind : Primitive.find op ts = .ok (p, ret)) (hprice : Gas.price op ts args = .ok c) :
    a.primitiveCall env op args = .ok ⟨p, vs, ret, c⟩ := by
  refine except_bind_eq_ok.mpr ⟨vs, hargs, ?_⟩
  refine except_bind_eq_ok.mpr ⟨ts, Value.typesFor_of_haveTypes op htypes, ?_⟩
  refine except_bind_eq_ok.mpr ⟨(p, ret), hfind, ?_⟩
  exact except_bind_eq_ok.mpr ⟨c, hprice, rfl⟩

end Arena

/-- A call that was chosen and whose price resolves is paid and run, or there is not enough gas. -/
theorem EvalM.primitive_eq {env : Env} {op : String} {args : List String} {m : Machine}
    {call : PrimitiveCall} {n : Nat} (hcall : m.arena.primitiveCall env op args = .ok call)
    (hn : Gas.resolve (m.arena.lookup env) call.price = .ok n) :
    primitive env op args m =
      if n ≤ m.gas then Run.ofExcept (call.op.run call.args call.ret) ⟨m.arena, m.gas - n⟩
      else Run.fail (.outOfGas n m.gas) m := by
  have hchosen : inspect (·.primitiveCall env op args) m = (.ok call, m) :=
    Run.read_eq_ok.mpr ⟨hcall, rfl⟩
  rw [primitive, Run.bind_of_ok hchosen]
  split
  · next hle => exact Run.bind_of_ok ((charge_of_resolve hn).trans (pay_of_le hle)) _
  · next hgt =>
    have hlt : m.gas < n := Nat.lt_of_not_le hgt
    exact Run.bind_of_error ((charge_of_resolve hn).trans (pay_of_lt hlt)) _

/-- The faults of pricing a call: there is no price, the price asks for an argument that is not
there or for a collection that is none, or it does not come to an amount of gas. -/
inductive Cause.OfPricing : Cause → Prop
  | noCost (op : String) : OfPricing (.primitive op .noCost)
  | missingArgument (op : String) (position : Nat) :
    OfPricing (.primitive op (.missingArgument position))
  | nonCollection (operation : String) (found : ValueKind) :
    OfPricing (.nonCollection operation found)
  | nonIntegerCharge (c : Charge) : OfPricing (.nonIntegerCharge c)

theorem Primitive.Agrees.not_ofPricing {p : Primitive} {args : List Value} {ret : Ty} {c : Cause}
    (h : p.Agrees args ret (.error c)) : ¬c.OfPricing := by
  generalize hr : Except.error c = r at h
  cases h with
  | returns => cases hr
  | overflow | divisionByZero | rangeOutOfBounds =>
    cases hr
    exact nofun

/-- A call of a primitive that was found by the types of its arguments has a price, and that comes
to a word of gas. So the call is paid and run, or it fails for want of gas and changes nothing. A
fault is one of these two and never one of pricing. For access to maps this takes for granted how
logarithms are rounded. -/
theorem calls_priced {a : Arena} {env : Env} {op : String} {args : List String} {vs : List Value}
    {ts : List Ty} {p : Primitive} {ret : Ty} (hargs : a.lookupAll env args = .ok vs)
    (htypes : HaveTypes vs ts) (hfind : Primitive.find op ts = .ok (p, ret))
    (hlogs : p ∈ Primitive.mapAccesses → Gas.RoundsLogs) :
    ∃ c n, Gas.price op ts args = .ok c ∧ Gas.resolve (a.lookup env) c = .ok n ∧
      n < wordCount 64 ∧ ∀ (s : Setting) (room gas : Nat) (targs : List Ty),
        eval s room (.builtin op targs args) env ⟨a, gas⟩ =
            (if n ≤ gas then Run.ofExcept (p.run vs ret) ⟨a, gas - n⟩
            else Run.fail (.outOfGas n gas) ⟨a, gas⟩) ∧
          ∀ (f : Fault) (m : Machine),
            eval s room (.builtin op targs args) env ⟨a, gas⟩ = (.error f, m) →
              (f.cause = .outOfGas n gas ∨ p.run vs ret = .error f.cause) ∧
                ¬f.cause.OfPricing := by
  have htakes : p.Takes vs ret := Primitive.takes_of_find htypes hfind
  obtain ⟨c, n, hprice, hresolve, hn⟩ : Primitive.Priced (a.lookup env) p ts args :=
    Primitive.priced_of_takes hlogs (Arena.forall₂_of_lookupAll hargs) htakes
  have hname : Gas.price op ts args = .ok c := by
    rw [Gas.price, (Primitive.find_eq_ok.mp hfind).1]
    exact hprice
  refine ⟨c, n, hname, hresolve, hn, fun s room gas targs ↦ ?_⟩
  have hrun : eval s room (.builtin op targs args) env ⟨a, gas⟩ =
      if n ≤ gas then Run.ofExcept (p.run vs ret) ⟨a, gas - n⟩
      else Run.fail (.outOfGas n gas) ⟨a, gas⟩ :=
    EvalM.primitive_eq (m := ⟨a, gas⟩) (Arena.primitiveCall_of_find hargs htypes hfind hname)
      hresolve
  refine ⟨hrun, fun f m hfault ↦ ?_⟩
  rw [hrun] at hfault
  split at hfault
  · cases hp : p.run vs ret with
    | ok v =>
      rw [hp] at hfault
      cases hfault
    | error cause =>
      have hagrees : p.Agrees vs ret (.error cause) := hp ▸ Primitive.agrees_run htakes
      rw [hp] at hfault
      cases hfault
      exact ⟨.inr rfl, hagrees.not_ofPricing⟩
  · cases hfault
    exact ⟨.inl rfl, nofun⟩

/-- The third power of two, which costs a step and one more for each factor. -/
theorem calls_priced_cube :
    let bound := Arena.empty.bindAll .empty
      [("base", .int (.ofUInt32 2)), ("exponent", .int (.ofUInt32 3))]
    let cube : Expr := .builtin "pow" [] ["base", "exponent"]
    eval ⟨.empty, 0⟩ 0 cube bound.2 ⟨bound.1, 20⟩ =
        (.ok (.int (.ofUInt32 8)), ⟨bound.1, 4⟩) ∧
      eval ⟨.empty, 0⟩ 0 cube bound.2 ⟨bound.1, 15⟩ =
        (.error (.ofCause (.outOfGas 16 15)), ⟨bound.1, 15⟩) := by
  intro bound cube
  have hargs : bound.1.lookupAll bound.2 ["base", "exponent"] =
      .ok [.int (.ofUInt32 2), .int (.ofUInt32 3)] := by rfl
  have htypes : HaveTypes [.int (.ofUInt32 2), .int (.ofUInt32 3)] [.uint32, .uint32] :=
    .cons rfl (.cons rfl .nil)
  have hfind : Primitive.find "pow" [.uint32, .uint32] = .ok (.pow, .uint32) := by rfl
  obtain ⟨c, n, hprice, hresolve, -, hcalls⟩ :=
    calls_priced hargs htypes hfind fun h ↦ absurd h (by decide)
  obtain rfl : .sum (.static 4) (.prod (.static 4) (.valueOf "exponent")) = c :=
    Except.ok.inj hprice
  obtain rfl : 16 = n := Except.ok.inj hresolve
  exact ⟨(hcalls ⟨.empty, 0⟩ 0 20 []).1, (hcalls ⟨.empty, 0⟩ 0 15 []).1⟩

end MeteredContract
