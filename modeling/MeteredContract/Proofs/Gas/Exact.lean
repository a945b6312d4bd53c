import MeteredContract.Gas.Resolve
import MeteredContract.Proofs.Gas.Size
import MeteredContract.Proofs.Run
import MeteredContract.Proofs.Value.Elements
import Mathlib.Algebra.Order.Floor.Div
import Mathlib.Algebra.Order.Ring.Nat

/-!
What a charge comes to in natural numbers, where no amount is the largest (`Gas.exact`), and what it
is resolved to. A charge without logarithms resolves if and only if each of its parts is defined
(`Gas.resolve_isOk_iff`), and never to more than its exact value. Sums, products and minima lose
nothing but what is beyond the largest amount; a division may turn an amount that was cut into one
that is too small, unless what it divides was not cut or is divided by one
(`Gas.eq_of_dividesUncut`).
-/

set_option autoImplicit false
set_option relaxedAutoImplicit false

namespace MeteredContract

namespace Charge

/-- The charge and all charges in it. -/
def parts (c : Charge) : List Charge :=
  c :: match c with
    | .sum a b => a.parts ++ b.parts
    | .prod a b => a.parts ++ b.parts
    | .min a b => a.parts ++ b.parts
    | .divCeil a _ => a.parts
    | .log a => a.parts
    | _ => []

def LogFree (c : Charge) : Prop := ∀ a, .log a ∉ c.parts

def DivFree (c : Charge) : Prop := ∀ a d, .divCeil a d ∉ c.parts

theorem LogFree.mono {a c : Charge} (h : a.parts ⊆ c.parts) (hc : c.LogFree) : a.LogFree :=
  fun s hs ↦ hc s (h hs)

theorem mem_parts_self (c : Charge) : c ∈ c.parts := by
  unfold parts
  exact List.mem_cons_self

/-- What is in a part of a charge is in the charge. -/
theorem parts_subset {s c : Charge} (h : s ∈ c.parts) : s.parts ⊆ c.parts := by
  induction c with
  | sum a b iha ihb | prod a b iha ihb | min a b iha ihb =>
    obtain rfl | h := List.mem_cons.mp h
    · exact List.Subset.refl _
    · obtain h | h := List.mem_append.mp h
      · exact List.subset_cons_of_subset _ (List.subset_append_of_subset_left _ (iha h))
      · exact List.subset_cons_of_subset _ (List.subset_append_of_subset_right _ (ihb h))
  | divCeil a d ih | log a ih =>
    obtain rfl | h := List.mem_cons.mp h
    · exact List.Subset.refl _
    · exact List.subset_cons_of_subset _ (ih h)
  | _ =>
    obtain rfl := List.mem_singleton.mp h
    exact List.Subset.refl _

end Charge

namespace Gas

variable (lookup : String → Except Cause Value)

/-- What a charge asks of the variable that it names and of its own divisor. -/
def Defined : Charge → Prop
  | .sizeOf x => ∃ v, lookup x = .ok v
  | .valueOf x => ∃ v, lookup x = .ok v ∧ v.IsWord
  | .lengthOf x => ∃ v, lookup x = .ok v ∧ v.IsCollection
  | .mapSortCost x => ∃ m, lookup x = .ok (.map m)
  | .divCeil _ d => d ≠ 0
  | _ => True

/-- What is measured of the value of a variable. -/
def measure (x : String) (f : Value → Nat) : Nat :=
  match lookup x with
  | .ok v => f v
  | .error _ => 0

/-- The value of a charge without logarithms in natural numbers. -/
def exact : Charge → Nat
  | .static n => n.toNat
  | .sizeOf x => measure lookup x Value.byteSize
  | .valueOf x => measure lookup x Value.number
  | .lengthOf x => measure lookup x Value.count
  | .mapSortCost x => measure lookup x fun v ↦ v.count * Nat.clog 2 v.count
  | .sum a b => exact a + exact b
  | .prod a b => exact a * exact b
  | .min a b => min (exact a) (exact b)
  | .divCeil a d => exact a ⌈/⌉ d.toNat
  | .log _ => 0

/-- What is divided by more than one is not beyond the largest amount. -/
def DividesUncut (c : Charge) : Prop :=
  ∀ a d, .divCeil a d ∈ c.parts → d = 1 ∨ exact lookup a ≤ cap

variable {lookup}

theorem measure_of_ok {x : String} {v : Value} (h : lookup x = .ok v) (f : Value → Nat) :
    measure lookup x f = f v := by
  rw [measure, h]

theorem DividesUncut.mono {a c : Charge} (h : a.parts ⊆ c.parts) (hc : DividesUncut lookup c) :
    DividesUncut lookup a :=
  fun s d hs ↦ hc s d (h hs)

theorem ceilDiv_le_self (n : Nat) {d : Nat} (hd : 0 < d) : n ⌈/⌉ d ≤ n :=
  (ceilDiv_le_iff_le_mul hd).mpr (Nat.le_mul_of_pos_left n hd)

theorem ceilDiv_mono {m n : Nat} (h : m ≤ n) {d : Nat} (hd : 0 < d) : m ⌈/⌉ d ≤ n ⌈/⌉ d :=
  (gc_mul_ceilDiv hd).monotone_l h

/-- An operation on amounts that can be cut before it and is the other operation cut after it. -/
structure Clamps (f g : Nat → Nat → Nat) : Prop where
  mono : ∀ {m m' n n'}, m ≤ m' → n ≤ n' → f m n ≤ f m' n'
  cut : ∀ m n, f (min cap m) (min cap n) = min cap (g m n)

theorem clamps_satAdd : Clamps satAdd (· + ·) where
  mono hm hn := min_le_min_left cap (Nat.add_le_add hm hn)
  cut := satAdd_min

theorem clamps_satMul : Clamps satMul (· * ·) where
  mono hm hn := min_le_min_left cap (Nat.mul_le_mul hm hn)
  cut := satMul_min

theorem clamps_min : Clamps Nat.min min where
  mono := min_le_min
  cut m n := by
    show min (min cap m) (min cap n) = min cap (min m n)
    omega

/-! ### What a charge is resolved to -/

variable (lookup) in
/-- The amount is at most the exact value of the charge, cut at the largest amount, and it is that
value if no division spoils it. -/
structure Amounts (c : Charge) (n : Nat) : Prop where
  le : n ≤ min cap (exact lookup c)
  eq : DividesUncut lookup c → n = min cap (exact lookup c)

namespace Amounts

variable {a b c : Charge} {m n : Nat}

theorem of_eq (h : n = min cap (exact lookup c)) : Amounts lookup c n where
  le := h.le
  eq _ := h

/-- Nothing is spoilt by an operation after which an amount can be cut as well as before. -/
theorem combine {f g : Nat → Nat → Nat} (hf : Clamps f g) (hleft : a.parts ⊆ c.parts)
    (hright : b.parts ⊆ c.parts) (hexact : exact lookup c = g (exact lookup a) (exact lookup b))
    (ha : Amounts lookup a m) (hb : Amounts lookup b n) : Amounts lookup c (f m n) where
  le := by
    rw [hexact, ← hf.cut]
    exact hf.mono ha.le hb.le
  eq hc := by
    rw [hexact, ← hf.cut, ← ha.eq (hc.mono hleft), ← hb.eq (hc.mono hright)]

theorem divCeil {d : UInt64} (hd : d ≠ 0) (ha : Amounts lookup a n) :
    Amounts lookup (.divCeil a d) (n ⌈/⌉ d.toNat) := by
  have hpos : 0 < d.toNat := UInt64.lt_iff_toNat_lt.mp (UInt64.pos_iff_ne_zero.mpr hd)
  constructor
  · rw [exact]
    refine (ceilDiv_mono ha.le hpos).trans (le_min ?_ ?_)
    · exact (ceilDiv_le_self _ hpos).trans (min_le_left cap _)
    · exact ceilDiv_mono (min_le_right cap _) hpos
  · intro hc
    have hsub : a.parts ⊆ (Charge.divCeil a d).parts := List.subset_cons_self _ _
    rw [ha.eq (hc.mono hsub), exact]
    obtain rfl | hle := hc a d (Charge.mem_parts_self _)
    · rw [UInt64.toNat_one, ceilDiv_one, ceilDiv_one]
    · rw [min_eq_right hle, min_eq_right ((ceilDiv_le_self _ hpos).trans hle)]

end Amounts

theorem evaluate_sizeOf {x : String} {v : Value} (hv : lookup x = .ok v) :
    evaluate lookup (.sizeOf x) = .ok (.whole v.size) := by
  rw [evaluate, hv]
  rfl

theorem evaluate_valueOf {x : String} {v : Value} (hv : lookup x = .ok v) (hword : v.IsWord) :
    evaluate lookup (.valueOf x) = .ok (.whole v.number) := by
  have hmagnitude : v.magnitude? = some v.number := Value.magnitude?_eq_some_iff.mpr ⟨hword, rfl⟩
  simp only [evaluate, hv, bind, Except.bind, hmagnitude]
  rfl

theorem evaluate_lengthOf {x : String} {v : Value} (hv : lookup x = .ok v)
    (hcoll : v.IsCollection) : evaluate lookup (.lengthOf x) = .ok (.whole (ofCount v.count)) := by
  rw [evaluate, hv]
  cases hcoll with
  | map m => rfl
  | list h =>
    have hlist := Value.toList?_eq_some_iff.mpr h
    cases h with
    | nil => rfl
    | cons => simp only [bind, Except.bind, Value.count, hlist, Option.getD_some, pure, Except.pure]

theorem evaluate_mapSortCost {x : String} {m : MapValue} (hm : lookup x = .ok (.map m)) :
    evaluate lookup (.mapSortCost x) = .ok (.whole (sortCost m.entries.length)) := by
  rw [evaluate, hm]
  rfl

theorem evaluate_divCeil {a : Charge} {d : UInt64} {n : Nat} (hd : d ≠ 0)
    (ha : evaluate lookup a = .ok (.whole n)) :
    evaluate lookup (.divCeil a d) = .ok (.whole (n ⌈/⌉ d.toNat)) := by
  rw [evaluate, if_neg hd, ha]
  rfl

variable (lookup) in
/-- The charge resolves, to such an amount, if it may be resolved and all its parts are defined. -/
def Resolves (c : Charge) : Prop :=
  c.LogFree → (∀ s ∈ c.parts, Defined lookup s) →
    ∃ n, evaluate lookup c = .ok (.whole n) ∧ Amounts lookup c n

theorem Resolves.combine {a b c : Charge} {f g : Nat → Nat → Nat} {onFrac : Float → Float → Float}
    (hf : Clamps f g) (hparts : c.parts = c :: (a.parts ++ b.parts))
    (hexact : exact lookup c = g (exact lookup a) (exact lookup b))
    (heval : evaluate lookup c = do
      return Amount.combine f onFrac (← evaluate lookup a) (← evaluate lookup b))
    (ha : Resolves lookup a) (hb : Resolves lookup b) : Resolves lookup c := by
  intro hlog hdef
  have hleft : a.parts ⊆ c.parts :=
    hparts ▸ List.subset_cons_of_subset c (List.subset_append_left _ _)
  have hright : b.parts ⊆ c.parts :=
    hparts ▸ List.subset_cons_of_subset c (List.subset_append_right _ _)
  obtain ⟨m, hm, hma⟩ := ha (hlog.mono hleft) fun s hs ↦ hdef s (hleft hs)
  obtain ⟨n, hn, hnb⟩ := hb (hlog.mono hright) fun s hs ↦ hdef s (hright hs)
  refine ⟨f m n, ?_, hma.combine hf hleft hright hexact hnb⟩
  rw [heval, hm, hn]
  rfl

theorem resolves (c : Charge) : Resolves lookup c := by
  induction c with
  | static n =>
    have hle : n.toNat ≤ cap := Nat.le_sub_one_of_lt n.toNat_lt
    exact fun _ _ ↦ ⟨n.toNat, rfl, .of_eq (min_eq_right hle).symm⟩
  | sizeOf x =>
    intro _ hdef
    obtain ⟨v, hv⟩ := hdef _ (Charge.mem_parts_self _)
    refine ⟨v.size, evaluate_sizeOf hv, .of_eq ?_⟩
    rw [exact, measure_of_ok hv, Value.size_eq]
  | valueOf x =>
    intro _ hdef
    obtain ⟨v, hv, hword⟩ := hdef _ (Charge.mem_parts_self _)
    have hle : v.number ≤ cap := Nat.le_sub_one_of_lt hword.number_lt
    refine ⟨v.number, evaluate_valueOf hv hword, .of_eq ?_⟩
    rw [exact, measure_of_ok hv, min_eq_right hle]
  | lengthOf x =>
    intro _ hdef
    obtain ⟨v, hv, hcoll⟩ := hdef _ (Charge.mem_parts_self _)
    refine ⟨ofCount v.count, evaluate_lengthOf hv hcoll, .of_eq ?_⟩
    rw [exact, measure_of_ok hv, ofCount]
  | mapSortCost x =>
    intro _ hdef
    obtain ⟨m, hm⟩ := hdef _ (Charge.mem_parts_self _)
    refine ⟨sortCost m.entries.length, evaluate_mapSortCost hm, .of_eq ?_⟩
    rw [exact, measure_of_ok hm, sortCost_eq, Value.count]
  | sum a b iha ihb => exact .combine clamps_satAdd rfl rfl rfl iha ihb
  | prod a b iha ihb => exact .combine clamps_satMul rfl rfl rfl iha ihb
  | min a b iha ihb => exact .combine clamps_min rfl rfl rfl iha ihb
  | divCeil a d ih =>
    intro hlog hdef
    have hd : d ≠ 0 := hdef _ (Charge.mem_parts_self _)
    have hsub : a.parts ⊆ (Charge.divCeil a d).parts := List.subset_cons_self _ _
    obtain ⟨n, hn, hna⟩ := ih (hlog.mono hsub) fun s hs ↦ hdef s (hsub hs)
    exact ⟨_, evaluate_divCeil hd hn, hna.divCeil hd⟩
  | log a => exact fun hlog _ ↦ (hlog a (Charge.mem_parts_self _)).elim

/-- Whatever is evaluated is defined, logarithms included. -/
theorem defined_of_evaluate {c : Charge} {r : Amount} (h : evaluate lookup c = .ok r) :
    ∀ s ∈ c.parts, Defined lookup s := by
  induction c generalizing r with
  | static n => exact List.forall_mem_singleton.mpr trivial
  | sizeOf x =>
    obtain ⟨v, hv, -⟩ := except_bind_eq_ok.mp h
    exact List.forall_mem_singleton.mpr ⟨v, hv⟩
  | valueOf x =>
    obtain ⟨v, hv, h⟩ := except_bind_eq_ok.mp h
    split at h
    · next hmagnitude =>
      have hword := (Value.magnitude?_eq_some_iff.mp hmagnitude).1
      exact List.forall_mem_singleton.mpr ⟨v, hv, hword⟩
    · cases h
  | lengthOf x =>
    obtain ⟨v, hv, h⟩ := except_bind_eq_ok.mp h
    split at h
    · exact List.forall_mem_singleton.mpr ⟨_, hv, .map _⟩
    · split at h
      · next hlist =>
        have hcoll : v.IsCollection := .list (Value.toList?_eq_some_iff.mp hlist)
        exact List.forall_mem_singleton.mpr ⟨v, hv, hcoll⟩
      · cases h
  | mapSortCost x =>
    obtain ⟨v, hv, h⟩ := except_bind_eq_ok.mp h
    split at h
    · exact List.forall_mem_singleton.mpr ⟨_, hv⟩
    · cases h
  | sum a b iha ihb | prod a b iha ihb | min a b iha ihb =>
    obtain ⟨m, hm, h⟩ := except_bind_eq_ok.mp h
    obtain ⟨n, hn, -⟩ := except_bind_eq_ok.mp h
    exact List.forall_mem_cons.mpr ⟨trivial, List.forall_mem_append.mpr ⟨iha hm, ihb hn⟩⟩
  | divCeil a d ih =>
    rw [evaluate] at h
    split at h
    · cases h
    · next hd =>
      obtain ⟨n, hn, -⟩ := except_bind_eq_ok.mp h
      exact List.forall_mem_cons.mpr ⟨hd, ih hn⟩
  | log a ih =>
    obtain ⟨n, hn, -⟩ := except_bind_eq_ok.mp h
    exact List.forall_mem_cons.mpr ⟨trivial, ih hn⟩

variable {c : Charge} {n : Nat}

theorem resolve_of_whole (h : evaluate lookup c = .ok (.whole n)) : resolve lookup c = .ok n := by
  rw [resolve, h]
  rfl

theorem defined_of_resolve (h : resolve lookup c = .ok n) : ∀ s ∈ c.parts, Defined lookup s := by
  obtain ⟨r, hr, -⟩ := except_bind_eq_ok.mp h
  exact defined_of_evaluate hr

theorem amounts_of_resolve (hlog : c.LogFree) (h : resolve lookup c = .ok n) :
    Amounts lookup c n := by
  obtain ⟨k, hk, hamounts⟩ := resolves c hlog (defined_of_resolve h)
  have hresolve := resolve_of_whole hk
  rw [h] at hresolve
  cases hresolve
  exact hamounts

theorem dividesUncut_of_divFree (h : c.DivFree) : DividesUncut lookup c :=
  fun a d hs ↦ absurd hs (h a d)

theorem dividesUncut_of_words (h : ∀ s ∈ c.parts, exact lookup s < wordCount 64) :
    DividesUncut lookup c := by
  intro a d hs
  have ha : a ∈ c.parts :=
    Charge.parts_subset hs (List.mem_cons_of_mem _ (Charge.mem_parts_self a))
  exact .inr (Nat.le_sub_one_of_lt (h a ha))

end Gas

/-- A charge without logarithms resolves if and only if every variable in it is bound, to a value of
the kind that is asked for, and nothing is divided by zero. It resolves to its exact value if that
and all values on the way are words of gas; without divisions to the exact value or to the largest
word, whichever is less; and in no case to more than the exact value. -/
theorem resolve_exact (lookup : String → Except Cause Value) (c : Charge) (hlog : c.LogFree) :
    ((∃ n, Gas.resolve lookup c = .ok n) ↔ ∀ s ∈ c.parts, Gas.Defined lookup s) ∧
      ∀ n, Gas.resolve lookup c = .ok n →
        n < wordCount 64 ∧ n ≤ Gas.exact lookup c ∧
        (c.DivFree → n = min (wordCount 64 - 1) (Gas.exact lookup c)) ∧
        ((∀ s ∈ c.parts, Gas.exact lookup s < wordCount 64) → n = Gas.exact lookup c) := by
  constructor
  · constructor
    · rintro ⟨n, hn⟩
      exact Gas.defined_of_resolve hn
    · intro hdef
      obtain ⟨n, hn, -⟩ := Gas.resolves c hlog hdef
      exact ⟨n, Gas.resolve_of_whole hn⟩
  · intro n hn
    have hamounts := Gas.amounts_of_resolve hlog hn
    refine ⟨?_, hamounts.le.trans (min_le_right _ _), fun hdiv ↦ ?_, fun hwords ↦ ?_⟩
    · exact Nat.lt_of_le_sub_one (by decide) (hamounts.le.trans (min_le_left _ _))
    · exact hamounts.eq (Gas.dividesUncut_of_divFree hdiv)
    · rw [hamounts.eq (Gas.dividesUncut_of_words hwords)]
      exact min_eq_right (Nat.le_sub_one_of_lt (hwords c c.mem_parts_self))

namespace Levy

/-- Two guests, a price and a name. -/
def lookup : String → Except Cause Value
  | "guests" => .ok (.list .string [.str "ada", .str "bob"])
  | "price" => .ok (.int (.ofUInt32 3))
  | "name" => .ok (.str "eve")
  | x => .error (.unboundIdentifier x)

/-- The price for each guest, or the length of the name if that is less, on top of the largest
word. -/
def charge : Charge :=
  .sum (.static 18446744073709551615)
    (.min (.prod (.valueOf "price") (.lengthOf "guests")) (.sizeOf "name"))

end Levy

theorem resolve_exact_levy :
    Levy.charge.LogFree ∧ Levy.charge.DivFree ∧ Gas.exact Levy.lookup Levy.charge = 2 ^ 64 + 2 ∧
      Gas.resolve Levy.lookup Levy.charge = .ok (2 ^ 64 - 1) := by
  have hlog : Levy.charge.LogFree := by simp [Charge.LogFree, Levy.charge, Charge.parts]
  have hdiv : Levy.charge.DivFree := by simp [Charge.DivFree, Levy.charge, Charge.parts]
  have hexact : Gas.exact Levy.lookup Levy.charge = 2 ^ 64 + 2 := by decide
  have hguests : (Value.list .string [.str "ada", .str "bob"]).IsCollection :=
    .list (.cons _ _ (.cons _ _ (.nil _)))
  have hprice : (Value.int (.ofUInt32 3)).IsWord := .int (by decide) (by decide)
  have hdef : ∀ s ∈ Levy.charge.parts, Gas.Defined Levy.lookup s := by
    simp only [Levy.charge, Charge.parts, List.cons_append, List.nil_append, List.forall_mem_cons]
    exact ⟨trivial, trivial, trivial, trivial, ⟨_, rfl, hprice⟩, ⟨_, rfl, hguests⟩, ⟨_, rfl⟩,
      nofun⟩
  obtain ⟨hresolves, hamount⟩ := resolve_exact Levy.lookup Levy.charge hlog
  obtain ⟨n, hn⟩ := hresolves.mpr hdef
  have hcut : n = 2 ^ 64 - 1 := by
    rw [(hamount n hn).2.2.1 hdiv, hexact]
    rfl
  exact ⟨hlog, hdiv, hexact, hcut ▸ hn⟩

end MeteredContract
