import MeteredContract.Proofs.Gas.Exact
import MeteredContract.Proofs.Metering.Evaluation

/-!
Charges that are worth more than the gas that is left. An amount beyond the largest word is cut to
it, and a run that has less gas than that cannot pay it (`saturation_never_undercharges`). Two kinds
of charges are paid with less than they are worth: one that is cut when the gas left is the largest
word itself, and one that divides an amount that was cut (`saturation_undercharges`).
-/

set_option autoImplicit false
set_option relaxedAutoImplicit false

namespace MeteredContract

namespace EvalM

/-- A charge that resolves is paid at the amount it resolves to. -/
theorem charge_of_resolve {env : Env} {c : Charge} {m : Machine} {n : Nat}
    (h : Gas.resolve (m.arena.lookup env) c = .ok n) : charge env c m = pay n m := by
  have hread : inspect (fun a ↦ Gas.resolve (a.lookup env) c) m = (.ok n, m) :=
    Run.read_eq_ok.mpr ⟨h, rfl⟩
  exact Run.bind_of_ok hread pay

/-- Unless an amount that was cut is divided, a charge is paid at its exact value, cut at the
largest word. -/
theorem charge_of_dividesUncut {env : Env} {c : Charge} {m : Machine} (hlog : c.LogFree)
    (hdef : ∀ s ∈ c.parts, Gas.Defined (m.arena.lookup env) s)
    (hdiv : Gas.DividesUncut (m.arena.lookup env) c) :
    charge env c m = pay (min Gas.cap (Gas.exact (m.arena.lookup env) c)) m := by
  obtain ⟨n, hn, hamounts⟩ := Gas.resolves c hlog hdef
  rw [charge_of_resolve (Gas.resolve_of_whole hn), hamounts.eq hdiv]

end EvalM

/-- The charge is worth more than the gas that is left and is paid all the same. -/
structure Undercharged (env : Env) (c : Charge) (m : Machine) : Prop where
  logFree : c.LogFree
  defined : ∀ s ∈ c.parts, Gas.Defined (m.arena.lookup env) s
  gas_lt : m.gas < Gas.exact (m.arena.lookup env) c
  paid : (EvalM.charge env c m).1 = .ok ()

/-- A charge that is worth more than the gas that is left cannot be paid, and nothing is taken for
it, if whatever it divides by more than one is worth a word of gas at most and the gas that is left
is less than the largest word. With that much gas left, all of it is taken. -/
theorem saturation_never_undercharges (env : Env) (c : Charge) (m : Machine) (hlog : c.LogFree)
    (hdef : ∀ s ∈ c.parts, Gas.Defined (m.arena.lookup env) s)
    (hdiv : ∀ a d, .divCeil a d ∈ c.parts → d = 1 ∨ Gas.exact (m.arena.lookup env) a < wordCount 64)
    (hexact : m.gas < Gas.exact (m.arena.lookup env) c) :
    (m.gas < wordCount 64 - 1 →
      ∃ required, m.gas < required ∧
        EvalM.charge env c m = (.error (.ofCause (.outOfGas required m.gas)), m)) ∧
      (m.gas = wordCount 64 - 1 → EvalM.charge env c m = (.ok (), { m with gas := 0 })) := by
  have huncut : Gas.DividesUncut (m.arena.lookup env) c :=
    fun a d hs ↦ (hdiv a d hs).imp_right Nat.le_sub_one_of_lt
  rw [EvalM.charge_of_dividesUncut hlog hdef huncut]
  constructor
  · intro hgas
    have hlt : m.gas < min Gas.cap (Gas.exact (m.arena.lookup env) c) := lt_min hgas hexact
    exact ⟨_, hlt, EvalM.pay_of_lt hlt⟩
  · intro hgas
    have hall : min Gas.cap (Gas.exact (m.arena.lookup env) c) = m.gas := by
      rw [hgas] at hexact ⊢
      exact min_eq_left hexact.le
    rw [hall, EvalM.pay_of_le (Nat.le_refl m.gas), Nat.sub_self]

namespace Levies

/-- The largest word. -/
def largest : Charge := .static 18446744073709551615

/-- The largest word, with one more. -/
def beyond : Charge := .sum largest (.static 1)

/-- Twice the largest word, divided by two. -/
def halved : Charge := .divCeil (.sum largest largest) 2

/-- The largest word for each guest, and half a guest on top. -/
def perGuest : Charge := .sum (.prod largest (.valueOf "guests")) (.divCeil (.valueOf "guests") 2)

/-- Three guests are bound, and one unit of gas is missing to the largest word. -/
def party : Machine :=
  ⟨(Arena.empty.bind .empty "guests" (.int (.ofUInt32 3))).1, 18446744073709551614⟩

end Levies

theorem saturation_never_undercharges_party :
    Gas.exact (Levies.party.arena.lookup ⟨some 0⟩) Levies.perGuest = 3 * (2 ^ 64 - 1) + 2 ∧
      ∃ required, Levies.party.gas < required ∧
        EvalM.charge ⟨some 0⟩ Levies.perGuest Levies.party =
          (.error (.ofCause (.outOfGas required Levies.party.gas)), Levies.party) := by
  have hlog : Levies.perGuest.LogFree := by
    simp [Charge.LogFree, Levies.perGuest, Levies.largest, Charge.parts]
  have hguests : (Value.int (.ofUInt32 3)).IsWord := .int (by decide) (by decide)
  have hdef : ∀ s ∈ Levies.perGuest.parts,
      Gas.Defined (Levies.party.arena.lookup ⟨some 0⟩) s := by
    simp only [Levies.perGuest, Levies.largest, Charge.parts, List.cons_append, List.nil_append,
      List.forall_mem_cons]
    have htwo : (2 : UInt64) ≠ 0 := by decide
    exact ⟨trivial, trivial, trivial, ⟨_, rfl, hguests⟩, htwo, ⟨_, rfl, hguests⟩,
      List.forall_mem_nil _⟩
  have hdiv : ∀ a d, .divCeil a d ∈ Levies.perGuest.parts →
      d = 1 ∨ Gas.exact (Levies.party.arena.lookup ⟨some 0⟩) a < wordCount 64 := by
    intro a d hs
    obtain ⟨rfl, rfl⟩ : a = .valueOf "guests" ∧ d = 2 := by
      simpa [Levies.perGuest, Levies.largest, Charge.parts] using hs
    exact .inr (by decide)
  have hexact : Gas.exact (Levies.party.arena.lookup ⟨some 0⟩) Levies.perGuest =
      3 * (2 ^ 64 - 1) + 2 := by decide
  obtain ⟨hfails, -⟩ := saturation_never_undercharges ⟨some 0⟩ Levies.perGuest Levies.party hlog
    hdef hdiv (by decide)
  exact ⟨hexact, hfails (by decide)⟩

theorem saturation_undercharges :
    Undercharged .empty Levies.halved ⟨.empty, 2 ^ 63⟩ ∧
      Undercharged .empty Levies.beyond ⟨.empty, 2 ^ 64 - 1⟩ := by
  refine ⟨⟨?_, ?_, by decide, rfl⟩, ⟨?_, ?_, by decide, rfl⟩⟩
  · simp [Charge.LogFree, Levies.halved, Levies.largest, Charge.parts]
  · simp [Levies.halved, Levies.largest, Charge.parts, Gas.Defined]
  · simp [Charge.LogFree, Levies.beyond, Levies.largest, Charge.parts]
  · simp [Levies.beyond, Levies.largest, Charge.parts, Gas.Defined]

end MeteredContract
