import MeteredContract.Contract.Deploy
import MeteredContract.Eval.Session
import MeteredContract.Proofs.Run

/-!
How computations use gas. `Metered x` says that `x` uses an amount of gas that does not depend on
the budget it is given: with any budget that covers this amount it does the same and leaves the
rest, and with any smaller one it runs out of gas. Steps that do not look at the gas are metered
(`Metered.of_indifferent`), paying is, and sequencing keeps it.
-/

set_option autoImplicit false
set_option relaxedAutoImplicit false

namespace MeteredContract

/-- A state that holds a budget of gas. -/
class Budgeted (σ : Type) where
  gas : σ → Nat
  withGas : σ → Nat → σ
  gas_withGas : ∀ s g, gas (withGas s g) = g
  withGas_withGas : ∀ s g g', withGas (withGas s g) g' = withGas s g'

attribute [simp] Budgeted.gas_withGas Budgeted.withGas_withGas

instance : Budgeted Machine where
  gas m := m.gas
  withGas m g := { m with gas := g }
  gas_withGas _ _ := rfl
  withGas_withGas _ _ _ := rfl

instance : Budgeted Session where
  gas s := s.machine.gas
  withGas s g := { s with machine.gas := g }
  gas_withGas _ _ := rfl
  withGas_withGas _ _ _ := rfl

instance : Budgeted Deployment where
  gas d := d.machine.gas
  withGas d g := { d with machine.gas := g }
  gas_withGas _ _ := rfl
  withGas_withGas _ _ _ := rfl

open Budgeted

/-- The result is that the gas did not suffice. -/
def outOfGas {α : Type} : Except Fault α → Bool
  | .error f => f.isOutOfGas
  | .ok _ => false

theorem outOfGas_bind {σ α β : Type} {x : Run σ α} (f : α → Run σ β) {s : σ}
    (h : outOfGas (x s).1 = true) : outOfGas ((x >>= f) s).1 = true := by
  cases hs : x s with
  | mk result t =>
    rw [hs] at h
    cases result with
    | error e =>
      rw [Run.bind_of_error hs f]
      exact h
    | ok a => simp [outOfGas] at h

theorem Fault.isOutOfGas_of_cause {f : Fault} {required remaining : Nat}
    (h : f.cause = .outOfGas required remaining) : f.isOutOfGas = true := by
  rw [isOutOfGas, h]

/-- A result that is no lack of gas. -/
def GasFree {α : Type} (x : Except Cause α) : Prop :=
  ∀ required remaining, x ≠ .error (.outOfGas required remaining)

namespace GasFree

variable {α β : Type}

theorem ok (a : α) : GasFree (.ok a) := nofun

theorem error {c : Cause} (h : GasFree (.error c : Except Cause α)) :
    GasFree (.error c : Except Cause β) :=
  fun required remaining heq ↦ h required remaining (by cases heq; rfl)

theorem bind {x : Except Cause α} {f : α → Except Cause β} (hx : GasFree x)
    (hf : ∀ a, GasFree (f a)) : GasFree (x >>= f) := by
  cases x with
  | error c => exact error hx
  | ok a => exact hf a

theorem isOutOfGas_ofCause {c : Cause} (h : GasFree (.error c : Except Cause α)) :
    (Fault.ofCause c).isOutOfGas = false := by
  cases c with
  | outOfGas required remaining => exact absurd rfl (h required remaining)
  | _ => rfl

end GasFree

section Law

variable {σ α β : Type} [Budgeted σ]

/-- The gas that a computation uses from a state. -/
def gasUsed (x : Run σ α) (s : σ) : Nat := gas s - gas (x s).2

/-- How a computation uses the gas of a state. -/
structure MeteredAt (x : Run σ α) (s : σ) : Prop where
  le : gas (x s).2 ≤ gas s
  /-- Any budget that covers what is used gives the same. -/
  covered : outOfGas (x s).1 = false → ∀ g, gasUsed x s ≤ g →
    x (withGas s g) = ((x s).1, withGas (x s).2 (g - gasUsed x s))
  /-- No smaller budget does. -/
  short : outOfGas (x s).1 = false → ∀ g, g < gasUsed x s → outOfGas (x (withGas s g)).1 = true
  /-- A lack of gas is reported as it is. -/
  reported : ∀ f required remaining, (x s).1 = .error f →
    f.cause = .outOfGas required remaining → remaining = gas (x s).2 ∧ remaining < required

def Metered (x : Run σ α) : Prop := ∀ s, MeteredAt x s

/-- The computation neither sees nor changes the gas. -/
structure Indifferent (x : Run σ α) : Prop where
  gas_eq : ∀ s, gas (x s).2 = gas s
  comm : ∀ s g, x (withGas s g) = ((x s).1, withGas (x s).2 g)
  enough : ∀ s, outOfGas (x s).1 = false

namespace Indifferent

theorem pure (a : α) : Indifferent (Pure.pure a : Run σ α) where
  gas_eq _ := rfl
  comm _ _ := rfl
  enough _ := rfl

theorem read {f : σ → Except Cause α} (hcomm : ∀ s g, f (withGas s g) = f s)
    (hfree : ∀ s, GasFree (f s)) : Indifferent (Run.read f) where
  gas_eq s := by rw [Run.read_snd]
  comm s g := by
    rw [Run.read, Run.read, hcomm]
    cases f s <;> rfl
  enough s := by
    have hs := hfree s
    rw [Run.read]
    cases hfs : f s with
    | ok a => rfl
    | error c =>
      rw [hfs] at hs
      exact hs.isOutOfGas_ofCause

theorem step {f : σ → α × σ} (hgas : ∀ s, gas (f s).2 = gas s)
    (hcomm : ∀ s g, f (withGas s g) = ((f s).1, withGas (f s).2 g)) : Indifferent (Run.step f) where
  gas_eq := hgas
  comm s g := by
    simp only [Run.step]
    rw [hcomm]
  enough _ := rfl

end Indifferent

namespace Metered

/-- What neither sees nor changes the gas uses none of it. -/
theorem of_indifferent {x : Run σ α} (hx : Indifferent x) : Metered x := by
  intro s
  have hused : gasUsed x s = 0 := by simp [gasUsed, hx.gas_eq]
  refine ⟨Nat.le_of_eq (hx.gas_eq s), ?_, ?_, ?_⟩
  · intro _ g _
    rw [hused, hx.comm, Nat.sub_zero]
  · intro _ g hlt
    omega
  · intro f required remaining hf hcause
    have henough := hx.enough s
    rw [hf, outOfGas, Fault.isOutOfGas_of_cause hcause] at henough
    simp at henough

theorem bind_at_error {x : Run σ α} (f : α → Run σ β) {s t : σ} {e : Fault} (hx : MeteredAt x s)
    (hs : x s = (.error e, t)) : MeteredAt (x >>= f) s := by
  have hrun : (x >>= f) s = (.error e, t) := Run.bind_of_error hs f
  have hused : gasUsed (x >>= f) s = gasUsed x s := by rw [gasUsed, gasUsed, hrun, hs]
  obtain ⟨hle, hcovered, hshort, hreported⟩ := hx
  rw [hs] at hle hcovered hshort hreported
  refine ⟨?_, ?_, ?_, ?_⟩
  · rw [hrun]
    exact hle
  · intro henough g hg
    rw [hrun] at henough ⊢
    rw [hused] at hg ⊢
    exact Run.bind_of_error (hcovered henough g hg) f
  · intro henough g hg
    rw [hrun] at henough
    rw [hused] at hg
    exact outOfGas_bind f (hshort henough g hg)
  · intro f' required remaining hf' hcause
    rw [hrun] at hf' ⊢
    cases hf'
    exact hreported e required remaining rfl hcause

theorem bind_at_ok {x : Run σ α} {f : α → Run σ β} {s t : σ} {a : α} (hx : MeteredAt x s)
    (hs : x s = (.ok a, t)) (hf : MeteredAt (f a) t) : MeteredAt (x >>= f) s := by
  have hrun : (x >>= f) s = f a t := Run.bind_of_ok hs f
  have hfirst : gasUsed x s = gas s - gas t := by rw [gasUsed, hs]
  have hle : gas t ≤ gas s := by simpa [hs] using hx.le
  have hle' := hf.le
  have hused : gasUsed (x >>= f) s = gasUsed x s + gasUsed (f a) t := by
    rw [gasUsed, hrun, hfirst, gasUsed]
    omega
  -- with enough gas for the first part, the second starts from what that leaves
  have hrest : ∀ g, gasUsed x s ≤ g →
      (x >>= f) (withGas s g) = f a (withGas t (g - gasUsed x s)) := by
    intro g hg
    have hcovered := hx.covered (by rw [hs]; rfl) g hg
    rw [hs] at hcovered
    exact Run.bind_of_ok hcovered f
  refine ⟨?_, ?_, ?_, ?_⟩
  · rw [hrun]
    omega
  · intro henough g hg
    rw [hrun] at henough ⊢
    rw [hused] at hg ⊢
    rw [hrest g (by omega), hf.covered henough _ (by omega), Nat.sub_sub]
  · intro henough g hg
    rw [hrun] at henough
    rw [hused] at hg
    by_cases hlt : g < gasUsed x s
    · exact outOfGas_bind f (hx.short (by rw [hs]; rfl) g hlt)
    · rw [hrest g (by omega)]
      exact hf.short henough _ (by omega)
  · rw [hrun]
    exact hf.reported

/-- What is used in sequence adds up. -/
theorem bind {x : Run σ α} {f : α → Run σ β} (hx : Metered x) (hf : ∀ a, Metered (f a)) :
    Metered (x >>= f) := by
  intro s
  cases hs : x s with
  | mk result t =>
    cases result with
    | error e => exact bind_at_error f (hx s) hs
    | ok a => exact bind_at_ok (hx s) hs (hf a t)

theorem pure (a : α) : Metered (Pure.pure a : Run σ α) := of_indifferent (.pure a)

theorem ofExcept {x : Except Cause α} (hx : GasFree x) : Metered (Run.ofExcept x : Run σ α) :=
  of_indifferent (.read (fun _ _ ↦ rfl) fun _ ↦ hx)

theorem fail {c : Cause} (hc : GasFree (.error c : Except Cause α)) :
    Metered (Run.fail c : Run σ α) := ofExcept hc

/-- A computation that ends as a metered one does, with the same cause, is metered. -/
theorem annotate {x : Run σ α} {f : Fault → Fault} (hf : ∀ e, (f e).cause = e.cause)
    (hx : Metered x) : Metered (x.annotate f) := by
  have hout : ∀ s, outOfGas (x.annotate f s).1 = outOfGas (x s).1 := by
    intro s
    unfold Run.annotate
    split <;> simp_all [outOfGas, Fault.isOutOfGas]
  have hused : ∀ s, gasUsed (x.annotate f) s = gasUsed x s := by
    intro s
    rw [gasUsed, gasUsed, Run.annotate_snd]
  intro s
  obtain ⟨hle, hcovered, hshort, hreported⟩ := hx s
  refine ⟨?_, ?_, ?_, ?_⟩
  · rw [Run.annotate_snd]
    exact hle
  · intro henough g hg
    rw [hout] at henough
    rw [hused] at hg ⊢
    simp only [Run.annotate]
    rw [hcovered henough g hg]
    cases hs : x s with
    | mk result t => cases result <;> rfl
  · intro henough g hg
    rw [hout] at henough ⊢
    rw [hused] at hg
    exact hshort henough g hg
  · intro fault required remaining hfault hcause
    rw [Run.annotate_snd]
    cases hs : x s with
    | mk result t =>
      rw [hs] at hreported
      rw [Run.annotate, hs] at hfault
      cases result with
      | ok a => cases hfault
      | error e =>
        cases hfault
        exact hreported e required remaining rfl (by rw [← hf, hcause])

/-- Running on another state with the same gas, whose gas is taken over at the end. -/
theorem zoom {τ : Type} [Budgeted τ] {get : τ → σ} {set : τ → σ → τ} {x : Run σ α}
    (hgas : ∀ s, gas (get s) = gas s) (hget : ∀ s g, get (withGas s g) = withGas (get s) g)
    (hback : ∀ s t, gas (set s t) = gas t)
    (hset : ∀ s t g g', set (withGas s g) (withGas t g') = withGas (set s t) g')
    (hx : Metered x) : Metered (x.zoom get set) := by
  intro s
  have hused : gasUsed (x.zoom get set) s = gasUsed x (get s) := by
    rw [gasUsed, gasUsed, Run.zoom, hback, hgas]
  obtain ⟨hle, hcovered, hshort, hreported⟩ := hx (get s)
  refine ⟨?_, ?_, ?_, ?_⟩
  · rw [Run.zoom, hback, ← hgas s]
    exact hle
  · intro henough g hg
    rw [hused] at hg ⊢
    simp only [Run.zoom]
    rw [hget, hcovered henough g hg, hset]
  · intro henough g hg
    rw [hused] at hg
    simp only [Run.zoom]
    rw [hget]
    exact hshort henough g hg
  · intro f required remaining hf hcause
    simp only [Run.zoom]
    rw [hback]
    exact hreported f required remaining hf hcause

end Metered

end Law

end MeteredContract
