import MeteredContract.Contract.Dispatch
import MeteredContract.Proofs.Execution.Point

/-!
The history of a deployed contract. Messages are delivered one after the other; each call starts
from the state of the last call that succeeded and from the store as the call before left it,
whether that succeeded or not. `Handling.Starts` is the point at which the transition of a message
that fits one begins to run.
-/

set_option autoImplicit false
set_option relaxedAutoImplicit false

namespace MeteredContract

/-- A message for a contract, with the chain that is seen and the budget of gas. -/
structure Delivery where
  message : List (String × Value)
  chain : Chain
  gas : Nat

/-- The handling of a message: what it started from and how it ended. -/
structure Handling where
  delivery : Delivery
  before : ContractState
  storeBefore : Store
  outcome : Outcome Handled

/-- What comes of a call whose transition runs from the point. -/
def Point.concluded (s : Setting) (p : Point) (state : ContractState)
    (pending : List PendingCheck) : Outcome Handled :=
  let (result, t) := p.run s
  let handled := result.bind fun _ ↦ (settle t.balance t.emitted).map fun balance ↦
    ⟨{ state with balance }, t.emitted, t.events, t.accepted, pending⟩
  ⟨handled, t.machine.gas, t.store⟩

namespace Handling

/-- The state that is carried on. -/
def after (h : Handling) : ContractState :=
  match h.outcome.result with
  | .ok r => r.state
  | .error _ => h.before

/-- Deliver a message to a contract. -/
def deliver (depthLimit : Nat) (m : Module) (state : ContractState) (store : Store)
    (d : Delivery) : Handling :=
  ⟨d, state, store, handle depthLimit m state d.message d.chain store d.gas⟩

def setting (depthLimit : Nat) (h : Handling) : Setting := ⟨h.before.datatypes, depthLimit⟩

/-- The message selects a transition, whose body starts at the point. -/
def Starts (depthLimit : Nat) (m : Module) (h : Handling) (p : Point) : Prop :=
  ∃ sel, select m h.delivery.message = .ok sel ∧
    p = ⟨depthLimit, sel.scene h.before h.delivery.chain, .block sel.callee.procedure.body,
      sel.session h.before h.storeBefore h.delivery.gas⟩

theorem Starts.unique {depthLimit : Nat} {m : Module} {h : Handling} {p q : Point}
    (hp : h.Starts depthLimit m p) (hq : h.Starts depthLimit m q) : p = q := by
  obtain ⟨sel, hsel, rfl⟩ := hp
  obtain ⟨sel', hsel', rfl⟩ := hq
  rw [hsel] at hsel'
  cases hsel'
  rfl

theorem Starts.concluded {depthLimit : Nat} {m : Module} {state : ContractState} {store : Store}
    {d : Delivery} {p : Point}
    (hp : (deliver depthLimit m state store d).Starts depthLimit m p) :
    ∃ pending, (deliver depthLimit m state store d).outcome =
      p.concluded ((deliver depthLimit m state store d).setting depthLimit) state pending := by
  obtain ⟨sel, hsel, rfl⟩ := hp
  refine ⟨sel.args.pending, ?_⟩
  have hselect : select m d.message = .ok sel := hsel
  unfold Point.concluded
  generalize hrun : Point.run _ _ = run
  obtain ⟨result, t⟩ := run
  have hexec : exec ⟨state.datatypes, depthLimit⟩ depthLimit (sel.scene state d.chain)
      sel.callee.procedure.body (sel.session state store d.gas) = (result, t) := hrun
  simp only [deliver, handle, hselect, hexec]
  cases result with
  | error f => rfl
  | ok _ => rfl

/-- How a call ends whose transition ran from the point `p`: it leaves the store of the body, and if
it succeeds then so did the body, and what was sent could be paid. -/
structure Ended (s : Setting) (h : Handling) (p : Point) : Prop where
  store : h.outcome.store = (p.run s).2.store
  ok : ∀ r, h.outcome.result = .ok r → (p.run s).1 = .ok () ∧
    settle (p.run s).2.balance (p.run s).2.emitted = .ok r.state.balance ∧
    r.emitted = (p.run s).2.emitted ∧ r.accepted = (p.run s).2.accepted

theorem Starts.ended {depthLimit : Nat} {m : Module} {state : ContractState} {store : Store}
    {d : Delivery} {p : Point}
    (hp : (deliver depthLimit m state store d).Starts depthLimit m p) :
    (deliver depthLimit m state store d).Ended
      ((deliver depthLimit m state store d).setting depthLimit) p := by
  obtain ⟨pending, houtcome⟩ := hp.concluded
  constructor
  · rw [houtcome]
    rfl
  · intro r hr
    rw [houtcome] at hr
    obtain ⟨_, hbody, hr⟩ := except_bind_eq_ok.mp hr
    generalize hsettle : settle _ _ = paid at hr
    cases paid with
    | error f => cases hr
    | ok rest =>
      cases hr
      exact ⟨hbody, hsettle, rfl, rfl⟩

/-- Either the message fits no transition and nothing happens, or the call is the run of one. -/
theorem deliver_cases (depthLimit : Nat) (m : Module) (state : ContractState) (store : Store)
    (d : Delivery) :
    let h := deliver depthLimit m state store d
    (∃ c, select m d.message = .error c ∧ h.outcome = ⟨.error (.ofCause c), d.gas, store⟩) ∨
      ∃ p, h.Starts depthLimit m p ∧ h.Ended (h.setting depthLimit) p := by
  intro h
  cases hsel : select m d.message with
  | error c =>
    refine .inl ⟨c, rfl, ?_⟩
    simp only [h, deliver, handle, hsel]
  | ok sel =>
    have hstarts : h.Starts depthLimit m ⟨depthLimit, sel.scene state d.chain,
        .block sel.callee.procedure.body, sel.session state store d.gas⟩ := ⟨sel, hsel, rfl⟩
    exact .inr ⟨_, hstarts, hstarts.ended⟩

theorem Starts.outcome {depthLimit : Nat} {m : Module} {state : ContractState} {store : Store}
    {d : Delivery} {p : Point}
    (hp : (deliver depthLimit m state store d).Starts depthLimit m p)
    {result : Except Fault Unit} {t : Session}
    (hrun : p.run ((deliver depthLimit m state store d).setting depthLimit) = (result, t)) :
    ∃ pending, (deliver depthLimit m state store d).outcome.result = result.bind fun _ ↦
      (settle t.balance t.emitted).map fun balance ↦
        ⟨{ state with balance }, t.emitted, t.events, t.accepted, pending⟩ := by
  obtain ⟨pending, houtcome⟩ := hp.concluded
  refine ⟨pending, ?_⟩
  rw [houtcome, Point.concluded, hrun]

/-- A call changes nothing of a contract but its balance. -/
theorem exists_balance_after (depthLimit : Nat) (m : Module) (state : ContractState) (store : Store)
    (d : Delivery) :
    ∃ balance, (deliver depthLimit m state store d).after = { state with balance } := by
  cases hresult : (deliver depthLimit m state store d).outcome.result with
  | error f =>
    refine ⟨state.balance, ?_⟩
    rw [after, hresult]
    rfl
  | ok r =>
    rw [after, hresult]
    rcases deliver_cases depthLimit m state store d with ⟨c, -, houtcome⟩ | ⟨p, hp, -⟩
    · rw [houtcome] at hresult
      cases hresult
    · obtain ⟨pending, hend⟩ := hp.outcome rfl
      rw [hresult] at hend
      obtain ⟨_, -, hend⟩ := except_bind_eq_ok.mp hend.symm
      generalize settle _ _ = paid at hend
      cases paid with
      | error f => cases hend
      | ok rest =>
        cases hend
        exact ⟨rest, rfl⟩

end Handling

open Handling

def history (depthLimit : Nat) (m : Module) :
    ContractState → Store → List Delivery → List Handling
  | _, _, [] => []
  | state, store, d :: ds =>
    let h := deliver depthLimit m state store d
    h :: history depthLimit m h.after h.outcome.store ds

/-- The state after a history that began with `state`. -/
def lastState (state : ContractState) : List Handling → ContractState
  | [] => state
  | h :: hs => lastState h.after hs

/-- Each handling of a history is the delivery of a message. -/
theorem exists_deliver_of_mem_history {depthLimit : Nat} {m : Module} {ds : List Delivery}
    {state : ContractState} {store : Store} {h : Handling}
    (hmem : h ∈ history depthLimit m state store ds) :
    ∃ state' store' d, h = deliver depthLimit m state' store' d := by
  induction ds generalizing state store with
  | nil => simp [history] at hmem
  | cons d ds ih =>
    rcases List.mem_cons.mp hmem with rfl | hmem
    · exact ⟨state, store, d, rfl⟩
    · exact ih hmem

end MeteredContract
