import MeteredContract.Proofs.Contract.Selection
import MeteredContract.Proofs.Execution.Implicit

/-!
Who calls. The dispatcher binds the sender, origin and amount of a message, and every procedure gets
them from its caller. In a module whose components bind none of the three names themselves, they are
those of the message in every procedure, however deep the call; a contract in which calls read them
off the message would do the same (`implicit_authentic`).
-/

set_option autoImplicit false
set_option relaxedAutoImplicit false

namespace MeteredContract

/-- No component of the module binds a name that it gets from its caller. What expressions,
libraries and contract parameters bind does not matter. -/
def Module.SparesImplicit (m : Module) : Prop := ∀ c ∈ m.components, c.SparesImplicit

instance (m : Module) : Decidable m.SparesImplicit :=
  inferInstanceAs (Decidable (∀ c ∈ m.components, c.SparesImplicit))

/-! ### What a message says -/

/-- The entry of a message under that name. -/
def entryOf (message : List (String × Value)) (name : String) : Except Cause Value :=
  match Arguments.value? message name with
  | some v => .ok v
  | none => .error (.parameterMismatch name .missing)

namespace Implicit

/-- The values in a message; without an origin it comes from its sender. -/
def ofMessage (message : List (String × Value)) : Except Cause Implicit := do
  let sender ← entryOf message Label.sender
  let amount ← entryOf message Label.amount
  return ⟨sender, (Arguments.value? message Label.origin).getD sender, amount⟩

/-- Handle a message with the values that it has for all calls. -/
def handle (depthLimit : Nat) (m : Module) (state : ContractState)
    (message : List (String × Value)) (chain : Chain) (store : Store) (gas : Nat) :
    Outcome Handled :=
  match select m message, ofMessage message with
  | .error c, _ => ⟨.error (.ofCause c), gas, store⟩
  | .ok _, .error c => ⟨.error (.ofCause c), gas, store⟩
  | .ok sel, .ok i =>
    match i.exec ⟨state.datatypes, depthLimit⟩ depthLimit (sel.scene state chain)
        sel.callee.procedure.body (sel.session state store gas) with
    | (.error f, t) => ⟨.error f, t.machine.gas, t.store⟩
    | (.ok (), t) =>
      let result := (settle t.balance t.emitted).map fun balance ↦
        ⟨{ state with balance }, t.emitted, t.events, t.accepted, sel.args.pending⟩
      ⟨result, t.machine.gas, t.store⟩

end Implicit

theorem Implicit.holds_of_select {m : Module} {message : List (String × Value)} {sel : Selected}
    (h : select m message = .ok sel) (state : ContractState) (store : Store) (gas : Nat) :
    ∃ i, ofMessage message = .ok i ∧ i.Holds (sel.session state store gas) := by
  have hbound : ∀ p ∈ implicitComponentParams, ∃ v,
      Arguments.value? (argumentsOf message) p.name = some v ∧
        (sel.session state store gas).machine.arena.lookup (sel.session state store gas).env
          p.name = .ok v :=
    fun p hp ↦ lookup_of_select h state store gas (List.mem_append_left _ hp)
  simp only [implicitComponentParams, List.forall_mem_cons] at hbound
  obtain ⟨⟨sender, hsender, hsenderBound⟩, ⟨origin, horigin, horiginBound⟩,
    ⟨amount, hamount, hamountBound⟩, -⟩ := hbound
  rw [value?_argumentsOf_of_ne _ (by decide) (by decide)] at hsender
  rw [value?_argumentsOf_origin hsender] at horigin
  rw [value?_argumentsOf_of_ne _ (by decide) (by decide)] at hamount
  refine ⟨⟨sender, origin, amount⟩, ?_, ?_⟩
  · rw [← Option.some.inj horigin]
    simp only [ofMessage, entryOf, hsender, hamount]
    rfl
  · simp only [Holds, BoundIn, bindings, List.forall_mem_cons]
    exact ⟨hsenderBound, horiginBound, hamountBound, List.forall_mem_nil _⟩

/-! ### Calls -/

namespace Handling

/-- Sender, origin and amount are those of the message wherever the handling gets to. -/
structure PassesImplicit (depthLimit : Nat) (m : Module) (h : Handling) : Prop where
  /-- The names have these values at all points, so every procedure that is called gets them. -/
  handed : ∀ p q, h.Starts depthLimit m p → Reaches (h.setting depthLimit) p q →
    ∃ i, Implicit.ofMessage h.delivery.message = .ok i ∧ i.Holds q.session ∧
      ∀ (site : Span) (name : String) (args : List Value) (given : Handover),
        q.code = .call site name args → given.Of q.scene name args q.session → given.implicit = i
  /-- Calls that take the values from the message make no difference. -/
  same : Implicit.handle depthLimit m h.before h.delivery.message h.delivery.chain h.storeBefore
    h.delivery.gas = h.outcome

end Handling

open Handling

/-- If no component of a module binds the name of the sender, the origin or the amount, then in any
state of the contract and for any message, each procedure that is called gets those of the message,
and reading them off the message instead has the same outcome. -/
theorem implicit_authentic (depthLimit : Nat) (m : Module) (hm : m.SparesImplicit)
    (state : ContractState) (store : Store) (d : Delivery) :
    (deliver depthLimit m state store d).PassesImplicit depthLimit m := by
  constructor
  · rintro p q ⟨sel, hsel, rfl⟩ hq
    obtain ⟨i, hi, hholds⟩ := Implicit.holds_of_select hsel state store d.gas
    obtain ⟨hmem, hvisible⟩ := mem_of_select hsel
    have hq : q.Authentic i := hq.authentic
      ⟨hholds, (hm _ hmem).body, fun c hc ↦ hm c (hvisible c hc)⟩
    exact ⟨i, hi, hq.values, fun _ _ _ _ _ hof ↦ hof.implicit_eq hq.values⟩
  · cases hsel : select m d.message with
    | error c => simp only [deliver, Implicit.handle, handle, hsel]
    | ok sel =>
      obtain ⟨i, hi, hholds⟩ := Implicit.holds_of_select hsel state store d.gas
      obtain ⟨hmem, hvisible⟩ := mem_of_select hsel
      have hscene : ∀ c ∈ (sel.scene state d.chain).procedures, c.SparesImplicit :=
        fun c hc ↦ hm c (hvisible c hc)
      have hexec := i.exec_eq ⟨state.datatypes, depthLimit⟩ depthLimit hscene
        (hm _ hmem).body hholds
      cases hrun : exec ⟨state.datatypes, depthLimit⟩ depthLimit (sel.scene state d.chain)
          sel.callee.procedure.body (sel.session state store d.gas) with
      | mk result t =>
        cases result with
        | error f => simp only [deliver, Implicit.handle, handle, hsel, hi, hexec, hrun]
        | ok _ => simp only [deliver, Implicit.handle, handle, hsel, hi, hexec, hrun]

namespace Relay

/-- A transition that calls a procedure for each element of a list, from within a clause; that
procedure calls another, which says who it was. -/
def code : Module where
  name := "Relay"
  imports := []
  library := none
  params := []
  constraint := none
  fields := []
  components :=
    [ ⟨.procedure, "report", [],
        [ .bind "e" (.message [(Label.eventName, .lit (.str "by")), ("who", .var Label.origin)]),
          .event "e" ]⟩,
      ⟨.procedure, "pass", [⟨"item", .uint32⟩], [.call "report" []]⟩,
      ⟨.transition, "go", [⟨"items", .list .uint32⟩],
        [ .matching "items" [⟨.binder "all", [.forEach "all" "pass"]⟩] ]⟩ ]

def state : ContractState where
  env := .empty
  frames := #[]
  fields := []
  balance := .zero
  datatypes := .standard

def one : Value := .int (.ofUInt32 1)

/-- The message names no origin. -/
def order : Delivery where
  message :=
    [ (Label.tag, .str "go"),
      (Label.amount, .int (.ofTokens .zero)),
      (Label.sender, .bystrx (List.replicate addressWidth 7)),
      ("items", .data "List" "Cons" [.uint32] [one, .data "List" "Nil" [.uint32] []]) ]
  chain := .empty
  gas := 10

end Relay

theorem implicit_authentic_relay :
    Relay.code.SparesImplicit ∧
      let h := deliver 2 Relay.code Relay.state .empty Relay.order
      h.outcome.result.toOption.map (·.events.length) = some 1 ∧ h.PassesImplicit 2 Relay.code := by
  have hspares : Relay.code.SparesImplicit := by decide +kernel
  exact ⟨hspares, by decide +kernel, implicit_authentic 2 Relay.code hspares Relay.state .empty
    Relay.order⟩

end MeteredContract
