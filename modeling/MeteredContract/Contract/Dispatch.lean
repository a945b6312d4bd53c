import MeteredContract.Contract.Deploy
import MeteredContract.Eval.Stmt

/-!
Dispatch of a message to the transition that its tag names. The entries of the message are matched
with the parameters of the transition before anything runs; when its body is done, the tokens sent
with outgoing messages are taken from the balance.
-/

set_option autoImplicit false
set_option relaxedAutoImplicit false

namespace MeteredContract

/-- What a message did. -/
structure Handled where
  state : ContractState
  emitted : List Value
  events : List Value
  accepted : Bool
  pending : List PendingCheck

/-- The first transition of that name, with the procedures declared before it. -/
def findTransition? (name : String) : List Component → Option Callee
  | [] => none
  | c :: cs =>
    if c.kind = .transition ∧ c.name = name then some ⟨c, []⟩
    else
      (findTransition? name cs).map fun r ↦
        if c.kind = .procedure then { r with visible := c :: r.visible } else r

/-- An amount of tokens in a message. -/
def tokensOf (v : Value) : Except Cause Tokens :=
  match v with
  | .int i =>
    match i.toTokens? with
    | some t => .ok t
    | none => .error (.notAssignable Label.amount .uint128 (.kind v.kind))
  | _ => .error (.notAssignable Label.amount .uint128 (.kind v.kind))

/-- The first tag of a message. -/
def tagOf (message : List (String × Value)) : Except Cause String :=
  match message.find? (·.1 = Label.tag) with
  | some (_, .str tag) => .ok tag
  | _ => .error (.malformedMessage Label.tag)

/-- The entries of a message that are arguments: all but tags. A message without an origin comes
from its sender. -/
def argumentsOf (message : List (String × Value)) : List (String × Value) :=
  let entries := message.filter fun e ↦ e.1 ≠ Label.tag
  match Arguments.value? entries Label.origin, Arguments.value? entries Label.sender with
  | none, some sender => entries ++ [(Label.origin, sender)]
  | _, _ => entries

/-- A message that fits a transition. -/
structure Selected where
  callee : Callee
  args : Admitted
  incoming : Tokens

/-- Sender and origin come from the chain and are bound as they are. -/
def trustedParams : List String := [Label.sender, Label.origin]

def select (m : Module) (message : List (String × Value)) : Except Cause Selected := do
  let tag ← tagOf message
  match findTransition? tag m.components with
  | none => throw (.noMatchingTransition tag)
  | some callee =>
    let args ← admitArguments callee.procedure.allParams (argumentsOf message) trustedParams
    match Arguments.value? args.named Label.amount with
    | none => return ⟨callee, args, .zero⟩
    | some v => return ⟨callee, args, ← tokensOf v⟩

/-- The tokens sent with messages, on top of `acc`. -/
def sentTokens : (acc : Tokens) → List Value → Except Cause Tokens
  | acc, [] => .ok acc
  | acc, .message es :: rest =>
    match messageValue? es Label.amount with
    | none => .error (.malformedMessage Label.amount)
    | some v => do
      let amount ← tokensOf v
      match acc.add? amount with
      | none => throw (.integerOverflow "send")
      | some total => sentTokens total rest
  | _, _ :: _ => .error (.malformedMessage Label.amount)

def outgoingNote (n : Nat) : String := Decimal.ofNat n ++ " outgoing message(s)"

/-- Take what was sent from the balance. -/
def settle (balance : Tokens) (emitted : List Value) : Except Fault Tokens :=
  match sentTokens .zero emitted with
  | .error c => .error (.ofCause c)
  | .ok sent =>
    match balance.sub? sent with
    | some rest => .ok rest
    | none =>
      .error ((Fault.ofCause (.insufficientBalance sent.val balance.val)).withNote
        (outgoingNote emitted.length))

/-- The scene of a transition: no procedure is active yet. -/
def Selected.scene (sel : Selected) (state : ContractState) (chain : Chain) : Scene where
  initEnv := state.env
  fields := state.fields
  incoming := sel.incoming
  chain := chain
  procedures := sel.callee.visible
  trail := Trail.push [] sel.callee.procedure.name none

/-- The closures that are there when a transition starts: in the store, where earlier messages may
have left them, in the scope of the contract, and in the arguments. -/
def Selected.closuresInUse (sel : Selected) (state : ContractState) (store : Store) :
    List ClosureId :=
  store.values.flatMap Value.closureIds ++ state.frames.toList.flatMap Frame.closureIds ++
    sel.args.named.flatMap (·.2.closureIds)

/-- The session in which a transition starts, with its parameters bound. -/
def Selected.session (sel : Selected) (state : ContractState) (store : Store) (gas : Nat) :
    Session :=
  let frames := (Arena.ofFrozen state.frames).avoiding (sel.closuresInUse state store)
  let (arena, env) := frames.bindAll state.env sel.args.named
  ⟨⟨arena, gas⟩, env, state.balance, false, [], [], store⟩

/-- Handle a message with a budget of gas. What a failing run wrote to the store stays written. -/
def handle (depthLimit : Nat) (m : Module) (state : ContractState) (message : List (String × Value))
    (chain : Chain) (store : Store) (gas : Nat) : Outcome Handled :=
  match select m message with
  | .error c => ⟨.error (.ofCause c), gas, store⟩
  | .ok sel =>
    match exec ⟨state.datatypes, depthLimit⟩ depthLimit (sel.scene state chain)
        sel.callee.procedure.body (sel.session state store gas) with
    | (.error f, t) => ⟨.error f, t.machine.gas, t.store⟩
    | (.ok (), t) =>
      let result := (settle t.balance t.emitted).map fun balance ↦
        ⟨{ state with balance }, t.emitted, t.events, t.accepted, sel.args.pending⟩
      ⟨result, t.machine.gas, t.store⟩

end MeteredContract
