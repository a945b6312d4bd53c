import MeteredContract.Contract.Arguments
import MeteredContract.Eval.Expr

/-!
Deployment of a contract: its libraries are evaluated, its parameters bound, its constraint checked,
and the initial values of its fields written to the store. What remains is the state of the contract
between messages, whose environment no message changes.
-/

set_option autoImplicit false
set_option relaxedAutoImplicit false

namespace MeteredContract

/-- How a run ended, with the gas and the store that it left. -/
structure Outcome (α : Type) where
  result : Except Fault α
  gas : Nat
  store : Store

def Outcome.isOutOfGas {α : Type} (o : Outcome α) : Bool :=
  match o.result with
  | .error f => f.isOutOfGas
  | .ok _ => false

/-- A deployed contract between messages. -/
structure ContractState where
  /-- Library entries and contract parameters. -/
  env : Env
  frames : Array Frame
  fields : List (String × Ty)
  balance : Tokens
  datatypes : Datatypes

/-- A deployed contract and the checks to be made on the chain before the deployment counts. -/
structure Deployed where
  state : ContractState
  pending : List PendingCheck

/-- Evaluate library entries, each seeing those before it. A value costs its size. -/
def loadEntries (depthLimit : Nat) :
    List LibraryEntry → Datatypes → Env → EvalM (Datatypes × Env)
  | [], types, env => return (types, env)
  | .datatype name tparams constructors :: rest, types, env =>
    loadEntries depthLimit rest (types.register ⟨name, tparams, constructors⟩) env
  | .value x e :: rest, types, env => do
    let v ← eval ⟨types, depthLimit⟩ depthLimit e env
    EvalM.pay v.size
    let inner ← EvalM.bind env x v
    loadEntries depthLimit rest types inner

/-- The constraint of a contract must evaluate to true. -/
def checkConstraint (s : Setting) (env : Env) : Option Expr → EvalM Unit
  | none => return ()
  | some e => do
    let v ← eval s s.depthLimit e env
    if v.toBool? = some true then return ()
    else (Run.fail .constraintViolation).annotate (·.withSpan e.span)

/-- The machine of a deployment and the store that it fills. -/
structure Deployment where
  machine : Machine
  store : Store

abbrev DeployM : Type → Type := Run Deployment

namespace DeployM

def onMachine {α : Type} (x : EvalM α) : DeployM α :=
  Run.zoom (·.machine) (fun d m ↦ { d with machine := m }) x

/-- Evaluate the initial value of a field and store it. -/
def initField (s : Setting) (env : Env) (f : FieldDef) : DeployM Unit := do
  let v ← onMachine (eval s s.depthLimit f.init env)
  if v.isPure then Run.step fun d ↦ ((), { d with store := d.store.put f.name v })
  else (Run.fail (.impureValue (.field f.name))).annotate (·.withSpan f.init.span)

def initFields (s : Setting) (env : Env) : List FieldDef → DeployM Unit
  | [] => return ()
  | f :: fs => do
    initField s env f
    initFields s env fs

def deploy (depthLimit : Nat) (m : Module) (args : List (String × Value)) (balance : Tokens) :
    DeployM Deployed := do
  let entries := m.libraries.flatMap (·.entries)
  let (types, libEnv) ← onMachine (loadEntries depthLimit entries .standard .empty)
  let admitted ← Run.ofExcept (admitArguments m.allParams args [])
  let env ← onMachine (EvalM.bindAll libEnv admitted.named)
  let s : Setting := ⟨types, depthLimit⟩
  onMachine (checkConstraint s env m.constraint)
  initFields s env m.fields
  let frames ← Run.read fun d ↦ .ok d.machine.arena.freeze
  let fields := m.fields.map fun f ↦ (f.name, f.ty)
  return ⟨⟨env, frames, fields, balance, types⟩, admitted.pending⟩

end DeployM

/-- Deploy a module with a budget of gas. -/
def deploy (depthLimit : Nat) (m : Module) (args : List (String × Value)) (balance : Tokens)
    (store : Store) (gas : Nat) : Outcome Deployed :=
  let (result, d) := DeployM.deploy depthLimit m args balance ⟨⟨.empty, gas⟩, store⟩
  ⟨result, d.machine.gas, d.store⟩

end MeteredContract
