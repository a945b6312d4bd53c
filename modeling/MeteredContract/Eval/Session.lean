import MeteredContract.Admission
import MeteredContract.Chain
import MeteredContract.Eval.Expr

/-!
The state that statements work on, and the steps that statements are made of. A scene is what stays
fixed while a component runs; a session is what its statements change.
-/

set_option autoImplicit false
set_option relaxedAutoImplicit false

namespace MeteredContract

structure Scene where
  /-- Library entries and contract parameters. Procedures run over this environment. -/
  initEnv : Env
  /-- The declared fields; their values are in the store. -/
  fields : List (String × Ty)
  incoming : Tokens
  chain : Chain
  /-- The procedures that may be called. -/
  procedures : List Component
  trail : Trail

structure Session where
  machine : Machine
  env : Env
  balance : Tokens
  accepted : Bool
  emitted : List Value
  events : List Value
  store : Store

abbrev ExecM : Type → Type := Run Session

namespace ExecM

variable {α : Type}

def onMachine (x : EvalM α) : ExecM α :=
  Run.zoom (·.machine) (fun s m ↦ { s with machine := m }) x

/-- A result that only depends on the current environment. -/
def inspect (f : Arena → Env → Except Cause α) : ExecM α := Run.read fun s ↦ f s.machine.arena s.env

def lookup (x : String) : ExecM Value := inspect fun a env ↦ a.lookup env x

def lookupAll (xs : List String) : ExecM (List Value) := inspect fun a env ↦ a.lookupAll env xs

def readStore (f : Store → Except StoreFault α) : ExecM α := Run.read fun s ↦
  match f s.store with
  | .ok r => .ok r
  | .error e => .error e.cause

def writeStore (f : Store → Except StoreFault Store) : ExecM Unit := do
  let store ← readStore f
  Run.step fun s ↦ ((), { s with store })

/-- Extend the current environment. -/
def bind (x : String) (v : Value) : ExecM Unit := Run.step fun s ↦
  let (arena, env) := s.machine.arena.bind s.env x v
  ((), { s with machine.arena := arena, env })

/-- Run in another environment and come back to the current one, also after a fault. -/
def within (env : Env) (x : ExecM α) : ExecM α := fun s ↦
  let (r, t) := x { s with env }
  (r, { t with env := s.env })

/-- Run in the extension of `env` by bindings. -/
def withBindings (env : Env) (bs : List (String × Value)) (x : ExecM α) : ExecM α := do
  let inner ← onMachine (EvalM.bindAll env bs)
  within inner x

def checkField (scene : Scene) (field : String) : ExecM Unit :=
  if scene.fields.any (·.1 = field) then return ()
  else Run.fail (.unknownField field)

/-- Fields and messages hold no closures. -/
def checkPure (field : String) (v : Value) : ExecM Unit :=
  if v.isPure then return () else Run.fail (.impureValue (.field field))

def load (scene : Scene) (field : String) : ExecM Value :=
  if field = Label.balance then Run.read fun s ↦ .ok (.int (.ofTokens s.balance))
  else do
    checkField scene field
    readStore (·.load field)

def store (scene : Scene) (field x : String) : ExecM Unit :=
  if field = Label.balance then Run.fail (.unknownField field)
  else do
    checkField scene field
    let v ← lookup x
    checkPure field v
    writeStore fun s ↦ .ok (s.put field v)

def mapUpdate (scene : Scene) (map : String) (keys : List String) (x : Option String) :
    ExecM Unit := do
  checkField scene map
  let keys ← lookupAll keys
  match x with
  | none => writeStore (·.mapUpdate map keys none)
  | some x =>
    let v ← lookup x
    checkPure map v
    writeStore (·.mapUpdate map keys (some v))

/-- The bytes of an address. -/
def address (x : String) : ExecM Address := do
  match ← lookup x with
  | .bystrx b =>
    if b.length = addressWidth then return b
    else Run.fail (.invalidRemoteAddress addressWidth b.length)
  | .bystr b => Run.fail (.invalidRemoteAddress addressWidth b.length)
  | _ => Run.fail (.invalidRemoteAddress addressWidth 0)

def readChain (chain : Chain) : ChainQuery → ExecM Value
  | .blockNumber => return .bnum chain.blockNumber
  | .chainId => return .int (.ofUInt32 chain.chainId)
  | .timestamp x => do
    match ← lookup x with
    | .bnum n =>
      return .ofOption .uint64 ((chain.timestamp? n).map fun t ↦ .int (.ofUInt64 t))
    | v => Run.fail (.notAssignable x .bnum (.kind v.kind))

/-- The address as an option: absent unless the type asks something of an address and the account
there satisfies it. -/
def cast (x : String) (t : Ty) : ExecM Value := Run.read fun s ↦ do
  let v ← s.machine.arena.lookup s.env x
  match s.machine.arena.resolveTy s.env t, v with
  | .address ty, .bystrx b =>
    if b.length = addressWidth ∧ s.store.satisfies b ty then return .present .bystr20 v
    else return .absent .bystr20
  | _, _ => return .absent .bystr20

/-- Take the incoming tokens, once. -/
def accept (scene : Scene) : ExecM Unit := fun s ↦
  if s.accepted then (.ok (), s)
  else
    match s.balance.add? scene.incoming with
    | some balance => (.ok (), { s with balance, accepted := true })
    | none => (.error (.ofCause (.integerOverflow "accept")), s)

/-- The value is a message with an entry for each label. -/
def requireEntries (labels : List String) : Value → Except Cause Unit
  | .message es =>
    match labels.find? fun l ↦ !messageHas es l with
    | some l => .error (.malformedMessage l)
    | none => .ok ()
  | _ => .error (.malformedMessage (labels.headD Label.tag))

def requireAll (labels : List String) : List Value → Except Cause Unit
  | [] => .ok ()
  | v :: vs => do
    requireEntries labels v
    requireAll labels vs

def elements (operation : String) (v : Value) : Except Cause (List Value) :=
  match v.toList? with
  | some items => .ok items
  | none => .error (.nonCollection operation v.kind)

def send (x : String) : ExecM Unit := do
  let v ← lookup x
  let msgs ← Run.ofExcept (elements "send" v)
  Run.ofExcept (requireAll [Label.tag, Label.recipient, Label.amount] msgs)
  Run.step fun s ↦ ((), { s with emitted := s.emitted ++ msgs })

def event (x : String) : ExecM Unit := do
  let v ← lookup x
  Run.ofExcept (requireEntries [Label.eventName] v)
  Run.step fun s ↦ ((), { s with events := s.events ++ [v] })

def throwException : Option String → ExecM Unit
  | none => Run.fail (.thrown none)
  | some x => do
    match ← lookup x with
    | .message es => Run.fail (.thrown (some (.message es)))
    | _ => Run.fail (.malformedMessage Label.exception)

end ExecM

end MeteredContract
