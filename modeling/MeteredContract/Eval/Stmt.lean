import MeteredContract.Eval.Session

/-!
Execution of statements. As for expressions, only calls of procedures need room; everything else
goes to smaller statements. A procedure sees the procedures declared before it, so the table that a
body runs with is shorter than that of its caller.
-/

set_option autoImplicit false
set_option relaxedAutoImplicit false

namespace MeteredContract

/-- A procedure that was found in a table, with the part of the table before it. -/
structure Callee where
  procedure : Component
  visible : List Component

/-- The first procedure of that name. -/
def findCallee? (name : String) : List Component → Option Callee
  | [] => none
  | p :: ps =>
    if p.name = name then some ⟨p, []⟩
    else (findCallee? name ps).map fun c ↦ { c with visible := p :: c.visible }

/-- Pair the parameters of a procedure with values in order. -/
def positionalBindings (params : List Param) (args : List Value) :
    Except Cause (List (String × Value)) :=
  match params[args.length]? with
  | some p => .error (.parameterMismatch p.name .missing)
  | none =>
    if params.length < args.length then
      .error (.parameterMismatch ("argument " ++ Decimal.ofNat (params.length + 1)) .unexpected)
    else .ok ((params.map (·.name)).zip args)

/-- How a block of statements depends on what lies outside of it: `eval` evaluates expressions, and
`invoke` runs the body of a procedure over the given bindings. -/
structure Outside where
  eval : Expr → Env → EvalM Value
  invoke : Scene → List (String × Value) → List Stmt → ExecM Unit

namespace Outside

variable (o : Outside)

open ExecM

/-- Call a procedure. It gets the sender, origin and amount of its caller. -/
def call (scene : Scene) (site : Span) (name : String) (args : List Value) : ExecM Unit := do
  match findCallee? name scene.procedures with
  | none => Run.fail (.unknownProcedure name)
  | some ⟨p, visible⟩ =>
    let own ← Run.ofExcept (positionalBindings p.params args)
    let sender ← lookup Label.sender
    let origin ← lookup Label.origin
    let amount ← lookup Label.amount
    let implicit := [(Label.sender, sender), (Label.origin, origin), (Label.amount, amount)]
    o.invoke { scene with procedures := visible, trail := scene.trail.push name (some site) }
      (implicit ++ own) p.body

def callEach (scene : Scene) (site : Span) (name : String) : List Value → ExecM Unit
  | [] => return ()
  | v :: vs => do
    o.call scene site name [v]
    callEach scene site name vs

end Outside

open ExecM

mutual

/-- Run a statement; `site` is its position. -/
def Stmt.execWith (o : Outside) (scene : Scene) : Stmt → (site : Span) → ExecM Unit
  | .load x field, _ => do
    let v ← load scene field
    bind x v
  | .remoteLoad x addr field, _ => do
    let a ← address addr
    let v ← readStore (·.remoteLoad a field)
    bind x v
  | .store field x, _ => store scene field x
  | .bind x e, _ => do
    let env ← inspect fun _ env ↦ .ok env
    let v ← onMachine (o.eval e env)
    bind x v
  | .mapUpdate map keys x, _ => mapUpdate scene map keys x
  | .mapGet x map keys fetch, _ => do
    checkField scene map
    let ks ← lookupAll keys
    let v ← readStore (·.mapGet map ks fetch)
    bind x v
  | .remoteMapGet x addr map keys fetch, _ => do
    let a ← address addr
    let ks ← lookupAll keys
    let v ← readStore (·.remoteMapGet a map ks fetch)
    bind x v
  | .readChain x query, _ => do
    let v ← readChain scene.chain query
    bind x v
  | .cast x addr t, _ => do
    let v ← cast addr t
    bind x v
  | .matching x clauses, _ => do
    let v ← lookup x
    match Pattern.firstMatch (clauses.map Prod.fst) v with
    | none => Run.fail (.noMatchingClause x)
    | some (i, binds) =>
      let env ← inspect fun _ env ↦ .ok env
      withBindings env binds (execClause o scene clauses i x)
  | .accept, _ => accept scene
  | .send x, _ => send x
  | .event x, _ => event x
  | .call name args, site => do
    let vs ← lookupAll args
    o.call scene site name vs
  | .forEach list name, site => do
    let v ← lookup list
    let items ← Run.ofExcept (elements "forall" v)
    o.callEach scene site name items
  | .throw x, _ => throwException x
  | .gas c, _ => do
    let env ← inspect fun _ env ↦ .ok env
    onMachine (EvalM.charge env c)
  | .located s st, _ => (st.execWith o scene s).annotate (·.withSpan s)
termination_by structural st => st

/-- Run statements in order. A fault gets the trail of the component that runs. -/
def execBlock (o : Outside) (scene : Scene) : List Stmt → ExecM Unit
  | [] => return ()
  | st :: rest => do
    (st.execWith o scene .dummy).annotate (·.attach scene.trail)
    execBlock o scene rest
termination_by structural block => block

/-- Run the body of the clause at position `i` of a match on `x`. -/
def execClause (o : Outside) (scene : Scene) :
    List (Pattern × List Stmt) → (i : Nat) → (x : String) → ExecM Unit
  | [], _, x => Run.fail (.noMatchingClause x)
  | (_, body) :: _, 0, _ => execBlock o scene body
  | _ :: clauses, i + 1, x => execClause o scene clauses i x
termination_by structural clauses => clauses

end

/-- What blocks find outside when calls may nest `room` deep. Without room a procedure is not begun,
and its parameters are not bound. -/
def outside (s : Setting) : (room : Nat) → Outside
  | 0 => ⟨eval s 0, fun _ _ _ ↦ Run.fail (.callDepthExceeded s.depthLimit)⟩
  | room + 1 => ⟨eval s (room + 1), fun scene bs body ↦
      withBindings scene.initEnv bs (execBlock (outside s room) scene body)⟩

def exec (s : Setting) (room : Nat) (scene : Scene) (block : List Stmt) : ExecM Unit :=
  execBlock (outside s room) scene block

end MeteredContract
