import MeteredContract.Eval.Atom
import MeteredContract.Eval.Run
import MeteredContract.Gas.Meter
import MeteredContract.Gas.Resolve
import MeteredContract.Value.Match

/-!
Evaluation of expressions. A machine holds the frames of all environments and the gas that is left.

Calls are what makes evaluation deep: entering the body of a closure or type closure needs room, of
which there is a limited amount, and every other step goes to a smaller expression. So
`Expr.evalWith` recurses on the expression and takes the way into a body as a parameter, and `enter`
recurses on the room.
-/

set_option autoImplicit false
set_option relaxedAutoImplicit false

namespace MeteredContract

structure Machine where
  arena : Arena
  gas : Nat

abbrev EvalM : Type → Type := Run Machine

/-- What evaluation knows of the program around it. -/
structure Setting where
  datatypes : Datatypes
  /-- How deep calls may nest. -/
  depthLimit : Nat

namespace EvalM

/-- A result that only depends on the environment. -/
def inspect {α : Type} (f : Arena → Except Cause α) : EvalM α := Run.read fun m ↦ f m.arena

def lookup (env : Env) (x : String) : EvalM Value := inspect (·.lookup env x)

/-- Change the arena and get a new environment. -/
def extend (f : Arena → Arena × Env) : EvalM Env := Run.step fun ⟨arena, gas⟩ ↦
  let (arena, env) := f arena
  (env, ⟨arena, gas⟩)

def bind (env : Env) (x : String) (v : Value) : EvalM Env := extend (·.bind env x v)

def bindAll (env : Env) (bs : List (String × Value)) : EvalM Env := extend (·.bindAll env bs)

/-- Bind the innermost name of an environment to a value. -/
def setTop (env : Env) (v : Value) : EvalM Unit :=
  Run.step fun ⟨arena, gas⟩ ↦ ((), ⟨arena.set env v, gas⟩)

/-- Pay an amount of gas. -/
def pay (amount : Nat) : EvalM Unit := fun m ↦
  match Gas.pay m.gas amount with
  | .ok rest => (.ok (), { m with gas := rest })
  | .error c => (.error (.ofCause c), m)

/-- Resolve a charge in an environment and pay it. -/
def charge (env : Env) (c : Charge) : EvalM Unit := do
  let amount ← inspect fun a ↦ Gas.resolve (a.lookup env) c
  pay amount

/-- Choose a primitive by its arguments, pay its price, run it. -/
def primitive (env : Env) (op : String) (args : List String) : EvalM Value := do
  let call ← inspect (·.primitiveCall env op args)
  charge env call.price
  Run.ofExcept (call.op.run call.args call.ret)

end EvalM

open EvalM

/-- How a body is entered: with the frame that binds its parameter. -/
abbrev Enter : Type := Frame → Expr → EvalM Value

namespace Enter

variable (enter : Enter)

def apply (f arg : Value) : EvalM Value :=
  match f with
  | .closure _ param _ body env => enter ⟨param, .value arg, env⟩ body
  | v => Run.fail (.notAFunction v.kind)

def tyApply (f : Value) (t : Ty) : EvalM Value :=
  match f with
  | .tyClosure _ tvar body env => enter ⟨tvar, .type t, env⟩ body
  | v => Run.fail (.notATypeFunction v.kind)

/-- Apply a value to variables, one after the other. -/
def applyAll (env : Env) : Value → List String → EvalM Value
  | f, [] => return f
  | f, x :: xs => do
    let arg ← lookup env x
    let g ← enter.apply f arg
    applyAll env g xs

def tyApplyAll (env : Env) : Value → List Ty → EvalM Value
  | f, [] => return f
  | f, t :: ts => do
    let t ← inspect fun a ↦ .ok (a.resolveTy env t)
    let g ← enter.tyApply f t
    tyApplyAll env g ts

end Enter

mutual

/-- Evaluate an expression in an environment; `enter` says how calls go on. -/
def Expr.evalWith (types : Datatypes) (enter : Enter) : Expr → Env → EvalM Value
  | .literal l, env => inspect (·.literal env l)
  | .var x, env => lookup env x
  | .letIn x _ rhs body, env => do
    let v ← rhs.evalWith types enter env
    let inner ← bind env x v
    body.evalWith types enter inner
  | .message entries, env => do
    let es ← inspect (·.messageEntries env entries)
    return .message es
  | .fn param t body, env =>
    inspect fun a ↦ .ok (.closure a.nextId param (a.resolveTy env t) body env)
  | .app f args, env => do
    let v ← lookup env f
    enter.applyAll env v args
  | .construct name targs args, env => inspect (·.construct env types name targs args)
  | .matching x clauses, env => do
    let v ← lookup env x
    match Pattern.firstMatch (clauses.map Prod.fst) v with
    | none => Run.fail (.noMatchingClause x)
    | some (i, binds) =>
      let inner ← bindAll env binds
      evalClause types enter clauses i x inner
  | .builtin op _ args, env => primitive env op args
  | .tyFn tvar body, env => inspect fun a ↦ .ok (.tyClosure a.nextId tvar body env)
  | .tyApp f targs, env => do
    let v ← lookup env f
    enter.tyApplyAll env v targs
  | .fix name _ body, env => do
    let inner ← extend (·.bindPending env name)
    let v ← body.evalWith types enter inner
    setTop inner v
    return v
  | .gas c body, env => do
    charge env c
    body.evalWith types enter env
  | .located s e, env => (e.evalWith types enter env).annotate (·.withSpan s)
termination_by structural e => e

/-- Evaluate the body of the clause at position `i` of a match on `x`. -/
def evalClause (types : Datatypes) (enter : Enter) :
    List (Pattern × Expr) → (i : Nat) → (x : String) → Env → EvalM Value
  | [], _, x, _ => Run.fail (.noMatchingClause x)
  | (_, body) :: _, 0, _, env => body.evalWith types enter env
  | _ :: clauses, i + 1, x, env => evalClause types enter clauses i x env
termination_by structural clauses => clauses

end

/-- The way into a body with room for calls that nest `room` deep. Without room the call is not
begun, and its parameter is not bound. -/
def enter (s : Setting) : (room : Nat) → Enter
  | 0 => fun _ _ ↦ Run.fail (.callDepthExceeded s.depthLimit)
  | room + 1 => fun f body ↦ do
    let env ← extend (·.push f)
    body.evalWith s.datatypes (enter s room) env

def eval (s : Setting) (room : Nat) (e : Expr) (env : Env) : EvalM Value :=
  e.evalWith s.datatypes (enter s room) env

/-- Evaluate an expression over bindings, with the standard datatypes. -/
def evalExpr (depthLimit : Nat) (bs : List (String × Value)) (e : Expr) (gas : Nat) :
    Except Fault Value × Machine :=
  let (arena, env) := Arena.empty.bindAll .empty bs
  eval ⟨.standard, depthLimit⟩ depthLimit e env ⟨arena, gas⟩

end MeteredContract
