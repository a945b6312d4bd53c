import MeteredContract.Proofs.Scope.Growth
import Mathlib.Logic.Relation

/-!
The stages that an evaluation goes through. A stage is a task that is about to be carried out, with
the room for calls and the machine it starts from: an expression, the application of a value to the
rest of its arguments, or the entry into a body. `Stage.Leads` takes a stage to those that its run
comes to next, `Stage.Reaches` is its closure.
-/

set_option autoImplicit false
set_option relaxedAutoImplicit false

namespace MeteredContract

/-- A part of an evaluation that runs as a unit. -/
inductive Task where
  | expr (e : Expr) (env : Env)
  /-- The application of a value to variables, one after the other. -/
  | apply (env : Env) (f : Value) (args : List String)
  /-- The instantiation of a value at types, one after the other. -/
  | tyApply (env : Env) (f : Value) (targs : List Ty)
  /-- The entry into a body, with the frame that binds its parameter. -/
  | body (frame : Frame) (e : Expr)

namespace Task

def run (s : Setting) (room : Nat) : Task → EvalM Value
  | .expr e env => eval s room e env
  | .apply env f args => (enter s room).applyAll env f args
  | .tyApply env f targs => (enter s room).tyApplyAll env f targs
  | .body frame e => enter s room frame e

theorem grows_run (s : Setting) (room : Nat) (task : Task) :
    Run.Keeps Machine.Grows (task.run s room) := by
  cases task with
  | expr e env => exact grows_eval s room e env
  | apply env f args => exact Enter.grows_applyAll (grows_enter s room) env f args
  | tyApply env f targs => exact Enter.grows_tyApplyAll (grows_enter s room) env f targs
  | body frame e => exact grows_enter s room frame e

end Task

structure Stage where
  room : Nat
  task : Task
  machine : Machine

/-- The machine with an arena and a scope in it. -/
def Machine.scoped (m : Machine) (scope : Arena × Env) : Machine := { m with arena := scope.1 }

namespace Stage

/-- How the stage runs: the result and the machine that it leaves. -/
def run (s : Setting) (p : Stage) : Except Fault Value × Machine := p.task.run s p.room p.machine

/-- The run of the first stage comes to the second as a part of it. -/
inductive Leads (s : Setting) : Stage → Stage → Prop
  | rhs (room : Nat) (x : String) (declared : Option Ty) (rhs body : Expr) (env : Env)
    (m : Machine) :
    Leads s ⟨room, .expr (.letIn x declared rhs body) env, m⟩ ⟨room, .expr rhs env, m⟩
  | letBody {room : Nat} {x : String} {declared : Option Ty} {rhs body : Expr} {env : Env}
    {m m' : Machine} {v : Value} (hrhs : eval s room rhs env m = (.ok v, m')) :
    Leads s ⟨room, .expr (.letIn x declared rhs body) env, m⟩
      ⟨room, .expr body (m'.arena.bind env x v).2, m'.scoped (m'.arena.bind env x v)⟩
  | app {room : Nat} {f : String} {args : List String} {env : Env} {m : Machine} {v : Value}
    (hf : m.arena.lookup env f = .ok v) :
    Leads s ⟨room, .expr (.app f args) env, m⟩ ⟨room, .apply env v args, m⟩
  | clause {room : Nat} {x : String} {clauses : List (Pattern × Expr)} {env : Env} {m : Machine}
    {v : Value} {i : Nat} {binds : List (String × Value)} {clause : Pattern × Expr}
    (hv : m.arena.lookup env x = .ok v)
    (hmatch : Pattern.firstMatch (clauses.map Prod.fst) v = some (i, binds))
    (hclause : clauses[i]? = some clause) :
    Leads s ⟨room, .expr (.matching x clauses) env, m⟩
      ⟨room, .expr clause.2 (m.arena.bindAll env binds).2,
        m.scoped (m.arena.bindAll env binds)⟩
  | tyApp {room : Nat} {f : String} {targs : List Ty} {env : Env} {m : Machine} {v : Value}
    (hf : m.arena.lookup env f = .ok v) :
    Leads s ⟨room, .expr (.tyApp f targs) env, m⟩ ⟨room, .tyApply env v targs, m⟩
  | fixBody (room : Nat) (name : String) (ty : Ty) (body : Expr) (env : Env) (m : Machine) :
    Leads s ⟨room, .expr (.fix name ty body) env, m⟩
      ⟨room, .expr body (m.arena.bindPending env name).2,
        m.scoped (m.arena.bindPending env name)⟩
  | charged {room : Nat} {c : Charge} {body : Expr} {env : Env} {m m' : Machine}
    (hpaid : EvalM.charge env c m = (.ok (), m')) :
    Leads s ⟨room, .expr (.gas c body) env, m⟩ ⟨room, .expr body env, m'⟩
  | located (room : Nat) (span : Span) (e : Expr) (env : Env) (m : Machine) :
    Leads s ⟨room, .expr (.located span e) env, m⟩ ⟨room, .expr e env, m⟩
  | argument {room : Nat} {env scope : Env} {id : ClosureId} {param x : String} {ty : Ty}
    {body : Expr} {xs : List String} {m : Machine} {arg : Value}
    (hx : m.arena.lookup env x = .ok arg) :
    Leads s ⟨room, .apply env (.closure id param ty body scope) (x :: xs), m⟩
      ⟨room, .body ⟨param, .value arg, scope⟩ body, m⟩
  | applied {room : Nat} {env : Env} {f g arg : Value} {x : String} {xs : List String}
    {m m' : Machine} (hx : m.arena.lookup env x = .ok arg)
    (hf : (enter s room).apply f arg m = (.ok g, m')) :
    Leads s ⟨room, .apply env f (x :: xs), m⟩ ⟨room, .apply env g xs, m'⟩
  | tyArgument (room : Nat) (env scope : Env) (id : ClosureId) (tvar : String) (body : Expr)
    (t : Ty) (ts : List Ty) (m : Machine) :
    Leads s ⟨room, .tyApply env (.tyClosure id tvar body scope) (t :: ts), m⟩
      ⟨room, .body ⟨tvar, .type (m.arena.resolveTy env t), scope⟩ body, m⟩
  | instantiated {room : Nat} {env : Env} {f g : Value} {t : Ty} {ts : List Ty}
    {m m' : Machine} (hf : (enter s room).tyApply f (m.arena.resolveTy env t) m = (.ok g, m')) :
    Leads s ⟨room, .tyApply env f (t :: ts), m⟩ ⟨room, .tyApply env g ts, m'⟩
  | entered (room : Nat) (frame : Frame) (e : Expr) (m : Machine) :
    Leads s ⟨room + 1, .body frame e, m⟩
      ⟨room, .expr e (m.arena.push frame).2, m.scoped (m.arena.push frame)⟩

def Reaches (s : Setting) : Stage → Stage → Prop := Relation.ReflTransGen (Leads s)

variable {s : Setting} {p q : Stage}

theorem grows_run (s : Setting) (p : Stage) : p.machine.Grows (p.run s).2 :=
  p.task.grows_run s p.room p.machine

/-- Up to the start of a stage that it leads to, a stage only adds frames. -/
theorem Leads.grows (h : Leads s p q) : p.machine.Grows q.machine := by
  cases h with
  | letBody hrhs => exact ((grows_eval s _ _ _).of_eq hrhs).trans (Arena.grows_push _ _)
  | clause => exact Arena.grows_bindAll _ _ _
  | fixBody | entered => exact Arena.grows_push _ _
  | charged hpaid => exact (EvalM.grows_charge _ _).of_eq hpaid
  | applied hx hf => exact (Enter.grows_apply (grows_enter s _) _ _).of_eq hf
  | instantiated hf => exact (Enter.grows_tyApply (grows_enter s _) _ _).of_eq hf
  | _ => exact Arena.Grows.refl _

/-! ### How a stage ends -/

section Ends

variable {room : Nat} {env : Env} {m m' : Machine}

theorem lookup_apply {x : String} {v : Value} (h : m.arena.lookup env x = .ok v) :
    EvalM.lookup env x m = (.ok v, m) := by
  rw [EvalM.lookup, EvalM.inspect, Run.read, h]

theorem run_let (x : String) (declared : Option Ty) (rhs body : Expr) :
    run s ⟨room, .expr (.letIn x declared rhs body) env, m⟩ =
      (eval s room rhs env >>= fun v ↦ do
        let inner ← EvalM.bind env x v
        eval s room body inner) m := by
  show eval s room (.letIn x declared rhs body) env m = _
  rw [eval, Expr.evalWith]
  rfl

theorem run_letBody {x : String} {declared : Option Ty} {rhs body : Expr} {v : Value}
    (hrhs : eval s room rhs env m = (.ok v, m')) :
    run s ⟨room, .expr (.letIn x declared rhs body) env, m⟩ =
      run s ⟨room, .expr body (m'.arena.bind env x v).2, m'.scoped (m'.arena.bind env x v)⟩ := by
  rw [run_let, Run.bind_of_ok hrhs]
  rfl

theorem run_app {f : String} {args : List String} {v : Value}
    (hf : m.arena.lookup env f = .ok v) :
    run s ⟨room, .expr (.app f args) env, m⟩ = run s ⟨room, .apply env v args, m⟩ := by
  show eval s room (.app f args) env m = _
  rw [eval, Expr.evalWith, Run.bind_of_ok (lookup_apply hf)]
  rfl

theorem run_clause {x : String} {clauses : List (Pattern × Expr)} {v : Value} {i : Nat}
    {binds : List (String × Value)} {clause : Pattern × Expr}
    (hv : m.arena.lookup env x = .ok v)
    (hmatch : Pattern.firstMatch (clauses.map Prod.fst) v = some (i, binds))
    (hclause : clauses[i]? = some clause) :
    run s ⟨room, .expr (.matching x clauses) env, m⟩ =
      run s ⟨room, .expr clause.2 (m.arena.bindAll env binds).2,
        m.scoped (m.arena.bindAll env binds)⟩ := by
  show eval s room (.matching x clauses) env m = _
  rw [eval, Expr.evalWith, Run.bind_of_ok (lookup_apply hv)]
  simp only [hmatch, evalClause_eq x hclause]
  rfl

theorem run_tyApp {f : String} {targs : List Ty} {v : Value}
    (hf : m.arena.lookup env f = .ok v) :
    run s ⟨room, .expr (.tyApp f targs) env, m⟩ = run s ⟨room, .tyApply env v targs, m⟩ := by
  show eval s room (.tyApp f targs) env m = _
  rw [eval, Expr.evalWith, Run.bind_of_ok (lookup_apply hf)]
  rfl

/-- A recursive binding runs its body in a scope of its own and fills in the value. -/
theorem run_fix (name : String) (ty : Ty) (body : Expr) :
    run s ⟨room, .expr (.fix name ty body) env, m⟩ =
      (eval s room body (m.arena.bindPending env name).2 >>= fun v ↦ do
        EvalM.setTop (m.arena.bindPending env name).2 v
        return v) (m.scoped (m.arena.bindPending env name)) := by
  show eval s room (.fix name ty body) env m = _
  rw [eval, Expr.evalWith]
  rfl

theorem run_charged {c : Charge} {body : Expr} (hpaid : EvalM.charge env c m = (.ok (), m')) :
    run s ⟨room, .expr (.gas c body) env, m⟩ = run s ⟨room, .expr body env, m'⟩ := by
  show eval s room (.gas c body) env m = _
  rw [eval, Expr.evalWith, Run.bind_of_ok hpaid]
  rfl

/-- An application runs its first argument, and then the others on what comes of it. -/
theorem run_apply {f arg : Value} {x : String} (xs : List String)
    (hx : m.arena.lookup env x = .ok arg) :
    run s ⟨room, .apply env f (x :: xs), m⟩ =
      ((enter s room).apply f arg >>= fun g ↦ (enter s room).applyAll env g xs) m := by
  show (enter s room).applyAll env f (x :: xs) m = _
  rw [Enter.applyAll, Run.bind_of_ok (lookup_apply hx)]

theorem run_tyApply (f : Value) (t : Ty) (ts : List Ty) :
    run s ⟨room, .tyApply env f (t :: ts), m⟩ =
      ((enter s room).tyApply f (m.arena.resolveTy env t) >>= fun g ↦
        (enter s room).tyApplyAll env g ts) m := by
  show (enter s room).tyApplyAll env f (t :: ts) m = _
  rw [Enter.tyApplyAll]
  rfl

theorem run_entered (frame : Frame) (e : Expr) :
    run s ⟨room + 1, .body frame e, m⟩ =
      run s ⟨room, .expr e (m.arena.push frame).2, m.scoped (m.arena.push frame)⟩ := rfl

end Ends

/-- The frame of a recursive binding still waits for its value when the body is done. -/
theorem frame?_fixBody (s : Setting) (room : Nat) (name : String) (body : Expr) (env : Env)
    (m : Machine) :
    (eval s room body (m.arena.bindPending env name).2
      (m.scoped (m.arena.bindPending env name))).2.arena.frame? m.arena.size =
        some ⟨name, .pending, env⟩ := by
  refine (grows_eval s room body _ _).frame?_eq ?_
  show (m.arena.push _).1.frame? m.arena.size = _
  rw [Arena.frame?_push, if_pos rfl]

/-- From the end of a stage that it leads to up to its own end, a stage fills in at most frames that
are pending. -/
theorem Leads.evolves (h : Leads s p q) : (q.run s).2.arena.Evolves (p.run s).2.arena := by
  cases h with
  | rhs room x declared rhs body env m =>
    have hrest : ∀ v, Run.Keeps Machine.Grows (do
        let inner ← EvalM.bind env x v
        eval s room body inner) := fun v ↦
      .bind (EvalM.grows_extend fun a ↦ a.grows_push _) fun inner ↦ grows_eval s room body inner
    rw [run_let]
    exact (Run.Keeps.from_bind (R := Machine.Grows) (eval s room rhs env) hrest m).evolves
  | letBody hrhs =>
    rw [run_letBody hrhs]
    exact (Arena.Grows.refl _).evolves
  | app hf =>
    rw [run_app hf]
    exact (Arena.Grows.refl _).evolves
  | clause hv hmatch hclause =>
    rw [run_clause hv hmatch hclause]
    exact (Arena.Grows.refl _).evolves
  | tyApp hf =>
    rw [run_tyApp hf]
    exact (Arena.Grows.refl _).evolves
  | fixBody room name ty body env m =>
    have hpending := frame?_fixBody s room name body env m
    rw [run_fix]
    show (eval s room body _ _).2.arena.Evolves _
    cases hbody : eval s room body (m.arena.bindPending env name).2
        (m.scoped (m.arena.bindPending env name)) with
    | mk result m' =>
      rw [hbody] at hpending
      cases result with
      | error e =>
        rw [Run.bind_of_error hbody]
        exact (Arena.Grows.refl _).evolves
      | ok v =>
        rw [Run.bind_of_ok hbody]
        exact Arena.evolves_set hpending rfl v
  | charged hpaid =>
    rw [run_charged hpaid]
    exact (Arena.Grows.refl _).evolves
  | located room span e env m =>
    have hrun : (run s ⟨room, .expr (.located span e) env, m⟩).2 =
        (run s ⟨room, .expr e env, m⟩).2 := by
      show (eval s room (.located span e) env m).2 = _
      rw [eval, Expr.evalWith, Run.annotate_snd]
      rfl
    rw [hrun]
    exact (Arena.Grows.refl _).evolves
  | @argument room env scope id param x ty body xs m arg hx =>
    have hrest := fun g ↦ Enter.grows_applyAll (grows_enter s room) env g xs
    rw [run_apply xs hx]
    exact (Run.Keeps.from_bind (R := Machine.Grows) _ hrest m).evolves
  | applied hx hf =>
    rw [run_apply _ hx, Run.bind_of_ok hf]
    exact (Arena.Grows.refl _).evolves
  | tyArgument room env scope id tvar body t ts m =>
    have hrest := fun g ↦ Enter.grows_tyApplyAll (grows_enter s room) env g ts
    rw [run_tyApply]
    exact (Run.Keeps.from_bind (R := Machine.Grows) _ hrest m).evolves
  | instantiated hf =>
    rw [run_tyApply, Run.bind_of_ok hf]
    exact (Arena.Grows.refl _).evolves
  | entered room frame e m =>
    rw [run_entered]
    exact (Arena.Grows.refl _).evolves

end Stage

end MeteredContract
