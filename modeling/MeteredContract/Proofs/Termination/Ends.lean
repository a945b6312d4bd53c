import MeteredContract.Proofs.Metering.Exact
import MeteredContract.Proofs.Termination.Block

/-!
Every run ends. The recursion of evaluation and of execution is well-founded (`EvaluationEnds`,
`ExecutionEnds`), the walks along frames reach the empty environment (`LookupEnds`), and so
expressions, deployments and messages are handled in finitely many unfoldings (`RunsEnd`). What
would go on without end runs into the limit on the depth of calls or out of gas. `evaluation_ends`
collects this.
-/

set_option autoImplicit false
set_option relaxedAutoImplicit false

namespace MeteredContract

/-- Evaluation is the solution of a recursive equation whose calls go down. -/
structure EvaluationEnds (s : Setting) : Prop where
  solves : (evalAt s).unfold s.datatypes s.guard = evalAt s
  only : ∀ self : Evaluator, self.unfold s.datatypes s.guard = self → self = evalAt s
  wellFounded : WellFounded (Below s.depthLimit)
  /-- In every arena, an unfolding depends on the evaluator at what is below alone. -/
  descends : ∀ (self self' : Evaluator) (depth : Nat) (e : Expr),
    self.AgreeBelow s.depthLimit self' depth e →
      self.unfold s.datatypes s.guard depth e = self'.unfold s.datatypes s.guard depth e
  /-- No more unfoldings are needed than the measure says. -/
  bounded : ∀ (rest : Evaluator) (r depth : Nat) (e : Expr) (env : Env) (m : Machine),
    m.arena.unfoldings s.depthLimit depth e ≤ r →
      (Evaluator.unfold s.datatypes s.guard)^[r] rest depth e env m = evalAt s depth e env m

/-- Execution is the solution of a recursive equation whose calls go down. -/
structure ExecutionEnds (s : Setting) : Prop where
  solves : (execAt s).unfold s = execAt s
  only : ∀ self : Executor, self.unfold s = self → self = execAt s
  wellFounded : WellFounded BlockBelow
  /-- Procedures run with a shorter table, clauses are smaller. -/
  descends : ∀ (self self' : Executor) (scene : Scene) (block : List Stmt),
    (∀ depth scene' block', BlockBelow (scene', block') (scene, block) →
      self depth scene' block' = self' depth scene' block') →
      ∀ depth, self.unfold s depth scene block = self'.unfold s depth scene block
  bounded : ∀ (rest : Executor) (r depth : Nat) (scene : Scene) (block : List Stmt),
    blockUnfoldings (tableSize scene.procedures) scene block ≤ r →
      (Executor.unfold s)^[r] rest depth scene block = execAt s depth scene block

theorem evaluationEnds (s : Setting) : EvaluationEnds s where
  solves := evalAt_unfold s
  only _ h := eq_evalAt_of_unfold h
  wellFounded := wellFounded_below s.depthLimit
  descends _ _ _ _ h := Evaluator.unfold_congr h
  bounded rest _ _ _ env m hr := iterate_unfold s rest m hr env

theorem executionEnds (s : Setting) : ExecutionEnds s where
  solves := execAt_unfold s
  only _ h := eq_execAt_of_unfold h
  wellFounded := wellFounded_blockBelow
  descends _ _ _ _ h := Executor.unfold_congr fun depth scene' block' hentered ↦
    h depth scene' block' hentered.below
  bounded rest _ depth _ _ hr := Executor.iterate_unfold s rest hr depth

/-! ### Lookups -/

/-- Lookups from every environment of the arena come to the end of its frames. -/
def LookupEnds (a : Arena) : Prop :=
  ∀ env : Env, env.InRange a.size → a.Chain env (a.chain env) ∧ (a.chain env).length ≤ a.size

theorem lookupEnds_eval {a : Arena} (ha : a.Sound .handles) {env : Env} (henv : env.InRange a.size)
    (s : Setting) (room : Nat) (e : Expr) (gas : Nat) :
    LookupEnds (eval s room e env ⟨a, gas⟩).2.arena := by
  have hsafe : EvalM.SafeValue .handles a.size (eval s room e env) := safe_eval s room trivial henv
  obtain ⟨hsound, -, -⟩ := hsafe ⟨a, gas⟩ ha (Nat.le_refl _)
  exact fun _ henv' ↦ Arena.chain_complete hsound henv'

/-! ### Runs without end -/

/-- Without a limit on the depth of calls, evaluation comes to this result after finitely many
unfoldings. -/
def EndsFreely (types : Datatypes) (e : Expr) (env : Env) (m : Machine)
    (result : Except Fault Value × Machine) : Prop :=
  ∃ r, ∀ rest : Evaluator, (Evaluator.unfold types .none)^[r] rest 0 e env m = result

/-- Without a limit on the depth of calls, evaluation does not come to an end with any budget of
gas, unless it runs out of it. -/
def Endless (types : Datatypes) (e : Expr) (env : Env) (arena : Arena) : Prop :=
  ∀ gas result, EndsFreely types e env ⟨arena, gas⟩ result → outOfGas result.1 = true

theorem Endless.fails {s : Setting} {e : Expr} {env : Env} {m : Machine}
    (h : Endless s.datatypes e env m.arena) :
    ∃ f, (evalAt s 0 e env m).1 = .error f ∧
      (f.cause = .callDepthExceeded s.depthLimit ∨ f.isOutOfGas = true) := by
  by_cases hcut : ∃ f, (evalAt s 0 e env m).1 = .error f ∧
      f.cause = .callDepthExceeded s.depthLimit
  · obtain ⟨f, hf, hcause⟩ := hcut
    exact ⟨f, hf, .inl hcause⟩
  · -- the limit was not hit, so the same happens without a limit
    have hends : EndsFreely s.datatypes e env m (evalAt s 0 e env m) :=
      ⟨_, fun rest ↦ (iterate_unfold_none s rest m (Nat.le_refl _) env).resolve_right hcut⟩
    have hout := h m.gas _ hends
    cases hresult : (evalAt s 0 e env m).1 with
    | ok v =>
      rw [hresult] at hout
      cases hout
    | error f =>
      rw [hresult] at hout
      exact ⟨f, rfl, .inr hout⟩

namespace SelfApplication

/-- A variable applied to itself. -/
def twice : Expr := .app "x" ["x"]

/-- The function that applies its argument to itself, applied to itself. -/
def code (t : Ty) : Expr := .letIn "x" none (.fn "x" t twice) twice

/-- The evaluator that fails with the cause, whatever it evaluates. -/
def failing (c : Cause) : Evaluator := fun _ _ _ ↦ Run.fail c

variable (types : Datatypes) (c : Cause)

theorem iterate_twice (r : Nat) {depth : Nat} {env scope : Env} {m : Machine} {id : ClosureId}
    {t : Ty} (hx : m.arena.lookup env "x" = .ok (.closure id "x" t twice scope)) :
    ((Evaluator.unfold types .none)^[r] (failing c) depth twice env m).1 = .error (.ofCause c) := by
  -- Each unfolding leads to the same application one deeper, so the evaluator at the end decides.
  induction r generalizing depth env m with
  | zero => rfl
  | succ r ih =>
    have hlookup : EvalM.lookup env "x" m = (.ok (.closure id "x" t twice scope), m) := by
      rw [EvalM.lookup, EvalM.inspect, Run.read, hx]
    have hbound := Arena.lookup_bind m.arena scope "x" (.closure id "x" t twice scope)
    rw [Function.iterate_succ_apply', twice, Evaluator.unfold, Run.bind_of_ok hlookup,
      Enter.applyAll, Run.bind_of_ok hlookup]
    refine Run.bind_fst_of_error ?_ _
    exact @ih (depth + 1) _ ⟨_, m.gas⟩ hbound

theorem iterate_code (r : Nat) (t : Ty) (env : Env) (m : Machine) :
    ((Evaluator.unfold types .none)^[r] (failing c) 0 (code t) env m).1 = .error (.ofCause c) := by
  cases r with
  | zero => rfl
  | succ r =>
    rw [Function.iterate_succ_apply']
    cases r with
    | zero => rfl
    | succ r =>
      let f : Value := .closure m.arena.nextId "x" (m.arena.resolveTy env t) twice env
      have hf : (Evaluator.unfold types .none)^[r + 1] (failing c) 0 (.fn "x" t twice) env m =
          (.ok f, m) := by
        rw [Function.iterate_succ_apply']
        rfl
      have hbound : (m.arena.bind env "x" f).1.lookup (m.arena.bind env "x" f).2 "x" = .ok f :=
        Arena.lookup_bind m.arena env "x" f
      rw [code, Evaluator.unfold, Run.bind_of_ok hf]
      exact @iterate_twice types c (r + 1) 0 _ _ ⟨_, m.gas⟩ _ _ hbound

/-- Self-application does not end: no number of unfoldings gives a result that is the same for all
evaluators of the calls further down. -/
theorem endless (t : Ty) (env : Env) (arena : Arena) : Endless types (code t) env arena := by
  rintro gas result ⟨r, hr⟩
  have hone := iterate_code types .constraintViolation r t env ⟨arena, gas⟩
  have htwo := iterate_code types (.thrown none) r t env ⟨arena, gas⟩
  rw [hr] at hone htwo
  rw [hone] at htwo
  cases htwo

end SelfApplication

/-! ### Whole runs -/

/-- From every state, unfolding often enough gives the computation, whatever stands for the calls
further down. -/
def Settles {ρ σ α : Type} (x : (unfoldings : Nat) → (rest : ρ) → Run σ α) (y : Run σ α) : Prop :=
  ∀ s, ∃ least, ∀ r rest, least ≤ r → x r rest s = y s

namespace Settles

variable {ρ σ τ α β : Type}

theorem const (y : Run σ α) : Settles (fun _ (_ : ρ) ↦ y) y := fun _ ↦ ⟨0, fun _ _ _ ↦ rfl⟩

theorem bind {x : Nat → ρ → Run σ α} {y : Run σ α} {f : Nat → ρ → α → Run σ β} {g : α → Run σ β}
    (hx : Settles x y) (hf : ∀ a, Settles (fun r rest ↦ f r rest a) (g a)) :
    Settles (fun r rest ↦ x r rest >>= f r rest) (y >>= g) := by
  intro s
  obtain ⟨least, hleast⟩ := hx s
  cases hrun : y s with
  | mk result t =>
    rw [hrun] at hleast
    cases result with
    | error e =>
      refine ⟨least, fun r rest hr ↦ ?_⟩
      show (x r rest >>= f r rest) s = (y >>= g) s
      rw [Run.bind_of_error (hleast r rest hr), Run.bind_of_error hrun]
    | ok a =>
      obtain ⟨least', hleast'⟩ := hf a t
      refine ⟨max least least', fun r rest hr ↦ ?_⟩
      show (x r rest >>= f r rest) s = (y >>= g) s
      rw [Run.bind_of_ok (hleast r rest (by omega)), Run.bind_of_ok hrun]
      exact hleast' r rest (by omega)

theorem zoom {x : Nat → ρ → Run σ α} {y : Run σ α} (get : τ → σ) (set : τ → σ → τ)
    (hx : Settles x y) : Settles (fun r rest ↦ (x r rest).zoom get set) (y.zoom get set) := by
  intro s
  obtain ⟨least, hleast⟩ := hx (get s)
  refine ⟨least, fun r rest hr ↦ ?_⟩
  simp only [Run.zoom, hleast r rest hr]

end Settles

/-- Evaluation as part of a deployment, by the datatypes that are known. -/
abbrev LibraryEvaluator : Type := Datatypes → Expr → Env → EvalM Value

section Deployment

variable (ev : LibraryEvaluator)

/-- Evaluate library entries with `ev`. -/
def loadEntriesBy : List LibraryEntry → Datatypes → Env → EvalM (Datatypes × Env)
  | [], types, env => return (types, env)
  | .datatype name tparams constructors :: rest, types, env =>
    loadEntriesBy rest (types.register ⟨name, tparams, constructors⟩) env
  | .value x e :: rest, types, env => do
    let v ← ev types e env
    EvalM.pay v.size
    let inner ← EvalM.bind env x v
    loadEntriesBy rest types inner

/-- Check the constraint of a contract with `ev`. -/
def checkConstraintBy (types : Datatypes) (env : Env) : Option Expr → EvalM Unit
  | none => return ()
  | some e => do
    let v ← ev types e env
    if v.toBool? = some true then return ()
    else (Run.fail .constraintViolation).annotate (·.withSpan e.span)

namespace DeployM

/-- Give a field its initial value with `ev`. -/
def initFieldBy (types : Datatypes) (env : Env) (f : FieldDef) : DeployM Unit := do
  let v ← onMachine (ev types f.init env)
  if v.isPure then Run.step fun d ↦ ((), { d with store := d.store.put f.name v })
  else (Run.fail (.impureValue (.field f.name))).annotate (·.withSpan f.init.span)

def initFieldsBy (types : Datatypes) (env : Env) : List FieldDef → DeployM Unit
  | [] => return ()
  | f :: fs => do
    initFieldBy ev types env f
    initFieldsBy types env fs

/-- Deploy a module with `ev` for all that has to be evaluated on the way. -/
def deployBy (m : Module) (args : List (String × Value)) (balance : Tokens) :
    DeployM Deployed := do
  let entries := m.libraries.flatMap (·.entries)
  let (types, libEnv) ← onMachine (loadEntriesBy ev entries .standard .empty)
  let admitted ← Run.ofExcept (admitArguments m.allParams args [])
  let env ← onMachine (EvalM.bindAll libEnv admitted.named)
  onMachine (checkConstraintBy ev types env m.constraint)
  initFieldsBy ev types env m.fields
  let frames ← Run.read fun d ↦ .ok d.machine.arena.freeze
  let fields := m.fields.map fun f ↦ (f.name, f.ty)
  return ⟨⟨env, frames, fields, balance, types⟩, admitted.pending⟩

end DeployM

end Deployment

/-- Evaluation as it is unfolded a number of times. -/
def LibraryEvaluator.unfolded (depthLimit r : Nat) (rest : Evaluator) : LibraryEvaluator :=
  fun types ↦ (Evaluator.unfold types (Setting.guard ⟨types, depthLimit⟩))^[r] rest 0

theorem settles_unfolded (depthLimit : Nat) (types : Datatypes) (e : Expr) (env : Env) :
    Settles (fun r rest ↦ LibraryEvaluator.unfolded depthLimit r rest types e env)
      (eval ⟨types, depthLimit⟩ depthLimit e env) := by
  intro m
  exact ⟨_, fun r rest hr ↦ iterate_unfold ⟨types, depthLimit⟩ rest m hr env⟩

theorem settles_loadEntries (depthLimit : Nat) (entries : List LibraryEntry) (types : Datatypes)
    (env : Env) :
    Settles (fun r rest ↦ loadEntriesBy (.unfolded depthLimit r rest) entries types env)
      (loadEntries depthLimit entries types env) := by
  induction entries generalizing types env with
  | nil => exact .const _
  | cons entry rest ih =>
    cases entry with
    | datatype name tparams constructors => exact ih _ env
    | value x e =>
      refine (settles_unfolded depthLimit types e env).bind fun v ↦ ?_
      refine (Settles.const _).bind fun _ ↦ (Settles.const _).bind fun inner ↦ ?_
      exact ih types inner

theorem settles_checkConstraint (depthLimit : Nat) (types : Datatypes) (env : Env)
    (constraint : Option Expr) :
    Settles (fun r rest ↦ checkConstraintBy (.unfolded depthLimit r rest) types env constraint)
      (checkConstraint ⟨types, depthLimit⟩ env constraint) := by
  cases constraint with
  | none => exact .const _
  | some e => exact (settles_unfolded depthLimit types e env).bind fun _ ↦ .const _

theorem DeployM.settles_initFields (depthLimit : Nat) (types : Datatypes) (env : Env)
    (fields : List FieldDef) :
    Settles (fun r rest ↦ initFieldsBy (.unfolded depthLimit r rest) types env fields)
      (initFields ⟨types, depthLimit⟩ env fields) := by
  induction fields with
  | nil => exact .const _
  | cons f fs ih =>
    have hfirst : Settles (fun r rest ↦ initFieldBy (.unfolded depthLimit r rest) types env f)
        (initField ⟨types, depthLimit⟩ env f) :=
      ((settles_unfolded depthLimit types f.init env).zoom _ _).bind fun _ ↦ .const _
    exact hfirst.bind fun _ ↦ ih

theorem DeployM.settles_deploy (depthLimit : Nat) (m : Module) (args : List (String × Value))
    (balance : Tokens) :
    Settles (fun r rest ↦ deployBy (.unfolded depthLimit r rest) m args balance)
      (deploy depthLimit m args balance) := by
  refine ((settles_loadEntries depthLimit _ _ _).zoom _ _).bind fun loaded ↦ ?_
  refine (Settles.const _).bind fun admitted ↦ (Settles.const _).bind fun env ↦ ?_
  refine ((settles_checkConstraint depthLimit loaded.1 env m.constraint).zoom _ _).bind fun _ ↦ ?_
  exact (settles_initFields depthLimit loaded.1 env m.fields).bind fun _ ↦ .const _

/-- The environment that an expression is evaluated in over bindings. -/
theorem evalExpr_eq (depthLimit : Nat) (bs : List (String × Value)) (e : Expr) (gas : Nat) :
    evalExpr depthLimit bs e gas =
      evalAt ⟨.standard, depthLimit⟩ 0 e (Arena.empty.bindAll .empty bs).2
        ⟨(Arena.empty.bindAll .empty bs).1, gas⟩ := by
  rw [evalExpr, evalAt]
  rfl

theorem deploy_eq (depthLimit : Nat) (m : Module) (args : List (String × Value))
    (balance : Tokens) (store : Store) (gas : Nat) :
    deploy depthLimit m args balance store gas =
      let done := DeployM.deploy depthLimit m args balance ⟨⟨.empty, gas⟩, store⟩
      ⟨done.1, done.2.machine.gas, done.2.store⟩ := rfl

/-- A message that fits a transition ends after as many unfoldings as the transition and the
procedures before it allow. -/
theorem handle_unfold {depthLimit : Nat} {m : Module} {message : List (String × Value)}
    {sel : Selected} (hsel : select m message = .ok sel) (state : ContractState) (chain : Chain)
    (store : Store) (gas : Nat) (rest : Executor) {r : Nat}
    (hr : blockUnfoldings (tableSize sel.callee.visible) (sel.scene state chain)
      sel.callee.procedure.body ≤ r) :
    handle depthLimit m state message chain store gas =
      let body := (Executor.unfold ⟨state.datatypes, depthLimit⟩)^[r] rest 0
        (sel.scene state chain) sel.callee.procedure.body
      let done := (body >>= fun _ ↦ sel.finish state) (sel.session state store gas)
      ⟨done.1, done.2.machine.gas, done.2.store⟩ := by
  have hbody := Executor.iterate_unfold ⟨state.datatypes, depthLimit⟩ rest hr 0
  rw [handle_of_select hsel, hbody]
  rfl

/-- The runs that callers can ask for end after finitely many unfoldings. -/
structure RunsEnd (depthLimit : Nat) : Prop where
  expression : ∀ (bs : List (String × Value)) (e : Expr) (gas r : Nat) (rest : Evaluator),
    (Arena.empty.bindAll .empty bs).1.unfoldings depthLimit 0 e ≤ r →
      (Evaluator.unfold .standard (Setting.guard ⟨.standard, depthLimit⟩))^[r] rest 0 e
        (Arena.empty.bindAll .empty bs).2 ⟨(Arena.empty.bindAll .empty bs).1, gas⟩ =
      evalExpr depthLimit bs e gas
  deployment : ∀ (m : Module) (args : List (String × Value)) (balance : Tokens) (store : Store)
      (gas : Nat), ∃ least, ∀ r rest, least ≤ r →
    deploy depthLimit m args balance store gas =
      let done := DeployM.deployBy (.unfolded depthLimit r rest) m args balance
        ⟨⟨.empty, gas⟩, store⟩
      ⟨done.1, done.2.machine.gas, done.2.store⟩
  message : ∀ (m : Module) (state : ContractState) (message : List (String × Value))
      (chain : Chain) (store : Store) (gas r : Nat) (rest : Executor) (sel : Selected),
    select m message = .ok sel →
    blockUnfoldings (tableSize sel.callee.visible) (sel.scene state chain)
      sel.callee.procedure.body ≤ r →
    handle depthLimit m state message chain store gas =
      let body := (Executor.unfold ⟨state.datatypes, depthLimit⟩)^[r] rest 0
        (sel.scene state chain) sel.callee.procedure.body
      let done := (body >>= fun _ ↦ sel.finish state) (sel.session state store gas)
      ⟨done.1, done.2.machine.gas, done.2.store⟩

theorem runsEnd (depthLimit : Nat) : RunsEnd depthLimit where
  expression bs e gas r rest hr := by
    rw [evalExpr_eq]
    exact iterate_unfold ⟨.standard, depthLimit⟩ rest ⟨_, gas⟩ hr _
  deployment m args balance store gas := by
    obtain ⟨least, hleast⟩ :=
      DeployM.settles_deploy depthLimit m args balance ⟨⟨.empty, gas⟩, store⟩
    refine ⟨least, fun r rest hr ↦ ?_⟩
    have hrun : DeployM.deployBy (.unfolded depthLimit r rest) m args balance
        ⟨⟨.empty, gas⟩, store⟩ = _ := hleast r rest hr
    rw [hrun]
    exact deploy_eq depthLimit m args balance store gas
  message _ state _ chain store gas _ rest _ hsel hr :=
    handle_unfold hsel state chain store gas rest hr

/-- Every run ends: evaluation and execution are well-founded recursions that need no more steps
than their measures allow, whatever the gas; lookups come to the end of their frames in every arena
that is built by the operations and in every one that evaluation makes of it; evaluation without
end, such as that of self-application, fails; and expressions, deployments and messages are handled
in finitely many unfoldings. -/
theorem evaluation_ends :
    (∀ s : Setting, EvaluationEnds s ∧ ExecutionEnds s) ∧
    (∀ a : Arena, a.Built → LookupEnds a ∧
      ∀ (env : Env) (s : Setting) (room : Nat) (e : Expr) (gas : Nat), env.InRange a.size →
        LookupEnds (eval s room e env ⟨a, gas⟩).2.arena) ∧
    (∀ (s : Setting) (e : Expr) (env : Env) (m : Machine), Endless s.datatypes e env m.arena →
      ∃ f, (evalAt s 0 e env m).1 = .error f ∧
        (f.cause = .callDepthExceeded s.depthLimit ∨ f.isOutOfGas = true)) ∧
    (∀ (types : Datatypes) (t : Ty) (env : Env) (arena : Arena),
      Endless types (SelfApplication.code t) env arena) ∧
    ∀ depthLimit : Nat, RunsEnd depthLimit := by
  refine ⟨fun s ↦ ⟨evaluationEnds s, executionEnds s⟩, ?_, ?_, SelfApplication.endless, runsEnd⟩
  · intro a ha
    exact ⟨fun _ henv ↦ Arena.chain_complete ha.sound henv,
      fun _ s room e gas henv ↦ lookupEnds_eval ha.sound henv s room e gas⟩
  · intro s e env m hendless
    exact hendless.fails

end MeteredContract
