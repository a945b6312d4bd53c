import MeteredContract.Proofs.Termination.Block

/-!
Execution on a configuration in which everything can be written. Execution as it is defined gets the
scene as an argument and counts the depth of calls by its own recursion, so it cannot leave either
changed. Here both are part of the state: a call is counted, puts its own table of procedures and
its entry of the trail there, and afterwards takes back by hand what it did, whether its body failed
or not. `Interpreter.unfold` is this execution with its recursive calls left open. The equation that
it makes has exactly one solution, which is execution as it is defined, with the scene and the depth
handed through (`Interpreter.unfold_eq_iff`). This is so on any depths that calls do not lead out of
(`Interpreter.agreesOn_unfold_iff`).
-/

set_option autoImplicit false
set_option relaxedAutoImplicit false

namespace MeteredContract

/-- What expressions are evaluated with: a machine, and how deep calls are nested. -/
structure Processor where
  machine : Machine
  depth : Nat

/-- What statements are run with. -/
structure Configuration where
  scene : Scene
  session : Session
  depth : Nat

namespace Processor

variable {α : Type}

def onMachine (x : EvalM α) : Run Processor α :=
  Run.zoom (·.machine) (fun p m ↦ { p with machine := m }) x

/-- Count a call, unless calls are nested too deep for it. -/
def enter (s : Setting) : Run Processor Unit := fun p ↦
  if p.depth < s.depthLimit then (.ok (), { p with depth := p.depth + 1 })
  else (.error (.ofCause (.callDepthExceeded s.depthLimit)), p)

/-- Do not count the last call any more, however it ended. -/
def leaving (x : Run Processor α) : Run Processor α :=
  x.zoom id fun _ p ↦ { p with depth := p.depth - 1 }

end Processor

namespace Configuration

variable {α : Type}

def onSession (x : ExecM α) : Run Configuration α :=
  Run.zoom (·.session) (fun c t ↦ { c with session := t }) x

def onProcessor (x : Run Processor α) : Run Configuration α :=
  Run.zoom (fun c ↦ ⟨c.session.machine, c.depth⟩)
    (fun c p ↦ { c with session.machine := p.machine, depth := p.depth }) x

def currentScene : Run Configuration Scene := Run.read fun c ↦ .ok c.scene

/-- A fault gets the trail that there is when it has come up. -/
def attaching (x : Run Configuration α) : Run Configuration α := fun c ↦
  match x c with
  | (.ok a, d) => (.ok a, d)
  | (.error e, d) => (.error (e.attach d.scene.trail), d)

/-- Begin a clause. -/
def openClause (bs : List (String × Value)) (c : Configuration) : Configuration :=
  { c with session := c.session.bound c.session.env bs }

/-- Go on after a clause: back to the environment from before it. -/
def closeClause (c d : Configuration) : Configuration :=
  { d with session.env := c.session.env }

/-- Begin the body of a procedure. -/
def openCall (visible : List Component) (name : String) (site : Span) (bs : List (String × Value))
    (c : Configuration) : Configuration where
  scene := { c.scene with procedures := visible, trail := c.scene.trail.push name (some site) }
  session := c.session.bound c.scene.initEnv bs
  depth := c.depth

/-- Go on after a call: the trail and the depth that there are now lose their last entry, while the
environment and the table are those from before. -/
def closeCall (c d : Configuration) : Configuration where
  scene := { d.scene with procedures := c.scene.procedures, trail := d.scene.trail.pop }
  session := { d.session with env := c.session.env }
  depth := d.depth - 1

end Configuration

/-- Calls do not lead out of these depths. -/
def Setting.Confines (s : Setting) (depths : Set Nat) : Prop :=
  ∀ depth ∈ depths, s.guard depth = .ok () → depth + 1 ∈ depths

theorem Setting.confines_univ (s : Setting) : s.Confines Set.univ := fun _ _ _ ↦ trivial

theorem Setting.confines_limit (s : Setting) : s.Confines {depth | depth ≤ s.depthLimit} := by
  intro depth _ hguard
  unfold Setting.guard at hguard
  split at hguard
  · next hlt => exact hlt
  · cases hguard

/-- Something that evaluates expressions and runs blocks. -/
structure Interpreter where
  eval : Expr → Env → Run Processor Value
  exec : List Stmt → Run Configuration Unit

namespace Interpreter

section Evaluation

open Processor

variable (s : Setting) (i : Interpreter)

def enterBody (f : Frame) (body : Expr) : Run Processor Value := do
  Processor.enter s
  let env ← onMachine (EvalM.extend (·.push f))
  leaving (i.eval body env)

def apply (f arg : Value) : Run Processor Value :=
  match f with
  | .closure _ param _ body env => i.enterBody s ⟨param, .value arg, env⟩ body
  | v => Run.fail (.notAFunction v.kind)

def tyApply (f : Value) (t : Ty) : Run Processor Value :=
  match f with
  | .tyClosure _ tvar body env => i.enterBody s ⟨tvar, .type t, env⟩ body
  | v => Run.fail (.notATypeFunction v.kind)

def applyAll (env : Env) : Value → List String → Run Processor Value
  | f, [] => return f
  | f, x :: xs => do
    let arg ← onMachine (EvalM.lookup env x)
    let g ← i.apply s f arg
    applyAll env g xs

def tyApplyAll (env : Env) : Value → List Ty → Run Processor Value
  | f, [] => return f
  | f, t :: ts => do
    let t ← onMachine (EvalM.inspect fun a ↦ .ok (a.resolveTy env t))
    let g ← i.tyApply s f t
    tyApplyAll env g ts

/-- Evaluate one expression, with `i` for all that has to be evaluated on the way. -/
def evalStep : Expr → Env → Run Processor Value
  | .letIn x _ rhs body, env => do
    let v ← i.eval rhs env
    let inner ← onMachine (EvalM.bind env x v)
    i.eval body inner
  | .app f args, env => do
    let v ← onMachine (EvalM.lookup env f)
    i.applyAll s env v args
  | .matching x clauses, env => do
    let v ← onMachine (EvalM.lookup env x)
    match Pattern.firstMatch (clauses.map Prod.fst) v with
    | none => Run.fail (.noMatchingClause x)
    | some (k, binds) =>
      let inner ← onMachine (EvalM.bindAll env binds)
      match clauses[k]? with
      | none => Run.fail (.noMatchingClause x)
      | some clause => i.eval clause.2 inner
  | .tyApp f targs, env => do
    let v ← onMachine (EvalM.lookup env f)
    i.tyApplyAll s env v targs
  | .fix name _ body, env => do
    let inner ← onMachine (EvalM.extend (·.bindPending env name))
    let v ← i.eval body inner
    onMachine (EvalM.setTop inner v)
    return v
  | .gas c body, env => do
    onMachine (EvalM.charge env c)
    i.eval body env
  | .located sp e, env => (i.eval e env).annotate (·.withSpan sp)
  -- No other expression makes calls, so that the room for them does not matter.
  | e, env => onMachine (MeteredContract.eval s 0 e env)

end Evaluation

section Execution

open MeteredContract.Configuration

variable (s : Setting) (i : Interpreter)

def call (site : Span) (name : String) (args : List Value) : Run Configuration Unit := do
  let scene ← currentScene
  match findCallee? name scene.procedures with
  | none => Run.fail (.unknownProcedure name)
  | some ⟨p, visible⟩ =>
    let own ← Run.ofExcept (positionalBindings p.params args)
    let sender ← onSession (ExecM.lookup Label.sender)
    let origin ← onSession (ExecM.lookup Label.origin)
    let amount ← onSession (ExecM.lookup Label.amount)
    let implicit := [(Label.sender, sender), (Label.origin, origin), (Label.amount, amount)]
    onProcessor (Processor.enter s)
    (i.exec p.body).zoom (openCall visible name site (implicit ++ own)) closeCall

def callEach (site : Span) (name : String) : List Value → Run Configuration Unit
  | [] => return ()
  | v :: vs => do
    i.call s site name [v]
    callEach site name vs

/-- Run one statement, with `i` for the blocks and expressions on the way. -/
def stmtStep : Stmt → (site : Span) → Run Configuration Unit
  | .bind x e, _ => do
    let env ← onSession (ExecM.inspect fun _ env ↦ .ok env)
    let v ← onProcessor (i.eval e env)
    onSession (ExecM.bind x v)
  | .matching x clauses, _ => do
    let v ← onSession (ExecM.lookup x)
    match Pattern.firstMatch (clauses.map Prod.fst) v with
    | none => Run.fail (.noMatchingClause x)
    | some (k, binds) =>
      match clauses[k]? with
      | none => Run.fail (.noMatchingClause x)
      | some clause => (i.exec clause.2).zoom (openClause binds) closeClause
  | .call name args, site => do
    let vs ← onSession (ExecM.lookupAll args)
    i.call s site name vs
  | .forEach list name, site => do
    let v ← onSession (ExecM.lookup list)
    let items ← Run.ofExcept (ExecM.elements "forall" v)
    i.callEach s site name items
  | .located sp st, _ => (stmtStep st sp).annotate (·.withSpan sp)
  -- All others are done with the session alone.
  | st, site => do
    let scene ← currentScene
    onSession (st.execWith (outside s 0) scene site)

def blockStep : List Stmt → Run Configuration Unit
  | [] => return ()
  | st :: rest => do
    attaching (i.stmtStep s st .dummy)
    blockStep rest

/-- Evaluate one expression or run one block, with `i` for all that comes up on the way. -/
def unfold : Interpreter := ⟨i.evalStep s, i.blockStep s⟩

end Execution

/-- The interpreters do the same at depths in the set. -/
structure AgreesOn (i j : Interpreter) (depths : Set Nat) : Prop where
  eval : ∀ e env p, p.depth ∈ depths → i.eval e env p = j.eval e env p
  exec : ∀ block c, c.depth ∈ depths → i.exec block c = j.exec block c

theorem agreesOn_univ {i j : Interpreter} : i.AgreesOn j Set.univ ↔ i = j := by
  constructor
  · intro h
    obtain ⟨eval, exec⟩ := i
    have heval : eval = j.eval := by
      funext e env p
      exact h.eval e env p trivial
    have hexec : exec = j.exec := by
      funext block c
      exact h.exec block c trivial
    rw [heval, hexec]
  · rintro rfl
    exact ⟨fun _ _ _ _ ↦ rfl, fun _ _ _ ↦ rfl⟩

/-! ### Expressions -/

section Evaluation

open Processor

variable {s : Setting} {i : Interpreter} {depths : Set Nat} {depth : Nat}

theorem lifts_onMachine {α : Type} (depth : Nat) (x : EvalM α) :
    Run.Lifts (Processor.mk · depth) (onMachine x) x := fun _ ↦ rfl

/-- A call that may be made comes back to its depth; one that may not is not counted. -/
theorem lifts_enterBody {body : Expr}
    (h : s.guard depth = .ok () → ∀ env, Run.Lifts (Processor.mk · (depth + 1)) (i.eval body env)
      (evalAt s (depth + 1) body env)) (f : Frame) :
    Run.Lifts (Processor.mk · depth) (i.enterBody s f body)
      ((evalAt s).enter s.guard depth f body) := by
  intro m
  unfold Interpreter.enterBody Evaluator.enter
  by_cases hlt : depth < s.depthLimit
  · have hguard : s.guard depth = .ok () := if_pos hlt
    have henter : Processor.enter s ⟨m, depth⟩ = (.ok (), ⟨m, depth + 1⟩) := if_pos hlt
    have hbody := h hguard (m.arena.push f).2 ⟨(m.arena.push f).1, m.gas⟩
    have hleaving : leaving (i.eval body (m.arena.push f).2)
        ⟨⟨(m.arena.push f).1, m.gas⟩, depth + 1⟩ = _ :=
      congrArg (fun r : Except Fault Value × Processor ↦
        (r.1, { r.2 with depth := r.2.depth - 1 })) hbody
    rw [Run.bind_of_ok henter, hguard]
    exact hleaving
  · have hguard : s.guard depth = .error (.callDepthExceeded s.depthLimit) := if_neg hlt
    have henter : Processor.enter s ⟨m, depth⟩ =
        (.error (.ofCause (.callDepthExceeded s.depthLimit)), ⟨m, depth⟩) := if_neg hlt
    rw [Run.bind_of_error henter, hguard]
    rfl

section Calls

variable (h : ∀ f body, Run.Lifts (Processor.mk · depth) (i.enterBody s f body)
  ((evalAt s).enter s.guard depth f body))

include h

theorem lifts_apply (f arg : Value) : Run.Lifts (Processor.mk · depth) (i.apply s f arg)
    (((evalAt s).enter s.guard depth).apply f arg) := by
  cases f with
  | closure id param ty body env => exact h _ body
  | _ => exact .fail _

theorem lifts_tyApply (f : Value) (t : Ty) : Run.Lifts (Processor.mk · depth) (i.tyApply s f t)
    (((evalAt s).enter s.guard depth).tyApply f t) := by
  cases f with
  | tyClosure id tvar body env => exact h _ body
  | _ => exact .fail _

theorem lifts_applyAll (env : Env) (f : Value) (xs : List String) :
    Run.Lifts (Processor.mk · depth) (i.applyAll s env f xs)
      (((evalAt s).enter s.guard depth).applyAll env f xs) := by
  induction xs generalizing f with
  | nil => exact .pure _
  | cons x xs ih =>
    exact .bind (lifts_onMachine depth _) fun arg ↦ .bind (lifts_apply h f arg) fun g ↦ ih g

theorem lifts_tyApplyAll (env : Env) (f : Value) (ts : List Ty) :
    Run.Lifts (Processor.mk · depth) (i.tyApplyAll s env f ts)
      (((evalAt s).enter s.guard depth).tyApplyAll env f ts) := by
  induction ts generalizing f with
  | nil => exact .pure _
  | cons t ts ih =>
    exact .bind (lifts_onMachine depth _) fun t' ↦ .bind (lifts_tyApply h f t') fun g ↦ ih g

end Calls

/-- If all that comes up below is evaluated as it should be, so is the expression. -/
theorem lifts_evalStep {e : Expr}
    (hpart : ∀ part ∈ e.parts, ∀ env,
      Run.Lifts (Processor.mk · depth) (i.eval part env) (evalAt s depth part env))
    (hbody : s.guard depth = .ok () → ∀ body env,
      Run.Lifts (Processor.mk · (depth + 1)) (i.eval body env) (evalAt s (depth + 1) body env))
    (env : Env) :
    Run.Lifts (Processor.mk · depth) (i.evalStep s e env) (evalAt s depth e env) := by
  have hcall : ∀ f body, Run.Lifts (Processor.mk · depth) (i.enterBody s f body)
      ((evalAt s).enter s.guard depth f body) :=
    fun f body ↦ lifts_enterBody (fun hguard ↦ hbody hguard body) f
  rw [← evalAt_unfold s]
  cases e with
  | letIn x declared rhs body =>
    exact .bind (hpart rhs (by simp [Expr.parts]) env) fun v ↦
      .bind (lifts_onMachine depth _) fun inner ↦ hpart body (by simp [Expr.parts]) inner
  | app f args =>
    exact .bind (lifts_onMachine depth _) fun v ↦ lifts_applyAll hcall env v args
  | tyApp f targs =>
    exact .bind (lifts_onMachine depth _) fun v ↦ lifts_tyApplyAll hcall env v targs
  | matching x clauses =>
    refine .bind (lifts_onMachine depth _) fun v ↦ ?_
    cases Pattern.firstMatch (clauses.map Prod.fst) v with
    | none => exact .fail _
    | some found =>
      refine .bind (lifts_onMachine depth _) fun inner ↦ ?_
      cases hclause : clauses[found.1]? with
      | none => exact .fail _
      | some clause =>
        exact hpart _ (List.mem_map_of_mem (List.mem_of_getElem? hclause)) inner
  | fix name ty body =>
    exact .bind (lifts_onMachine depth _) fun inner ↦
      .bind (hpart body (by simp [Expr.parts]) inner) fun v ↦
        .bind (lifts_onMachine depth _) fun _ ↦ .pure v
  | gas c body =>
    exact .bind (lifts_onMachine depth _) fun _ ↦ hpart body (by simp [Expr.parts]) env
  | located sp e => exact (hpart e (by simp [Expr.parts]) env).annotate _
  | _ => exact lifts_onMachine depth _

theorem lifts_eval (hconfines : s.Confines depths) (h : (i.unfold s).AgreesOn i depths)
    (hdepth : depth ∈ depths) (e : Expr) (env : Env) :
    Run.Lifts (Processor.mk · depth) (i.eval e env) (evalAt s depth e env) := by
  have hall : ∀ p : Nat × Expr, p.1 ∈ depths → ∀ env,
      Run.Lifts (Processor.mk · p.1) (i.eval p.2 env) (evalAt s p.1 p.2 env) := by
    intro p
    induction p using (wellFounded_below s.depthLimit).induction with
    | _ p ih =>
      obtain ⟨depth, e⟩ := p
      intro hdepth env m
      rw [← h.eval e env ⟨m, depth⟩ hdepth]
      refine lifts_evalStep (fun part hmem ↦ ?_) (fun hguard body ↦ ?_) env m
      · exact ih (depth, part) (below_part s.depthLimit depth hmem) hdepth
      · exact ih (depth + 1, body) (below_call hguard e body) (hconfines depth hdepth hguard)
  exact hall (depth, e) hdepth env

end Evaluation

/-! ### Statements -/

section Execution

open MeteredContract.Configuration

variable {s : Setting} {i : Interpreter} {depths : Set Nat} {scene : Scene} {block : List Stmt}
  {depth : Nat}

theorem lifts_onSession {α : Type} (scene : Scene) (depth : Nat) (x : ExecM α) :
    Run.Lifts (Configuration.mk scene · depth) (onSession x) x := fun _ ↦ rfl

theorem lifts_currentScene {α : Type} {f : Scene → Run Configuration α} {y : ExecM α}
    (h : Run.Lifts (Configuration.mk scene · depth) (f scene) y) :
    Run.Lifts (Configuration.mk scene · depth) (currentScene >>= f) y := h

theorem lifts_attaching {α : Type} {x : Run Configuration α} {y : ExecM α}
    (h : Run.Lifts (Configuration.mk scene · depth) x y) :
    Run.Lifts (Configuration.mk scene · depth) (attaching x)
      (y.annotate (·.attach scene.trail)) := by
  intro t
  rw [attaching, h t, Run.annotate]
  cases hy : y t with
  | mk result u =>
    cases result with
    | error e => rfl
    | ok a => rfl

/-- The body of a procedure leaves scene and depth as they were before the call. -/
theorem lifts_invoke {visible : List Component} {name : String} {site : Span} {body : List Stmt}
    (h : s.guard depth = .ok () → Run.Lifts (Configuration.mk { scene with
        procedures := visible, trail := scene.trail.push name (some site) } · (depth + 1))
      (i.exec body) (execAt s (depth + 1) { scene with
        procedures := visible, trail := scene.trail.push name (some site) } body))
    (bs : List (String × Value)) :
    Run.Lifts (Configuration.mk scene · depth)
      (onProcessor (Processor.enter s) >>= fun _ ↦
        (i.exec body).zoom (openCall visible name site bs) closeCall)
      (((execAt s).outside s depth).invoke { scene with
        procedures := visible, trail := scene.trail.push name (some site) } bs body) := by
  intro t
  unfold Executor.outside
  by_cases hlt : depth < s.depthLimit
  · have hguard : s.guard depth = .ok () := if_pos hlt
    have henter : onProcessor (Processor.enter s) ⟨scene, t, depth⟩ =
        (.ok (), ⟨scene, t, depth + 1⟩) := by
      simp only [onProcessor, Run.zoom, Processor.enter, hlt, if_true]
    have hclose := congrArg (fun r : Except Fault Unit × Configuration ↦
      (r.1, closeCall ⟨scene, t, depth + 1⟩ r.2)) (h hguard (t.bound scene.initEnv bs))
    rw [Run.bind_of_ok henter]
    dsimp only
    rw [hguard]
    exact hclose
  · have hguard : s.guard depth = .error (.callDepthExceeded s.depthLimit) := if_neg hlt
    have henter : onProcessor (Processor.enter s) ⟨scene, t, depth⟩ =
        (.error (.ofCause (.callDepthExceeded s.depthLimit)), ⟨scene, t, depth⟩) := by
      simp only [onProcessor, Run.zoom, Processor.enter, hlt, if_false]
    rw [Run.bind_of_error henter]
    dsimp only
    rw [hguard]
    rfl

/-- At depths in the set, the interpreter runs the blocks that a block calls for as they should be
run. -/
def LiftsEntered (s : Setting) (i : Interpreter) (depths : Set Nat) (scene : Scene)
    (block : List Stmt) : Prop :=
  ∀ depth ∈ depths, ∀ scene' block', Entered (scene', block') (scene, block) →
    Run.Lifts (Configuration.mk scene' · depth) (i.exec block') (execAt s depth scene' block')

section Blocks

variable (hconfines : s.Confines depths)
  (heval : ∀ e env, Run.Lifts (Processor.mk · depth) (i.eval e env) (evalAt s depth e env))
  (h : i.LiftsEntered s depths scene block) (hdepth : depth ∈ depths) (hsize : 0 < blockSize block)

include hconfines h hdepth hsize in
theorem lifts_call (site : Span) (name : String) (args : List Value) :
    Run.Lifts (Configuration.mk scene · depth) (i.call s site name args)
      (((execAt s).outside s depth).call scene site name args) := by
  refine lifts_currentScene ?_
  unfold Outside.call
  cases hfound : findCallee? name scene.procedures with
  | none => exact .fail _
  | some c =>
    refine .bind (.ofExcept _) fun own ↦ .bind (lifts_onSession scene depth _) fun sender ↦ ?_
    refine .bind (lifts_onSession scene depth _) fun origin ↦ ?_
    refine .bind (lifts_onSession scene depth _) fun amount ↦ lifts_invoke (fun hguard ↦ ?_) _
    have hnext := hconfines depth hdepth hguard
    exact h (depth + 1) hnext _ c.procedure.body (.callee hfound rfl hsize)

include hconfines h hdepth hsize in
theorem lifts_callEach (site : Span) (name : String) (items : List Value) :
    Run.Lifts (Configuration.mk scene · depth) (i.callEach s site name items)
      (((execAt s).outside s depth).callEach scene site name items) := by
  induction items with
  | nil => exact .pure _
  | cons item items ih =>
    exact .bind (lifts_call hconfines h hdepth hsize site name [item]) fun _ ↦ ih

include hconfines heval h hdepth hsize in
theorem lifts_stmtStep {st : Stmt} (hst : st.size ≤ blockSize block) (site : Span) :
    Run.Lifts (Configuration.mk scene · depth) (i.stmtStep s st site)
      (st.unfold s (execAt s) depth scene site) := by
  induction st generalizing site with
  | bind x e =>
    refine .bind (lifts_onSession scene depth _) fun env ↦ .bind ?_ fun v ↦ ?_
    · intro t
      exact congrArg (fun r : Except Fault Value × Processor ↦ (r.1, Configuration.mk scene
        { t with machine := r.2.machine } r.2.depth)) (heval e env t.machine)
    · exact lifts_onSession scene depth _
  | matching x clauses ih =>
    refine .bind (lifts_onSession scene depth _) fun v ↦ ?_
    cases hmatch : Pattern.firstMatch (clauses.map Prod.fst) v with
    | none => exact .fail _
    | some found =>
      obtain ⟨clause, hclause⟩ := exists_clause hmatch
      have hlt := blockSize_lt_clausesSize hclause
      rw [Stmt.size] at hst
      simp only [hclause]
      intro t
      have hbody := h depth hdepth scene clause.2 (.clause (by omega)) (t.bound t.env found.2)
      exact congrArg (fun r : Except Fault Unit × Configuration ↦
        (r.1, closeClause ⟨scene, t, depth⟩ r.2)) hbody
  | located sp st ih =>
    rw [Stmt.size] at hst
    exact (ih (by omega) sp).annotate _
  | call name args =>
    exact .bind (lifts_onSession scene depth _) fun vs ↦
      lifts_call hconfines h hdepth hsize site name vs
  | forEach list name =>
    exact .bind (lifts_onSession scene depth _) fun v ↦ .bind (.ofExcept _) fun items ↦
      lifts_callEach hconfines h hdepth hsize site name items
  | _ => exact lifts_currentScene (lifts_onSession scene depth _)

include hconfines heval h hdepth in
/-- If all that comes up below is run as it should be, so is the block. -/
theorem lifts_blockStep :
    Run.Lifts (Configuration.mk scene · depth) (i.blockStep s block)
      (execAt s depth scene block) := by
  rw [← execAt_unfold s]
  have hpart : ∀ part, blockSize part ≤ blockSize block →
      Run.Lifts (Configuration.mk scene · depth) (i.blockStep s part)
        ((execAt s).unfold s depth scene part) := by
    intro part hle
    induction part with
    | nil => exact .pure _
    | cons st rest ih =>
      rw [blockSize] at hle
      have hsize : st.size ≤ blockSize block := by omega
      have hst := lifts_stmtStep hconfines heval h hdepth (by omega) hsize .dummy
      exact .bind (lifts_attaching hst) fun _ ↦ ih (by omega)
  exact hpart block (Nat.le_refl _)

end Blocks

theorem lifts_exec (hconfines : s.Confines depths) (h : (i.unfold s).AgreesOn i depths)
    (hdepth : depth ∈ depths) (scene : Scene) (block : List Stmt) :
    Run.Lifts (Configuration.mk scene · depth) (i.exec block) (execAt s depth scene block) := by
  have hall : ∀ (p : Scene × List Stmt), ∀ depth ∈ depths,
      Run.Lifts (Configuration.mk p.1 · depth) (i.exec p.2) (execAt s depth p.1 p.2) := by
    intro p
    induction p using wellFounded_blockBelow.induction with
    | _ p ih =>
      obtain ⟨scene, block⟩ := p
      intro depth hdepth t
      rw [← h.exec block ⟨scene, t, depth⟩ hdepth]
      refine lifts_blockStep hconfines (lifts_eval hconfines h hdepth) ?_ hdepth t
      intro depth' hdepth' scene' block' hentered
      exact ih (scene', block') hentered.below depth' hdepth'
  exact hall (scene, block) depth hdepth

end Execution

end Interpreter

/-- Evaluation and execution, with the scene and the depth handed through. -/
def interpreter (s : Setting) : Interpreter where
  eval e env p :=
    let (r, m) := evalAt s p.depth e env p.machine
    (r, { p with machine := m })
  exec block c :=
    let (r, t) := execAt s c.depth c.scene block c.session
    (r, { c with session := t })

namespace Interpreter

theorem AgreesOn.lifts_eval {s : Setting} {i : Interpreter} {depths : Set Nat}
    (h : i.AgreesOn (interpreter s) depths) {depth : Nat} (hdepth : depth ∈ depths) (e : Expr)
    (env : Env) : Run.Lifts (Processor.mk · depth) (i.eval e env) (evalAt s depth e env) :=
  fun m ↦ h.eval e env ⟨m, depth⟩ hdepth

/-- At depths that calls do not lead out of, an execution that works on a configuration and restores
it by hand is execution, whatever is done at other depths. -/
theorem agreesOn_unfold_iff {s : Setting} {depths : Set Nat} (hconfines : s.Confines depths)
    (i : Interpreter) :
    (i.unfold s).AgreesOn i depths ↔ i.AgreesOn (interpreter s) depths := by
  constructor
  · intro h
    refine ⟨fun e env p hdepth ↦ ?_, fun block c hdepth ↦ ?_⟩
    · exact lifts_eval hconfines h hdepth e env p.machine
    · exact lifts_exec hconfines h hdepth c.scene block c.session
  · intro h
    refine ⟨fun e env p hdepth ↦ ?_, fun block c hdepth ↦ ?_⟩
    · rw [h.eval e env p hdepth]
      refine lifts_evalStep (fun part _ ↦ h.lifts_eval hdepth part) (fun hguard body ↦ ?_) env
        p.machine
      exact h.lifts_eval (hconfines p.depth hdepth hguard) body
    · rw [h.exec block c hdepth]
      refine lifts_blockStep hconfines (h.lifts_eval hdepth) ?_ hdepth c.session
      exact fun depth hdepth scene' block' _ t ↦ h.exec block' ⟨scene', t, depth⟩ hdepth

/-- An execution that works on a configuration and restores it by hand is execution. -/
theorem unfold_eq_iff (s : Setting) (i : Interpreter) : i.unfold s = i ↔ i = interpreter s := by
  have hiff := agreesOn_unfold_iff s.confines_univ i
  rw [agreesOn_univ, agreesOn_univ] at hiff
  exact hiff

end Interpreter

end MeteredContract
