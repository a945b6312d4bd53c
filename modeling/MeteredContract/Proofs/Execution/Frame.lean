import MeteredContract.Proofs.Contract.Conservation
import MeteredContract.Proofs.Execution.Configuration
import MeteredContract.Proofs.Execution.Steps

/-!
What a block of statements can do to the configuration that it runs with, whether it succeeds or not
(`Interpreter.Frames`). Scene and depth are as before. The environment is the one from before with
new frames over it, and none after statements with a scope of their own. What was emitted is only
added to, and nothing else depends on it. The incoming tokens are taken for the first time or not
at all.
-/

set_option autoImplicit false
set_option relaxedAutoImplicit false

namespace MeteredContract

/-! ### The environment -/

namespace Arena

variable {a b : Arena} {n n' : Nat} {inner outer : Env}

/-- The environment `inner` is a frame, not one of the first `n`, over `outer`. -/
def FrameOver (a : Arena) (n : Nat) (inner outer : Env) : Prop :=
  ∃ i f, inner.top = some i ∧ n ≤ i ∧ a.frame? i = some f ∧ f.parent = outer

/-- The environment `outer` is on the chain of `inner`, and the frames before it are not among the
first `n`. -/
def Above (a : Arena) (n : Nat) : Env → Env → Prop := Relation.ReflTransGen (a.FrameOver n)

theorem Above.mono (h : a.Above n inner outer) (hgrows : a.Grows b) (hn : n' ≤ n) :
    b.Above n' inner outer := by
  refine Relation.ReflTransGen.mono ?_ _ _ h
  rintro _ _ ⟨i, f, htop, hi, hf, hparent⟩
  exact ⟨i, f, htop, Nat.le_trans hn hi, hgrows.frame?_eq hf, hparent⟩

theorem above_bind (a : Arena) (env : Env) (x : String) (v : Value) :
    (a.bind env x v).1.Above a.size (a.bind env x v).2 env := by
  refine .single ⟨a.size, ⟨x, .value v, env⟩, rfl, Nat.le_refl _, ?_, rfl⟩
  rw [Arena.bind, frame?_push, if_pos rfl]

end Arena

/-- Frames were added to the arena, and the environment is the same under some of them. -/
structure Session.Nests (t u : Session) : Prop where
  grows : t.machine.arena.Grows u.machine.arena
  env : u.machine.arena.Above t.machine.arena.size u.env t.env

theorem Session.Nests.of_eq {t u : Session} (hmachine : u.machine = t.machine)
    (henv : u.env = t.env) : t.Nests u := by
  refine ⟨?_, ?_⟩
  · rw [hmachine]
    exact .refl _
  · rw [henv]
    exact .refl

instance : IsPreorder Session Session.Nests where
  refl _ := .of_eq rfl rfl
  trans _ _ _ htu huv := by
    have hupper := huv.env.mono (.refl _) htu.grows.size_le
    have hlower := htu.env.mono huv.grows (Nat.le_refl _)
    exact ⟨htu.grows.trans huv.grows, Relation.ReflTransGen.trans hupper hlower⟩

theorem steps_nests : Steps (Run.Keeps Session.Nests) where
  bind hx hf := hx.bind hf
  annotate g hx t := by
    rw [Run.annotate_snd]
    exact hx t
  read _ := .read _
  onMachine hx t := ⟨hx t.machine, .refl⟩
  extend x v t := ⟨t.machine.arena.grows_push _, t.machine.arena.above_bind t.env x v⟩
  write _ _ := .of_eq rfl rfl
  accept scene t := by
    unfold ExecM.accept
    split
    · exact .of_eq rfl rfl
    · split
      · exact .of_eq rfl rfl
      · exact .of_eq rfl rfl
  emit _ _ := .of_eq rfl rfl
  announce _ _ := .of_eq rfl rfl
  withBindings env bs hx t :=
    ⟨(t.machine.arena.grows_bindAll env bs).trans (hx (t.bound env bs)).grows, .refl⟩

/-- The statement runs other code in a scope of its own. -/
def Stmt.isScoped : Stmt → Bool
  | .matching .. => true
  | .call .. => true
  | .forEach .. => true
  | .located _ st => st.isScoped
  | _ => false

def Session.SameEnv (t u : Session) : Prop := u.env = t.env

instance : IsPreorder Session Session.SameEnv where
  refl _ := rfl
  trans _ _ _ h h' := h'.trans h

theorem keepsEnv_invoke (s : Setting) (room : Nat) (scene : Scene) (bs : List (String × Value))
    (body : List Stmt) : Run.Keeps Session.SameEnv ((outside s room).invoke scene bs body) := by
  cases room with
  | zero => exact .fail _
  | succ room => exact fun _ ↦ rfl

theorem keepsEnv_call (s : Setting) (room : Nat) (scene : Scene) (site : Span) (name : String)
    (args : List Value) :
    Run.Keeps Session.SameEnv ((outside s room).call scene site name args) := by
  intro t
  rcases call_cases (outside s room) scene site name args t with ⟨e, hcall⟩ | ⟨h, -, hcall⟩
  · rw [hcall]
    rfl
  · rw [hcall]
    exact keepsEnv_invoke s room _ _ _ t

theorem keepsEnv_callEach (s : Setting) (room : Nat) (scene : Scene) (site : Span) (name : String)
    (items : List Value) :
    Run.Keeps Session.SameEnv ((outside s room).callEach scene site name items) := by
  induction items with
  | nil => exact .pure ()
  | cons item items ih => exact .bind (keepsEnv_call s room scene site name [item]) fun _ ↦ ih

theorem Stmt.keepsEnv_of_isScoped (s : Setting) (room : Nat) (scene : Scene) {st : Stmt}
    (hst : st.isScoped = true) (site : Span) :
    Run.Keeps Session.SameEnv (st.execWith (outside s room) scene site) := by
  induction st generalizing site with
  | matching x clauses =>
    refine .bind (.read _) fun v ↦ ?_
    split
    · exact .fail _
    · exact .bind (.read _) fun env _ ↦ rfl
  | call name args => exact .bind (.read _) fun vs ↦ keepsEnv_call s room scene site name vs
  | forEach list name =>
    exact .bind (.read _) fun v ↦ .bind (.read _) fun items ↦
      keepsEnv_callEach s room scene site name items
  | located sp st ih =>
    intro t
    rw [Stmt.execWith, Run.annotate_snd]
    exact ih hst sp t
  | _ => cases hst

theorem exec_keepsEnv (s : Setting) (room : Nat) (scene : Scene) {st : Stmt}
    (hst : st.isScoped = true) : Run.Keeps Session.SameEnv (exec s room scene [st]) := by
  refine .bind (fun t ↦ ?_) fun _ ↦ .pure ()
  rw [Run.annotate_snd]
  exact st.keepsEnv_of_isScoped s room scene hst .dummy t

/-! ### What was emitted -/

/-- From a session in which more was emitted before, the same happens, and that stays in front. -/
theorem steps_logging :
    Steps fun x ↦ ∀ emitted events, Run.Lifts (Session.logging emitted events) x x where
  bind hx hf emitted events := (hx emitted events).bind fun a ↦ hf a emitted events
  annotate g hx emitted events := (hx emitted events).annotate g
  read hf emitted events := .read fun t ↦ hf emitted events t
  onMachine _ _ _ _ := rfl
  extend _ _ _ _ _ := rfl
  write _ _ _ _ := rfl
  accept scene emitted events t := by
    obtain ⟨machine, env, balance, accepted, before, raised, store⟩ := t
    cases accepted with
    | true => rfl
    | false =>
      cases hsum : balance.add? scene.incoming with
      | none =>
        simp only [ExecM.accept, Session.logging, hsum]
        rfl
      | some sum =>
        simp only [ExecM.accept, Session.logging, hsum]
        rfl
  emit msgs emitted events t := by simp only [Run.step, Session.logging, List.append_assoc]
  announce v emitted events t := by simp only [Run.step, Session.logging, List.append_assoc]
  withBindings env bs hx emitted events t :=
    congrArg (fun r : Except Fault Unit × Session ↦ (r.1, { r.2 with env := t.env }))
      (hx emitted events (t.bound env bs))

/-! ### Configurations -/

/-- The configuration in which other messages and events were emitted. -/
def Configuration.withLogs (c : Configuration) (emitted events : List Value) : Configuration :=
  { c with session.emitted := emitted, session.events := events }

/-- What running a block does to a configuration. -/
structure Interpreter.Frames (i : Interpreter) (block : List Stmt) (c : Configuration) : Prop where
  scene : (i.exec block c).2.scene = c.scene
  depth : (i.exec block c).2.depth = c.depth
  env : (i.exec block c).2.session.machine.arena.Above c.session.machine.arena.size
    (i.exec block c).2.session.env c.session.env
  sameEnv : ∀ st, block = [st] → st.isScoped = true →
    (i.exec block c).2.session.env = c.session.env
  /-- The result, what is emitted and all that is left are the same whatever was emitted before. -/
  logs : ∃ (result : Except Fault Unit) (d : Configuration) (emitted events : List Value),
    ∀ emitted₀ events₀,
    i.exec block (c.withLogs emitted₀ events₀) =
      (result, d.withLogs (emitted₀ ++ emitted) (events₀ ++ events))
  credited : Credited c.scene.incoming c.session (i.exec block c).2.session ∧
    (i.exec block c).2.session.balance.val < 2 ^ 128

theorem frames_interpreter (s : Setting) (block : List Stmt) (c : Configuration) :
    (interpreter s).Frames block c where
  scene := rfl
  depth := rfl
  env := (steps_nests.exec s (s.depthLimit - c.depth) c.scene block c.session).env
  sameEnv st hblock hst := by
    subst hblock
    exact exec_keepsEnv s (s.depthLimit - c.depth) c.scene hst c.session
  logs := by
    obtain ⟨scene, t, depth⟩ := c
    let blank : Session := { t with emitted := [], events := [] }
    let last := execAt s depth scene block blank
    refine ⟨last.1, ⟨scene, last.2, depth⟩, last.2.emitted, last.2.events, fun emitted events ↦ ?_⟩
    have hlogs := steps_logging.exec s (s.depthLimit - depth) scene block emitted events blank
    have hblank : blank.logging emitted events = { t with emitted, events } := by
      simp only [Session.logging, blank, List.append_nil]
    rw [hblank] at hlogs
    exact congrArg (fun r : Except Fault Unit × Session ↦ (r.1, Configuration.mk scene r.2 depth))
      hlogs
  credited := by
    refine ⟨?_, Tokens.isLt _⟩
    exact Point.run_credited s ⟨s.depthLimit - c.depth, c.scene, .block block, c.session⟩

/-- Execution on a configuration in which everything can be written is determined by its equation,
and is execution as defined. It restores what it has to restore, on all paths, and what it may
change it only changes in the ways of `Interpreter.Frames`. -/
theorem frame_law (s : Setting) :
    (∃! i : Interpreter, i.unfold s = i) ∧
      ∀ i : Interpreter, i.unfold s = i → ∀ (block : List Stmt) (c : Configuration),
        (i.exec block c).1 = (exec s (s.depthLimit - c.depth) c.scene block c.session).1 ∧
          (i.exec block c).2.session =
            (exec s (s.depthLimit - c.depth) c.scene block c.session).2 ∧
          i.Frames block c := by
  constructor
  · refine ⟨interpreter s, (Interpreter.unfold_eq_iff s _).mpr rfl, fun i hi ↦ ?_⟩
    exact (Interpreter.unfold_eq_iff s i).mp hi
  · intro i hi block c
    rw [(Interpreter.unfold_eq_iff s i).mp hi]
    exact ⟨rfl, rfl, frames_interpreter s block c⟩

namespace Purse

def setting : Setting := ⟨.standard, 2⟩

/-- There is a procedure that takes the incoming tokens and fails. -/
def scene : Scene where
  initEnv := .empty
  fields := []
  incoming := ⟨5, by decide⟩
  chain := .empty
  procedures := [⟨.procedure, "take", [], [.accept, .throw none]⟩]
  trail := []

def start : Configuration where
  scene := scene
  session :=
    let (arena, env) := Arena.empty.bindAll .empty
      [(Label.sender, .str "a"), (Label.origin, .str "a"), (Label.amount, .str "5")]
    ⟨⟨arena, 10⟩, env, .zero, false, [], [], .empty⟩
  depth := 1

def block : List Stmt := [.bind "x" (.literal (.str "")), .call "take" []]

end Purse

/-- The call fails at the last level that there is room for, with the tokens taken and the name of
the caller bound. -/
theorem frame_law_purse :
    ∃ i : Interpreter, i.unfold Purse.setting = i ∧
      ((i.exec Purse.block Purse.start).1.isOk,
        (i.exec Purse.block Purse.start).2.session.balance.val,
        (i.exec Purse.block Purse.start).2.session.env.top) = (false, 5, some 3) ∧
      i.Frames Purse.block Purse.start := by
  obtain ⟨⟨i, hi, -⟩, hlaw⟩ := frame_law Purse.setting
  obtain ⟨hresult, hsession, hframes⟩ := hlaw i hi Purse.block Purse.start
  refine ⟨i, hi, ?_, hframes⟩
  rw [hresult, hsession]
  decide +kernel

end MeteredContract
