import MeteredContract.Proofs.Evaluation.Stage

/-!
Safety and immutability of arenas. In a well-formed arena parents are older than their frames and
the scopes of closures lie in the arena. Every stage that an evaluation reaches starts from a
well-formed arena and accesses only frames of it (`Stage.Sound.safe`); frames that are there do not
change, except that a recursive binding fills in the frame that it has added itself. So names keep
their values from each instant of an evaluation, the start or the end of a stage, to all later ones
(`Stage.Precedes.evolves`), and a recursive function finds itself in its own scope
(`Stage.findsItself`).
-/

set_option autoImplicit false
set_option relaxedAutoImplicit false

namespace MeteredContract

namespace Arena

variable {a : Arena} {env : Env}

/-- Parents are older than their frames, and the scope of every closure that is bound, at any depth
of a value, lies in the arena. -/
structure WellFormed (a : Arena) : Prop where
  parent : ∀ {i f}, a.frame? i = some f → f.parent.InRange i
  handles : ∀ {i f v}, a.frame? i = some f → f.binding = .value v →
    v.Each fun _ scope ↦ scope.InRange a.size

theorem WellFormed.sound (ha : a.WellFormed) : a.Sound .handles where
  parent := ha.parent
  value hf hv := (ha.handles hf hv).mono fun _ _ hscope ↦ ⟨trivial, hscope⟩

theorem Sound.wellFormed (ha : a.Sound .handles) : a.WellFormed where
  parent := ha.parent
  handles hf hv := Value.Each.mono (ha.value hf hv) fun _ _ h ↦ h.2

/-- The frames that a walk from an environment comes to. -/
inductive Visits (a : Arena) : Env → Nat → Prop
  | top {env : Env} {i : Nat} (hi : env.top = some i) : Visits a env i
  | parent {env : Env} {i j : Nat} {f : Frame} (hi : env.top = some i) (hf : a.frame? i = some f)
    (h : Visits a f.parent j) : Visits a env j

theorem WellFormed.visits (ha : a.WellFormed) {i : Nat} (h : a.Visits env i)
    (henv : env.InRange a.size) : i < a.size := by
  induction h with
  | top hi => exact henv _ hi
  | parent hi hf _ ih =>
    refine ih fun j hj ↦ ?_
    have hlt := henv _ hi
    have hparent := ha.parent hf j hj
    omega

/-- The innermost name of an environment. -/
theorem lookup_of_frame? {i : Nat} {x : String} {v : Value} {parent : Env}
    (h : a.frame? i = some ⟨x, .value v, parent⟩) : a.lookup ⟨some i⟩ x = .ok v :=
  lookup_eq_ok.mpr ⟨_, find?_of_frame? h, rfl⟩

end Arena

/-! ### Stages in well-formed arenas -/

/-- The environments and values of the task lie in an arena of that many frames. -/
def Task.InRange (n : Nat) : Task → Prop
  | .expr _ env => env.InRange n
  | .apply env f _ => env.InRange n ∧ f.Obeys .handles n
  | .tyApply env f _ => env.InRange n ∧ f.Obeys .handles n
  | .body frame _ =>
    frame.parent.InRange n ∧ ∀ v, frame.binding = .value v → v.Obeys .handles n

/-- The environment in which the task looks up names; the entry into a body looks up none. -/
def Task.scope? : Task → Option Env
  | .expr _ env => some env
  | .apply env _ _ => some env
  | .tyApply env _ _ => some env
  | .body _ _ => none

theorem Task.InRange.scope {n : Nat} {task : Task} (h : task.InRange n) {env : Env}
    (henv : task.scope? = some env) : env.InRange n := by
  cases task with
  | expr e env' =>
    cases henv
    exact h
  | apply env' f args | tyApply env' f targs =>
    cases henv
    exact h.1
  | body frame e => cases henv

namespace Stage

variable {s : Setting} {p q r : Stage}

structure Sound (p : Stage) : Prop where
  arena : p.machine.arena.Sound .handles
  task : p.task.InRange p.machine.arena.size

/-- A run keeps the arena sound and gives a value whose closures lie in it. -/
theorem Sound.run (hp : p.Sound) (s : Setting) :
    (p.run s).2.arena.Sound .handles ∧ p.machine.arena.size ≤ (p.run s).2.arena.size ∧
      ∀ v, (p.run s).1 = .ok v → v.Obeys .handles (p.run s).2.arena.size := by
  obtain ⟨harena, htask⟩ := hp
  obtain ⟨room, task, m⟩ := p
  have henter := isSafe_enter .handles s room
  cases task with
  | expr e env => exact safe_eval s room trivial htask m harena (Nat.le_refl _)
  | apply env f args =>
    exact Enter.safe_applyAll henter env htask.2 args m harena (Nat.le_refl _)
  | tyApply env f targs =>
    exact Enter.safe_tyApplyAll henter env htask.2 targs m harena (Nat.le_refl _)
  | body frame e =>
    exact henter _ frame e htask.1 htask.2 trivial m harena (Nat.le_refl _)

theorem sound_push {m : Machine} {frame : Frame} (hm : m.arena.Sound .handles)
    (hparent : frame.parent.InRange m.arena.size)
    (hvalue : ∀ v, frame.binding = .value v → v.Obeys .handles m.arena.size) (room : Nat)
    (e : Expr) :
    Sound ⟨room, .expr e (m.arena.push frame).2, m.scoped (m.arena.push frame)⟩ := by
  refine ⟨hm.push hparent hvalue, ?_⟩
  show Env.InRange (m.arena.push frame).2 (m.arena.push frame).1.size
  rw [Arena.size_push, Arena.push_top]
  exact Discipline.handles.scope_top m.arena.size

theorem Leads.sound (h : Leads s p q) (hp : p.Sound) : q.Sound := by
  obtain ⟨harena, htask⟩ := hp
  cases h with
  | rhs | located => exact ⟨harena, htask⟩
  | @letBody room x declared rhs body env m m' v hrhs =>
    have hsafe : EvalM.SafeValue .handles m.arena.size (eval s room rhs env) :=
      safe_eval s room trivial htask
    obtain ⟨hsound, hle, hv⟩ := hsafe.of_eq hrhs harena (Nat.le_refl _)
    have henv : env.InRange m'.arena.size := Discipline.handles.scope_mono hle htask
    refine @sound_push m' ⟨x, .value v, env⟩ hsound henv ?_ room body
    rintro _ ⟨⟩
    exact hv
  | app hf | tyApp hf => exact ⟨harena, htask, harena.lookup _ _ _ hf⟩
  | clause hv hmatch hclause =>
    have hbinds := Pattern.each_of_firstMatch hmatch (harena.lookup _ _ _ hv)
    obtain ⟨hsound, -, hscope⟩ := harena.bindAll htask hbinds
    exact ⟨hsound, hscope⟩
  | fixBody room name ty body env m =>
    exact @sound_push m ⟨name, .pending, env⟩ harena htask nofun room body
  | @charged room c body env m m' hpaid =>
    have hsafe : EvalM.Safe .handles m.arena.size (EvalM.charge env c) fun _ _ ↦ True :=
      EvalM.safe_charge env c
    obtain ⟨hsound, hle, -⟩ := hsafe.of_eq hpaid harena (Nat.le_refl _)
    exact ⟨hsound, Discipline.handles.scope_mono hle htask⟩
  | argument hx =>
    obtain ⟨-, hscope⟩ := (Value.each_closure ..).mp htask.2
    refine ⟨harena, hscope, ?_⟩
    rintro _ ⟨⟩
    exact harena.lookup _ _ _ hx
  | @applied room env f g arg x xs m m' hx hf =>
    have henter := isSafe_enter .handles s room
    have hsafe := Enter.safe_apply henter htask.2 (harena.lookup env x arg hx)
    obtain ⟨hsound, hle, hg⟩ := hsafe.of_eq hf harena (Nat.le_refl _)
    exact ⟨hsound, Discipline.handles.scope_mono hle htask.1, hg⟩
  | tyArgument =>
    obtain ⟨-, hscope⟩ := (Value.each_tyClosure ..).mp htask.2
    exact ⟨harena, hscope, nofun⟩
  | @instantiated room env f g t ts m m' hf =>
    have henter := isSafe_enter .handles s room
    have hsafe := Enter.safe_tyApply henter htask.2 (m.arena.resolveTy env t)
    obtain ⟨hsound, hle, hg⟩ := hsafe.of_eq hf harena (Nat.le_refl _)
    exact ⟨hsound, Discipline.handles.scope_mono hle htask.1, hg⟩
  | entered => exact sound_push harena htask.1 htask.2 _ _

theorem Reaches.sound (h : Reaches s p q) (hp : p.Sound) : q.Sound := by
  induction h with
  | refl => exact hp
  | tail _ hlead ih => exact hlead.sound ih

/-- The stage itself, apart from the stages that it leads to, reads or writes the frame with that
index in the arena. It reads along its environment, and only a recursive binding writes, to the
frame that it has added. -/
inductive Accesses (s : Setting) : Stage → Arena → Nat → Prop
  | read {p : Stage} {env : Env} {i : Nat} (henv : p.task.scope? = some env)
    (hi : p.machine.arena.Visits env i) : Accesses s p p.machine.arena i
  | write {room : Nat} {name : String} {ty : Ty} {body : Expr} {env : Env} {m m' : Machine}
    {v : Value} {i : Nat}
    (hbody : eval s room body (m.arena.bindPending env name).2
      (m.scoped (m.arena.bindPending env name)) = (.ok v, m'))
    (hi : (m.arena.bindPending env name).2.top = some i) :
    Accesses s ⟨room, .expr (.fix name ty body) env, m⟩ m'.arena i

/-- What the stage accesses lies in the arena, and the arena is well-formed before and after. -/
structure Safe (s : Setting) (p : Stage) : Prop where
  start : p.machine.arena.WellFormed
  finish : (p.run s).2.arena.WellFormed
  access : ∀ {a i}, p.Accesses s a i → i < a.size
  /-- Every lookup comes to the end of its scope. -/
  lookups : ∀ {env}, p.task.scope? = some env →
    p.machine.arena.Chain env (p.machine.arena.chain env)

theorem Sound.safe (hp : p.Sound) (s : Setting) : p.Safe s where
  start := hp.arena.wellFormed
  finish := (hp.run s).1.wellFormed
  access h := by
    cases h with
    | read henv hi => exact hp.arena.wellFormed.visits hi (hp.task.scope henv)
    | @write room name ty body env m m' v i hbody hi =>
      have hpending := frame?_fixBody s room name body env m
      rw [hbody] at hpending
      cases hi
      exact Arena.lt_size_of_frame? hpending
  lookups henv := (Arena.chain_complete hp.arena (hp.task.scope henv)).1

/-! ### Instants -/

/-- The second stage starts when the first has succeeded, as parts of one stage. -/
inductive Follows (s : Setting) : Stage → Stage → Prop
  | letBody {room : Nat} {x : String} {rhs body : Expr} {env : Env} {m m' : Machine} {v : Value}
    (hrhs : eval s room rhs env m = (.ok v, m')) :
    Follows s ⟨room, .expr rhs env, m⟩
      ⟨room, .expr body (m'.arena.bind env x v).2, m'.scoped (m'.arena.bind env x v)⟩
  | applied {room : Nat} {env : Env} {frame : Frame} {body : Expr} {xs : List String}
    {m m' : Machine} {g : Value} (hbody : enter s room frame body m = (.ok g, m')) :
    Follows s ⟨room, .body frame body, m⟩ ⟨room, .apply env g xs, m'⟩
  | instantiated {room : Nat} {env : Env} {frame : Frame} {body : Expr} {ts : List Ty}
    {m m' : Machine} {g : Value} (hbody : enter s room frame body m = (.ok g, m')) :
    Follows s ⟨room, .body frame body, m⟩ ⟨room, .tyApply env g ts, m'⟩

theorem Follows.grows (h : Follows s p q) : (p.run s).2.Grows q.machine := by
  cases h with
  | @letBody room x rhs body env m m' v hrhs =>
    have hrun : run s ⟨room, .expr rhs env, m⟩ = (.ok v, m') := hrhs
    rw [hrun]
    exact Arena.grows_push _ _
  | @applied room env frame body xs m m' g hbody
  | @instantiated room env frame body xs m m' g hbody =>
    have hrun : run s ⟨room, .body frame body, m⟩ = (.ok g, m') := hbody
    rw [hrun]
    exact Arena.Grows.refl _

inductive Instant where
  | start (p : Stage)
  | finish (p : Stage)

def Instant.arena (s : Setting) : Instant → Arena
  | .start p => p.machine.arena
  | .finish p => (p.run s).2.arena

/-- One instant comes right before another in a run. -/
inductive Next (s : Setting) : Instant → Instant → Prop
  | run (p : Stage) : Next s (.start p) (.finish p)
  | enter {p q : Stage} (h : Leads s p q) : Next s (.start p) (.start q)
  | leave {p q : Stage} (h : Leads s p q) : Next s (.finish q) (.finish p)
  | proceed {p q r : Stage} (hq : Leads s p q) (hr : Leads s p r) (h : Follows s q r) :
    Next s (.finish q) (.start r)

def Precedes (s : Setting) : Instant → Instant → Prop := Relation.ReflTransGen (Next s)

theorem Next.evolves {x y : Instant} (h : Next s x y) : (x.arena s).Evolves (y.arena s) := by
  cases h with
  | run p => exact (p.grows_run s).evolves
  | enter h => exact h.grows.evolves
  | leave h => exact h.evolves
  | proceed hq hr h => exact h.grows.evolves

/-- Between instants only pending frames get values. -/
theorem Precedes.evolves {x y : Instant} (h : Precedes s x y) :
    (x.arena s).Evolves (y.arena s) := by
  induction h with
  | refl => exact (Arena.Grows.refl _).evolves
  | tail _ hnext ih => exact ih.trans hnext.evolves

end Stage

/-! ### Recursive functions -/

/-- The expression without the positions around it. -/
def Expr.unlocated : Expr → Expr
  | .located _ e => e.unlocated
  | e => e

/-- A function literal evaluates to a closure over the environment. -/
theorem eval_of_unlocated_fn {e code : Expr} {param : String} {t : Ty}
    (h : e.unlocated = .fn param t code) (s : Setting) (room : Nat) (env : Env) (m : Machine) :
    eval s room e env m =
      (.ok (.closure m.arena.nextId param (m.arena.resolveTy env t) code env), m) := by
  induction e with
  | fn param' t' body =>
    cases h
    rfl
  | located sp e ih =>
    have hinner := ih h
    rw [eval] at hinner ⊢
    rw [Expr.evalWith, Run.annotate, hinner]
  | _ => cases h

namespace Stage

/-- If the stage evaluates a recursive binding of a function literal, then it gives a closure, and
in the scope of the closure the name has that closure as its value at all later instants. -/
def FindsItself (s : Setting) (p : Stage) : Prop :=
  ∀ room name ty body env m param t code, p = ⟨room, .expr (.fix name ty body) env, m⟩ →
    body.unlocated = .fn param t code →
    ∃ id t' scope, (p.run s).1 = .ok (.closure id param t' code scope) ∧
      ∀ y, Precedes s (.finish p) y →
        (y.arena s).lookup scope name = .ok (.closure id param t' code scope)

theorem findsItself (s : Setting) (p : Stage) : p.FindsItself s := by
  rintro room name ty body env m param t code rfl hbody
  let inner := m.arena.bindPending env name
  let v : Value :=
    .closure inner.1.nextId param (inner.1.resolveTy inner.2 t) code inner.2
  have hliteral : eval s room body inner.2 (m.scoped inner) = (.ok v, m.scoped inner) :=
    eval_of_unlocated_fn hbody s room inner.2 (m.scoped inner)
  have hrun : run s ⟨room, .expr (.fix name ty body) env, m⟩ =
      (.ok v, ⟨inner.1.set inner.2 v, m.gas⟩) := by
    rw [run_fix, Run.bind_of_ok hliteral]
    rfl
  refine ⟨_, _, inner.2, by rw [hrun], ?_⟩
  intro y hy
  refine hy.evolves.lookup ?_
  show (run s ⟨room, .expr (.fix name ty body) env, m⟩).2.arena.lookup inner.2 name = .ok v
  have hframe : inner.1.frame? m.arena.size = some ⟨name, .pending, env⟩ := by
    show (m.arena.push _).1.frame? m.arena.size = _
    rw [Arena.frame?_push, if_pos rfl]
  have hset : (inner.1.set inner.2 v).frame? m.arena.size = some ⟨name, .value v, env⟩ := by
    have htop : inner.2.top = some m.arena.size := rfl
    rw [Arena.frame?_set, if_pos htop, hframe, Option.map_some]
  rw [hrun]
  exact Arena.lookup_of_frame? hset

end Stage

/-- Evaluation in a well-formed arena, whether it fails or not: every stage that it reaches starts and
ends with a well-formed arena, accesses only frames of it, leaves the frames that it found as they
were, and ties recursive functions to themselves; the result lies in the arena that is left; and a
name that has a value at an instant has it at all later ones. No bound on the number of frames is
asked for, but only with fewer than `2 ^ 32` of them do the handles stand for handles of 32 bits. -/
theorem arena_safe_and_immutable (s : Setting) (room : Nat) (e : Expr) (env : Env) (m : Machine)
    (harena : m.arena.WellFormed) (henv : env.InRange m.arena.size) :
    let done := eval s room e env m
    (∀ q, Stage.Reaches s ⟨room, .expr e env, m⟩ q →
      q.Safe s ∧ q.machine.arena.Grows (q.run s).2.arena ∧ q.FindsItself s) ∧
    done.2.arena.WellFormed ∧
    m.arena.Grows done.2.arena ∧
    (∀ v, done.1 = .ok v → v.Each fun _ scope ↦ scope.InRange done.2.arena.size) ∧
    ∀ x y, Stage.Precedes s x y → ∀ scope name v,
      (x.arena s).lookup scope name = .ok v → (y.arena s).lookup scope name = .ok v := by
  intro done
  have hstart : Stage.Sound ⟨room, .expr e env, m⟩ := ⟨harena.sound, henv⟩
  obtain ⟨hsound, -, hvalue⟩ := hstart.run s
  refine ⟨?_, hsound.wellFormed, grows_eval s room e env m, ?_, ?_⟩
  · intro q hq
    exact ⟨(hq.sound hstart).safe s, q.grows_run s, q.findsItself s⟩
  · intro v hv
    exact Value.Each.mono (hvalue v hv) fun _ _ h ↦ h.2
  · intro x y hxy scope name v hv
    exact hxy.evolves.lookup hv

namespace Loop

/-- A function that calls itself. -/
def code : Expr := .fix "loop" .uint32 (.located ⟨3, 9⟩ (.fn "n" .uint32 (.app "loop" ["n"])))

def identity : Value := .closure (.given 0) "x" .uint32 (.var "x") .empty

/-- One function in the frozen layer and one number above it. -/
def arena : Arena :=
  let library := (Arena.empty.bind .empty "id" identity).1
  ((Arena.ofFrozen library.freeze).bind ⟨some 0⟩ "one" (.bnum 1)).1

theorem built_arena : arena.Built := by
  have hempty : ∀ n, Env.InRange .empty n := by
    rintro n i ⟨⟩
  have hone : Env.InRange ⟨some 0⟩ 1 := by
    rintro _ ⟨⟩
    decide
  have hidentity : identity.Each fun _ scope ↦ scope.InRange Arena.empty.size :=
    (Value.each_closure ..).mpr (hempty _)
  have hid : Arena.Built (Arena.empty.bind .empty "id" identity).1 :=
    .bind .empty (hempty _) "id" hidentity
  exact .bind (.freeze hid) hone "one" (Value.each_bnum 1)

end Loop

theorem arena_safe_and_immutable_loop :
    Loop.arena.WellFormed ∧ Env.InRange ⟨some 1⟩ Loop.arena.size ∧
      let done := eval ⟨.standard, 4⟩ 4 Loop.code ⟨some 1⟩ ⟨Loop.arena, 10⟩
      ∃ id t scope, done.1 = .ok (.closure id "n" t (.app "loop" ["n"]) scope) ∧
        done.2.arena.lookup scope "loop" = .ok (.closure id "n" t (.app "loop" ["n"]) scope) := by
  have harena : Loop.arena.WellFormed := Loop.built_arena.sound.wellFormed
  have henv : Env.InRange ⟨some 1⟩ Loop.arena.size := by
    rintro _ ⟨⟩
    decide
  obtain ⟨hstages, -⟩ :=
    arena_safe_and_immutable ⟨.standard, 4⟩ 4 Loop.code ⟨some 1⟩ ⟨Loop.arena, 10⟩ harena henv
  obtain ⟨-, -, hfinds⟩ := hstages _ .refl
  obtain ⟨id, t, scope, hrun, hlater⟩ := hfinds 4 _ _ _ _ _ _ _ _ rfl rfl
  exact ⟨harena, henv, id, t, scope, hrun, hlater _ .refl⟩

end MeteredContract
