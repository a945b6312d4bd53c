import MeteredContract.Eval.Expr
import MeteredContract.Proofs.Clauses
import MeteredContract.Proofs.Scope.Sound

/-!
Evaluation keeps arenas sound. `EvalM.Safe` is a judgement on computations that is indexed by the
number of frames: what is known of environments and values stays true as the arena grows.
-/

set_option autoImplicit false
set_option relaxedAutoImplicit false

namespace MeteredContract

namespace EvalM

variable {α β : Type} {d : Discipline} {n : Nat}

/-- From a sound arena of at least `n` frames, the computation leaves a sound arena with no fewer
frames, whether it fails or not, and a result satisfies `post`. -/
def Safe (d : Discipline) (n : Nat) (x : EvalM α) (post : Nat → α → Prop) : Prop :=
  ∀ m : Machine, m.arena.Sound d → n ≤ m.arena.size →
    (x m).2.arena.Sound d ∧ m.arena.size ≤ (x m).2.arena.size ∧
      ∀ r, (x m).1 = .ok r → post (x m).2.arena.size r

namespace Safe

theorem of_eq {x : EvalM α} {post : Nat → α → Prop} (hx : Safe d n x post) {m m' : Machine} {r : α}
    (h : x m = (.ok r, m')) (hm : m.arena.Sound d) (hn : n ≤ m.arena.size) :
    m'.arena.Sound d ∧ m.arena.size ≤ m'.arena.size ∧ post m'.arena.size r := by
  obtain ⟨hsound, hle, hpost⟩ := hx m hm hn
  rw [h] at hsound hle hpost
  exact ⟨hsound, hle, hpost r rfl⟩

theorem pure {a : α} {post : Nat → α → Prop} (h : ∀ k, n ≤ k → post k a) :
    Safe d n (Pure.pure a) post := by
  intro m hm hn
  refine ⟨hm, Nat.le_refl _, ?_⟩
  rintro _ ⟨⟩
  exact h _ hn

theorem fail (c : Cause) (post : Nat → α → Prop) : Safe d n (Run.fail c) post := by
  intro m hm hn
  exact ⟨hm, Nat.le_refl _, nofun⟩

theorem bind {x : EvalM α} {f : α → EvalM β} {post : Nat → α → Prop} {post' : Nat → β → Prop}
    (hx : Safe d n x post) (hf : ∀ a k, n ≤ k → post k a → Safe d k (f a) post') :
    Safe d n (x >>= f) post' := by
  intro m hm hn
  obtain ⟨hsound, hle, hpost⟩ := hx m hm hn
  cases hrun : x m with
  | mk result t =>
    rw [hrun] at hsound hle hpost
    cases result with
    | error e =>
      rw [Run.bind_of_error hrun f]
      exact ⟨hsound, hle, nofun⟩
    | ok a =>
      rw [Run.bind_of_ok hrun f]
      obtain ⟨hsound', hle', hpost'⟩ :=
        hf a t.arena.size (Nat.le_trans hn hle) (hpost a rfl) t hsound (Nat.le_refl _)
      exact ⟨hsound', Nat.le_trans hle hle', hpost'⟩

theorem annotate {x : EvalM α} {post : Nat → α → Prop} (g : Fault → Fault)
    (hx : Safe d n x post) : Safe d n (x.annotate g) post := by
  intro m hm hn
  obtain ⟨hsound, hle, hpost⟩ := hx m hm hn
  rw [Run.annotate_snd]
  refine ⟨hsound, hle, fun r hr ↦ hpost r ?_⟩
  unfold Run.annotate at hr
  split at hr
  · next hrun =>
    cases hr
    rw [hrun]
  · cases hr

theorem inspect {f : Arena → Except Cause α} {post : Nat → α → Prop}
    (h : ∀ a : Arena, a.Sound d → n ≤ a.size → ∀ r, f a = .ok r → post a.size r) :
    Safe d n (inspect f) post := by
  intro m hm hn
  rw [EvalM.inspect, Run.read_snd]
  refine ⟨hm, Nat.le_refl _, fun r hr ↦ h m.arena hm hn r ?_⟩
  rw [Run.read] at hr
  split at hr
  · next hf =>
    cases hr
    exact hf
  · cases hr

theorem ofExcept {x : Except Cause α} {post : Nat → α → Prop}
    (h : ∀ r, x = .ok r → ∀ k, n ≤ k → post k r) : Safe d n (Run.ofExcept x) post := by
  show Safe d n (EvalM.inspect fun _ ↦ x) post
  exact inspect fun a _ hn r hr ↦ h r hr a.size hn

/-- Extending the arena gives an environment of it. -/
theorem extend {f : Arena → Arena × Env}
    (h : ∀ a : Arena, a.Sound d → n ≤ a.size →
      (f a).1.Sound d ∧ a.size ≤ (f a).1.size ∧ d.scope (f a).1.size (f a).2) :
    Safe d n (extend f) d.scope := by
  intro m hm hn
  obtain ⟨hsound, hle, hscope⟩ := h m.arena hm hn
  refine ⟨hsound, hle, ?_⟩
  rintro _ ⟨⟩
  exact hscope

theorem push {f : Frame} (hparent : d.scope n f.parent)
    (hvalue : ∀ v, f.binding = .value v → v.Obeys d n) :
    Safe d n (EvalM.extend (·.push f)) d.scope := by
  refine extend fun a ha hn ↦ ?_
  refine ⟨ha.push (d.scope_mono hn hparent) fun v hv ↦ (hvalue v hv).mono hn, ?_, ?_⟩
  · rw [Arena.size_push]
    omega
  · rw [Arena.size_push, Arena.push_top]
    exact d.scope_top a.size

end Safe

/-- The result keeps to the discipline. -/
abbrev SafeValue (d : Discipline) (n : Nat) (x : EvalM Value) : Prop :=
  Safe d n x fun k v ↦ v.Obeys d k

theorem safe_lookup (env : Env) (x : String) : SafeValue d n (lookup env x) :=
  .inspect fun _ ha _ v hv ↦ ha.lookup env x v hv

theorem safe_bind {env : Env} (henv : d.scope n env) (x : String) {v : Value}
    (hv : v.Obeys d n) : Safe d n (EvalM.bind env x v) d.scope := by
  refine Safe.push henv ?_
  rintro _ ⟨⟩
  exact hv

theorem safe_bindAll {env : Env} (henv : d.scope n env) {bs : List (String × Value)}
    (hbs : ∀ b ∈ bs, b.2.Obeys d n) : Safe d n (bindAll env bs) d.scope :=
  .extend fun _ ha hn ↦ ha.bindAll (d.scope_mono hn henv) fun b hb ↦ (hbs b hb).mono hn

theorem safe_setTop (env : Env) {v : Value} (hv : v.Obeys d n) :
    Safe d n (setTop env v) fun _ _ ↦ True := by
  intro m hm hn
  refine ⟨hm.set env (hv.mono hn), ?_, fun _ _ ↦ trivial⟩
  show m.arena.size ≤ (m.arena.set env v).size
  exact Nat.le_of_eq (Arena.size_set _ _ _).symm

theorem safe_charge (env : Env) (c : Charge) : Safe d n (charge env c) fun _ _ ↦ True := by
  have hresolve : Safe d n (inspect fun a ↦ Gas.resolve (a.lookup env) c) fun _ _ ↦ True :=
    .inspect fun _ _ _ _ _ ↦ trivial
  refine hresolve.bind fun amount k _ _ m hm _ ↦ ?_
  unfold pay
  split
  · exact ⟨hm, Nat.le_refl _, fun _ _ ↦ trivial⟩
  · exact ⟨hm, Nat.le_refl _, fun _ _ ↦ trivial⟩

theorem safe_primitive (env : Env) (op : String) (args : List String) :
    SafeValue d n (primitive env op args) := by
  have hcall : Safe d n (inspect (·.primitiveCall env op args)) fun k call ↦
      EachOk (fun body env ↦ d.code body ∧ d.scope k env) (call.op.run call.args call.ret) :=
    .inspect fun _ ha _ _ hcall ↦ Arena.each_of_primitiveCall (ha.lookup env) hcall
  refine hcall.bind fun call k _ heach ↦ (safe_charge env call.price).bind fun _ k' hk _ ↦ ?_
  refine .ofExcept fun v hv j hj ↦ ?_
  have hobeys : v.Obeys d k := heach v hv
  exact hobeys.mono (Nat.le_trans hk hj)

end EvalM

open EvalM

/-- Entering a body is safe if the frame and the body keep to the discipline. -/
def Enter.IsSafe (enter : Enter) (d : Discipline) : Prop :=
  ∀ (n : Nat) (f : Frame) (body : Expr), d.scope n f.parent →
    (∀ v, f.binding = .value v → v.Obeys d n) → d.code body → SafeValue d n (enter f body)

section Expressions

variable {d : Discipline} {n : Nat} {enter : Enter} (henter : enter.IsSafe d)

include henter

theorem Enter.safe_apply {f arg : Value} (hf : f.Obeys d n) (harg : arg.Obeys d n) :
    SafeValue d n (enter.apply f arg) := by
  cases f with
  | closure id param ty body env =>
    obtain ⟨hbody, henv⟩ := (Value.each_closure ..).mp hf
    refine henter n _ body henv ?_ hbody
    rintro _ ⟨⟩
    exact harg
  | _ => exact .fail _ _

theorem Enter.safe_tyApply {f : Value} (hf : f.Obeys d n) (t : Ty) :
    SafeValue d n (enter.tyApply f t) := by
  cases f with
  | tyClosure id tvar body env =>
    obtain ⟨hbody, henv⟩ := (Value.each_tyClosure ..).mp hf
    exact henter n _ body henv nofun hbody
  | _ => exact .fail _ _

theorem Enter.safe_applyAll (env : Env) {f : Value} (hf : f.Obeys d n) (xs : List String) :
    SafeValue d n (enter.applyAll env f xs) := by
  induction xs generalizing f n with
  | nil => exact .pure fun k hk ↦ hf.mono hk
  | cons x xs ih =>
    refine (safe_lookup env x).bind fun arg k hk harg ↦ ?_
    exact (safe_apply henter (hf.mono hk) harg).bind fun g k' _ hg ↦ ih hg

theorem Enter.safe_tyApplyAll (env : Env) {f : Value} (hf : f.Obeys d n) (ts : List Ty) :
    SafeValue d n (enter.tyApplyAll env f ts) := by
  induction ts generalizing f n with
  | nil => exact .pure fun k hk ↦ hf.mono hk
  | cons t ts ih =>
    have ht : Safe d n (inspect fun a ↦ .ok (a.resolveTy env t)) fun _ _ ↦ True :=
      .inspect fun _ _ _ _ _ ↦ trivial
    refine ht.bind fun t k hk _ ↦ ?_
    exact (safe_tyApply henter (hf.mono hk) t).bind fun g k' _ hg ↦ ih hg

/-- An expression is safe to evaluate if bodies are safe to enter. -/
theorem Expr.safe_evalWith (types : Datatypes) {e : Expr} (he : d.code e) {env : Env}
    (henv : d.scope n env) : SafeValue d n (e.evalWith types enter env) := by
  have hpart : ∀ {part}, part ∈ e.parts → d.code part := fun h ↦ d.code_part h he
  induction e generalizing n env with
  | literal l => exact .inspect fun a _ _ v hv ↦ a.eachOk_literal env l v hv
  | var x => exact safe_lookup env x
  | letIn x declared rhs body ihrhs ihbody =>
    have hrhs : d.code rhs := hpart (by simp [parts])
    have hbody : d.code body := hpart (by simp [parts])
    -- The arena may have grown, so the scope is judged anew by `scope_mono`.
    refine (ihrhs hrhs henv fun h ↦ d.code_part h hrhs).bind fun v k hk hv ↦ ?_
    refine (safe_bind (d.scope_mono hk henv) x hv).bind fun inner k' _ hinner ↦ ?_
    exact ihbody hbody hinner fun h ↦ d.code_part h hbody
  | message entries =>
    have hentries : Safe d n (inspect (·.messageEntries env entries)) fun k es ↦
        (Value.message es).Obeys d k :=
      .inspect fun _ ha _ es hes ↦ Arena.each_of_messageEntries (ha.lookup env) hes
    exact hentries.bind fun es k _ hes ↦ .pure fun k' hk ↦ hes.mono hk
  | fn param ty body =>
    refine .inspect fun a _ hn v hv ↦ ?_
    cases hv
    exact (Value.each_closure ..).mpr ⟨hpart (by simp [parts]), d.scope_mono hn henv⟩
  | app f args =>
    exact (safe_lookup env f).bind fun v k _ hv ↦ Enter.safe_applyAll henter env hv args
  | construct name targs args =>
    exact .inspect fun _ ha _ v hv ↦
      Arena.eachOk_construct (ha.lookup env) types name targs args v hv
  | matching x clauses ih =>
    refine (safe_lookup env x).bind fun v k hk hv ↦ ?_
    split
    · exact .fail _ _
    · next i binds hmatch =>
      obtain ⟨clause, hclause⟩ := exists_clause hmatch
      have hmem : clause ∈ clauses := List.mem_of_getElem? hclause
      have hcode : d.code clause.2 := hpart (List.mem_map_of_mem hmem)
      have hbinds := Pattern.each_of_firstMatch hmatch hv
      refine (safe_bindAll (d.scope_mono hk henv) hbinds).bind fun inner k' _ hinner ↦ ?_
      rw [evalClause_eq x hclause]
      exact ih clause hmem hcode hinner fun h ↦ d.code_part h hcode
  | builtin op targs args => exact safe_primitive env op args
  | tyFn tvar body =>
    refine .inspect fun a _ hn v hv ↦ ?_
    cases hv
    exact (Value.each_tyClosure ..).mpr ⟨hpart (by simp [parts]), d.scope_mono hn henv⟩
  | tyApp f targs =>
    exact (safe_lookup env f).bind fun v k _ hv ↦ Enter.safe_tyApplyAll henter env hv targs
  | fix name ty body ih =>
    have hbody : d.code body := hpart (by simp [parts])
    have hpush : Safe d n (extend (·.bindPending env name)) d.scope := Safe.push henv nofun
    refine hpush.bind fun inner k _ hinner ↦ ?_
    refine (ih hbody hinner fun h ↦ d.code_part h hbody).bind fun v k' _ hv ↦ ?_
    exact (safe_setTop inner hv).bind fun _ k'' hk _ ↦ .pure fun j hj ↦ hv.mono (Nat.le_trans hk hj)
  | gas c body ih =>
    have hbody : d.code body := hpart (by simp [parts])
    refine (safe_charge env c).bind fun _ k hk _ ↦ ?_
    exact ih hbody (d.scope_mono hk henv) fun h ↦ d.code_part h hbody
  | located span e ih =>
    have hinner : d.code e := hpart (by simp [parts])
    exact (ih hinner henv fun h ↦ d.code_part h hinner).annotate _

end Expressions

theorem isSafe_enter (d : Discipline) (s : Setting) (room : Nat) : (enter s room).IsSafe d := by
  induction room with
  | zero => exact fun _ _ _ _ _ _ ↦ .fail _ _
  | succ room ih =>
    intro n f body hparent hvalue hbody
    exact (Safe.push hparent hvalue).bind fun env k _ henv ↦
      Expr.safe_evalWith ih s.datatypes hbody henv

/-- Evaluation keeps the arena sound, and its result keeps to the discipline. -/
theorem safe_eval {d : Discipline} {n : Nat} (s : Setting) (room : Nat) {e : Expr}
    (he : d.code e) {env : Env} (henv : d.scope n env) : SafeValue d n (eval s room e env) :=
  Expr.safe_evalWith (isSafe_enter d s room) s.datatypes he henv

end MeteredContract
