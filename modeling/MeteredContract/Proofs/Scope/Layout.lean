import MeteredContract.Proofs.Scope.Likeness

/-!
Evaluation does not depend on how an arena is laid out: run in two machines that are alike, every
expression ends alike (`Expr.agrees_of_enter`, by induction on the room and, for each room, on the
expression). So neither the frozen layer nor frames that no scope reaches influence a result
(`eval_independent_of_layout`).
-/

set_option autoImplicit false
set_option relaxedAutoImplicit false

namespace MeteredContract

open EvalM Renaming

/-- No closure gets into the key of a map in what the stage comes to. -/
def Stage.KeysPure (s : Setting) (p : Stage) : Prop :=
  ∀ q, Reaches s p q → ∀ v, (q.run s).1 = .ok v → v.KeysPure

namespace Stage.KeysPure

variable {s : Setting} {p q : Stage}

theorem of_leads (hp : p.KeysPure s) (h : Leads s p q) : q.KeysPure s :=
  fun r hr ↦ hp r (.head h hr)

theorem result (hp : p.KeysPure s) {v : Value} {m : Machine} (h : p.run s = (.ok v, m)) :
    v.KeysPure :=
  hp p .refl v (by rw [h])

end Stage.KeysPure

/-- Bodies that are entered with corresponding frames run alike. -/
def Enter.Agrees (s : Setting) (room : Nat) : Prop :=
  ∀ (φ : Nat → Nat) (m m' : Machine) (f g : Frame) (body : Expr), m.Alike φ m' →
    f.Fits m.arena.size → f.Renamed φ g → Stage.KeysPure s ⟨room, .body f body, m⟩ →
    Agree φ m m' Value.Twin (enter s room f body m) (enter s room g body m')

theorem Enter.apply_of_kind_ne {enter : Enter} {f : Value} (h : f.kind ≠ .closure) (arg : Value) :
    enter.apply f arg = Run.fail (.notAFunction f.kind) := by
  cases f with
  | closure => exact absurd rfl h
  | _ => rfl

theorem Enter.tyApply_of_kind_ne {enter : Enter} {f : Value} (h : f.kind ≠ .tyClosure) (t : Ty) :
    enter.tyApply f t = Run.fail (.notATypeFunction f.kind) := by
  cases f with
  | tyClosure => exact absurd rfl h
  | _ => rfl

section Calls

variable {s : Setting} {room : Nat} (henter : Enter.Agrees s room)

include henter

theorem Enter.agree_apply {φ : Nat → Nat} {m m' : Machine} (hm : m.Alike φ m') {env : Env}
    {x : String} {xs : List String} {f g arg arg' : Value} (hfg : f.Twin φ m.arena.size g)
    (hx : m.arena.lookup env x = .ok arg) (harg : arg.Twin φ m.arena.size arg')
    (hkeys : Stage.KeysPure s ⟨room, .apply env f (x :: xs), m⟩) :
    Agree φ m m' Value.Twin ((enter s room).apply f arg m) ((enter s room).apply g arg' m') := by
  by_cases hkind : f.kind = .closure
  · cases f with
    | closure id param ty body scope =>
      obtain ⟨-, hscope⟩ := (Value.each_closure ..).mp hfg.obeys
      obtain ⟨id', rfl⟩ := hfg.renamed.of_closure
      have hpure : arg.KeysPure := Arena.Binds.lookup hm.keys hx
      exact henter φ m m' _ _ body hm (.value param hscope harg.obeys hpure)
        (.value param scope harg.renamed) (hkeys.of_leads (.argument hx))
    | _ => cases hkind
  · have hkind' := hfg.renamed.kind_eq
    rw [apply_of_kind_ne hkind, apply_of_kind_ne (hkind' ▸ hkind), hkind']
    exact .error hm _

theorem Enter.agree_applyAll {φ : Nat → Nat} {m m' : Machine} (hm : m.Alike φ m') {env env' : Env}
    (henv : env.InRange m.arena.size) (henv' : env' = env.rename φ) {f g : Value}
    (hfg : f.Twin φ m.arena.size g) (xs : List String)
    (hkeys : Stage.KeysPure s ⟨room, .apply env f xs, m⟩) :
    Agree φ m m' Value.Twin ((enter s room).applyAll env f xs m)
      ((enter s room).applyAll env' g xs m') := by
  induction xs generalizing φ m m' env' f g with
  | nil => exact .ok hm hfg
  | cons x xs ih =>
    subst henv'
    refine .lookup_bind hm henv x fun arg arg' hx harg _ ↦ ?_
    refine .bind (agree_apply henter hm hfg hx harg hkeys) fun ψ v w n n' hrun hext hn hvw ↦ ?_
    refine ih hn (Discipline.handles.scope_mono hext.size_le henv) ?_ hvw
      (hkeys.of_leads (.applied hx hrun))
    rw [Env.rename_congr hext.old henv]

theorem Enter.agree_tyApply {φ : Nat → Nat} {m m' : Machine} (hm : m.Alike φ m') {env : Env}
    {f g : Value} (hfg : f.Twin φ m.arena.size g) {t : Ty} {ts : List Ty}
    (hkeys : Stage.KeysPure s ⟨room, .tyApply env f (t :: ts), m⟩) :
    Agree φ m m' Value.Twin ((enter s room).tyApply f (m.arena.resolveTy env t) m)
      ((enter s room).tyApply g (m.arena.resolveTy env t) m') := by
  by_cases hkind : f.kind = .tyClosure
  · cases f with
    | tyClosure id tvar body scope =>
      obtain ⟨-, hscope⟩ := (Value.each_tyClosure ..).mp hfg.obeys
      obtain ⟨id', rfl⟩ := hfg.renamed.of_tyClosure
      refine henter φ m m' _ _ body hm ⟨hscope, nofun, nofun⟩ ?_ (hkeys.of_leads (.tyArgument ..))
      rw [Frame.Renamed, Frame.relabel, Frame.relabel, Env.rename_id]
      rfl
    | _ => cases hkind
  · have hkind' := hfg.renamed.kind_eq
    rw [tyApply_of_kind_ne hkind, tyApply_of_kind_ne (hkind' ▸ hkind), hkind']
    exact .error hm _

theorem Enter.agree_tyApplyAll {φ : Nat → Nat} {m m' : Machine} (hm : m.Alike φ m')
    {env env' : Env} (henv : env.InRange m.arena.size) (henv' : env' = env.rename φ) {f g : Value}
    (hfg : f.Twin φ m.arena.size g) (ts : List Ty)
    (hkeys : Stage.KeysPure s ⟨room, .tyApply env f ts, m⟩) :
    Agree φ m m' Value.Twin ((enter s room).tyApplyAll env f ts m)
      ((enter s room).tyApplyAll env' g ts m') := by
  induction ts generalizing φ m m' env' f g with
  | nil => exact .ok hm hfg
  | cons t ts ih =>
    subst henv'
    have hty := hm.embeds.resolveTy hm.arena henv t
    refine .inspect_bind hm (.inr ⟨_, _, rfl, congrArg Except.ok hty, ?_⟩)
    refine .bind (agree_tyApply henter hm hfg hkeys) fun ψ v w n n' hrun hext hn hvw ↦ ?_
    refine ih hn (Discipline.handles.scope_mono hext.size_le henv) ?_ hvw
      (hkeys.of_leads (.instantiated hrun))
    rw [Env.rename_congr hext.old henv]

end Calls

/-! ### Expressions -/

/-- Evaluating the expression in machines that are alike ends alike. -/
def Expr.Agrees (s : Setting) (room : Nat) (e : Expr) : Prop :=
  ∀ (φ : Nat → Nat) (m m' : Machine) (env env' : Env), m.Alike φ m' → env.InRange m.arena.size →
    env' = env.rename φ → Stage.KeysPure s ⟨room, .expr e env, m⟩ →
    Agree φ m m' Value.Twin (eval s room e env m) (eval s room e env' m')

namespace Expr

variable {s : Setting} {room : Nat}

theorem agrees_let {rhs body : Expr} (hrhs : rhs.Agrees s room) (hbody : body.Agrees s room)
    (x : String) (declared : Option Ty) : (Expr.letIn x declared rhs body).Agrees s room := by
  intro φ m m' env env' hm henv henv' hkeys
  have hfirst := hrhs φ m m' env env' hm henv henv' (hkeys.of_leads (.rhs ..))
  refine .bind hfirst fun ψ v w n n' hrun hext hn hvw ↦ ?_
  have hscope : env.InRange n.arena.size := Discipline.handles.scope_mono hext.size_le henv
  have hkeysv : v.KeysPure := (hkeys.of_leads (.rhs ..)).result hrun
  obtain rfl : env' = env.rename ψ := by rw [henv', Env.rename_congr hext.old henv]
  obtain ⟨χ, hpush, hinner, htop⟩ :=
    hn.push (.value x hscope hvw.obeys hkeysv) (.value x env hvw.renamed)
  exact .from_extends hpush (hbody χ _ _ _ _ hinner (Arena.inRange_push _ _) htop
    (hkeys.of_leads (.letBody hrun)))

/-- Values that correspond match the same clause, with bindings that correspond. -/
theorem agrees_matching {clauses : List (Pattern × Expr)}
    (hclauses : ∀ clause ∈ clauses, clause.2.Agrees s room) (x : String) :
    (Expr.matching x clauses).Agrees s room := by
  rintro φ m m' env _ hm henv rfl hkeys
  refine .lookup_bind hm henv x fun v w hx hvw hkeysv ↦ ?_
  have hmatches := hvw.renamed.firstMatch (clauses.map Prod.fst)
  cases hmatch : Pattern.firstMatch (clauses.map Prod.fst) v with
  | none =>
    rw [hmatch] at hmatches
    rw [Option.map_eq_none_iff.mp hmatches]
    exact .error hm _
  | some r =>
    obtain ⟨i, binds⟩ := r
    rw [hmatch] at hmatches
    obtain ⟨⟨i', binds'⟩, hmatch', heq⟩ := Option.map_eq_some_iff.mp hmatches
    obtain ⟨rfl, hbinds'⟩ := Prod.mk.inj heq
    obtain ⟨clause, hclause⟩ := exists_clause hmatch
    have hbinds : ∀ b ∈ binds, b.2.Obeys .handles m.arena.size ∧ b.2.KeysPure := by
      intro b hb
      have hpart := Pattern.part_of_firstMatch hmatch b hb
      exact ⟨hpart.each hvw.obeys, hkeysv.part hpart⟩
    have hscope := (hm.arena.sound.bindAll henv fun b hb ↦ (hbinds b hb).1).2.2
    obtain ⟨ψ, hbound, hinner, htop⟩ := hm.bindAll henv rfl hbinds hbinds'
    rw [hmatch']
    simp only [evalClause_eq x hclause]
    exact .from_extends hbound (hclauses clause (List.mem_of_getElem? hclause) ψ _ _ _ _ hinner
      hscope htop (hkeys.of_leads (.clause hx hmatch hclause)))

/-- The frames of the two recursive bindings correspond, and so they do when they are filled in. -/
theorem agrees_fix {body : Expr} (hbody : body.Agrees s room) (name : String) (ty : Ty) :
    (Expr.fix name ty body).Agrees s room := by
  intro φ m m' env env' hm henv henv' hkeys
  have hfits : Frame.Fits m.arena.size ⟨name, .pending, env⟩ := by
    refine ⟨henv, ?_, ?_⟩ <;> rintro v ⟨⟩
  have hpending : Frame.Renamed φ ⟨name, .pending, env⟩ ⟨name, .pending, env'⟩ := by
    rw [Frame.Renamed, Frame.relabel, Frame.relabel, henv', Env.rename_id]
    rfl
  obtain ⟨ψ, hpush, hinner, htop⟩ := hm.push hfits hpending
  have hbodykeys := hkeys.of_leads (.fixBody ..)
  have hrest := hbody ψ _ _ _ _ hinner (Arena.inRange_push _ _) htop hbodykeys
  show Agree φ m m' Value.Twin (Stage.run s ⟨room, .expr (.fix name ty body) env, m⟩)
    (Stage.run s ⟨room, .expr (.fix name ty body) env', m'⟩)
  rw [Stage.run_fix, Stage.run_fix]
  refine .from_extends hpush (.bind hrest fun χ v w n n' hrun hext hn hvw ↦ ?_)
  have hadded : m.arena.size < (m.scoped (m.arena.bindPending env name)).arena.size := by
    show m.arena.size < (m.arena.push _).1.size
    rw [Arena.size_push]
    exact Nat.lt_succ_self _
  have hplace : χ m.arena.size = m'.arena.size := by
    rw [hext.old _ hadded]
    exact (Option.some.inj (congrArg Env.top htop)).symm
  have hdone := hn.set (Nat.lt_of_lt_of_le hadded hext.size_le) hvw (hbodykeys.result hrun)
  have hsame : Extends χ χ n.arena n'.arena (n.arena.set ⟨some m.arena.size⟩ v)
      (n'.arena.set ⟨some (χ m.arena.size)⟩ w) :=
    .of_size_eq χ (Arena.size_set ..) (Arena.size_set ..)
  rw [hplace] at hdone hsame
  exact ⟨χ, hsame, hdone, .ok (hsame.twin hvw)⟩

/-- Expressions run alike if bodies do. -/
theorem agrees_of_enter (henter : Enter.Agrees s room) (e : Expr) : e.Agrees s room := by
  induction e with
  | letIn x declared rhs body ihrhs ihbody => exact agrees_let ihrhs ihbody x declared
  | matching x clauses ih => exact agrees_matching ih x
  | fix name ty body ih => exact agrees_fix ih name ty
  | located sp e ih =>
    intro φ m m' env env' hm henv henv' hkeys
    exact .annotate (ih φ m m' env env' hm henv henv' (hkeys.of_leads (.located ..))) _
  | gas c body ih =>
    rintro φ m m' env _ hm henv rfl hkeys
    refine .bind (agree_charge hm henv c) fun ψ _ _ n n' hrun hext hn _ ↦ ?_
    exact ih ψ n n' env _ hn (Discipline.handles.scope_mono hext.size_le henv)
      (Env.rename_congr hext.old henv).symm (hkeys.of_leads (.charged hrun))
  | app f args =>
    rintro φ m m' env _ hm henv rfl hkeys
    refine .lookup_bind hm henv f fun v w hf hvw _ ↦ ?_
    exact Enter.agree_applyAll henter hm henv rfl hvw args (hkeys.of_leads (.app hf))
  | tyApp f targs =>
    rintro φ m m' env _ hm henv rfl hkeys
    refine .lookup_bind hm henv f fun v w hf hvw _ ↦ ?_
    exact Enter.agree_tyApplyAll henter hm henv rfl hvw targs (hkeys.of_leads (.tyApp hf))
  | message entries =>
    rintro φ m m' env _ hm henv rfl -
    refine .inspect_bind hm ?_
    rcases except_map_eq_map (hm.embeds.messageEntries hm.arena henv entries) with
      ⟨c, hes', hes⟩ | ⟨es', es, hes', hes, heq⟩
    · exact .inl ⟨c, hes, hes'⟩
    · refine .inr ⟨es, es', hes, hes', .ok hm ⟨?_, ?_⟩⟩
      · exact Arena.each_of_messageEntries (hm.arena.sound.lookup env) hes
      · exact congrArg Value.message heq
  | literal l =>
    rintro φ m m' env _ hm henv rfl -
    exact .inspect hm (hm.embeds.literal hm.arena henv l) (m.arena.eachOk_literal env l)
  | var x =>
    rintro φ m m' env _ hm henv rfl -
    exact .inspect hm (hm.embeds.lookup hm.arena henv x) (hm.arena.sound.lookup env x)
  | construct name targs args =>
    rintro φ m m' env _ hm henv rfl -
    exact .inspect hm (hm.embeds.construct hm.arena henv s.datatypes name targs args)
      (Arena.eachOk_construct (hm.arena.sound.lookup env) s.datatypes name targs args)
  | builtin op targs args =>
    rintro φ m m' env _ hm henv rfl -
    exact agree_primitive hm henv op args
  | fn param t body =>
    rintro φ m m' env _ hm henv rfl -
    refine .inspect hm ?_ ?_
    · rw [hm.embeds.resolveTy hm.arena henv, Except.map, Except.map, Value.relabel_closure,
        Value.relabel_closure, Env.rename_id]
    · rintro _ ⟨⟩
      exact (Value.each_closure ..).mpr ⟨trivial, henv⟩
  | tyFn tvar body =>
    rintro φ m m' env _ hm henv rfl -
    refine .inspect hm ?_ ?_
    · rw [Except.map, Except.map, Value.relabel_tyClosure, Value.relabel_tyClosure,
        Env.rename_id]
    · rintro _ ⟨⟩
      exact (Value.each_tyClosure ..).mpr ⟨trivial, henv⟩

end Expr

theorem agrees_enter (s : Setting) (room : Nat) : Enter.Agrees s room := by
  induction room with
  | zero => exact fun φ m m' f g body hm _ _ _ ↦ .error hm _
  | succ room ih =>
    intro φ m m' f g body hm hf hfg hkeys
    obtain ⟨ψ, hpush, hinner, htop⟩ := hm.push hf hfg
    exact .from_extends hpush (body.agrees_of_enter ih ψ _ _ _ _ hinner (Arena.inRange_push _ _)
      htop (hkeys.of_leads (.entered ..)))

/-- Take an arena whose frames lie in another one, at other places and split otherwise into layers,
and evaluate an expression in both with the same room and gas. If no closure gets into the key of a
map, as much gas is left, the frames of the first arena lie in the second one afterwards as before,
and either both runs end in the same fault or their values are the same up to the places of frames.
In particular an arena can be frozen, or hold frames from elsewhere. -/
theorem eval_independent_of_layout (s : Setting) (room : Nat) (e : Expr) (env : Env) (m : Machine)
    (harena : m.arena.WellFormed) (henv : env.InRange m.arena.size) (hkeys : m.arena.KeysPure)
    (hrun : Stage.KeysPure s ⟨room, .expr e env, m⟩) :
    (∀ φ b, m.arena.Embeds φ b →
      let done := eval s room e env m
      let done' := eval s room e (env.rename φ) ⟨b, m.gas⟩
      done'.2.gas = done.2.gas ∧
      ∃ ψ, Extends φ ψ m.arena b done.2.arena done'.2.arena ∧
        done.2.arena.Embeds ψ done'.2.arena ∧
        ((∃ fault, done.1 = .error fault ∧ done'.1 = .error fault) ∨
          ∃ v w, done.1 = .ok v ∧ done'.1 = .ok w ∧ v.Renamed ψ w ∧
            (v.isPure = true → w = v))) ∧
    m.arena.Embeds id (.ofFrozen m.arena.freeze) ∧
    ∀ b, m.arena.Grows b → m.arena.Embeds id b := by
  refine ⟨?_, m.arena.embeds_freeze, fun b hb ↦ hb.embeds⟩
  intro φ b hembeds done done'
  have halike : m.Alike φ ⟨b, m.gas⟩ := ⟨rfl, harena, hkeys, hembeds⟩
  have hagrees : e.Agrees s room := e.agrees_of_enter (agrees_enter s room)
  obtain ⟨ψ, hext, hdone, hsame⟩ := hagrees φ m _ env _ halike henv rfl hrun
  refine ⟨hdone.gas, ψ, hext, hdone.embeds, ?_⟩
  show (∃ fault, (eval s room e env m).1 = _ ∧ (eval s room e (env.rename φ) ⟨b, m.gas⟩).1 = _) ∨ _
  generalize (eval s room e env m).1 = r at hsame
  generalize (eval s room e (env.rename φ) ⟨b, m.gas⟩).1 = r' at hsame
  cases hsame with
  | error fault => exact .inl ⟨fault, rfl, rfl⟩
  | ok hvw => exact .inr ⟨_, _, rfl, rfl, hvw.renamed, hvw.renamed.eq_of_isPure⟩

namespace Loop

/-- The frames of `arena` above another one, all in the scratch layer. -/
def shifted : Arena :=
  let left := (Arena.empty.bind .empty "left" (.bnum 0)).1
  let library := (left.bind .empty "id" identity).1
  (library.bind ⟨some 1⟩ "one" (.bnum 1)).1

theorem embeds_shifted : arena.Embeds (· + 1) shifted where
  injective _ _ _ _ h := Nat.succ.inj h
  frame {i f} hf := by
    have hi : i < 2 := Arena.lt_size_of_frame? hf
    obtain rfl | rfl : i = 0 ∨ i = 1 := by omega
    · cases hf
      exact ⟨_, rfl, rfl⟩
    · cases hf
      exact ⟨_, rfl, rfl⟩

theorem keysPure_arena : arena.KeysPure := by
  intro i f v hf hv
  have hi : i < 2 := Arena.lt_size_of_frame? hf
  obtain rfl | rfl : i = 0 ∨ i = 1 := by omega
  · cases hf
    cases hv
    rintro _ ⟨⟩ m ⟨⟩
  · cases hf
    cases hv
    rintro _ ⟨⟩ m ⟨⟩

/-- A function literal, whatever positions stand around it, comes to nothing but a closure. -/
theorem keysPure_of_unlocated_fn {e body : Expr} {param : String} {t : Ty}
    (h : e.unlocated = .fn param t body) (s : Setting) (room : Nat) (env : Env) (m : Machine) :
    Stage.KeysPure s ⟨room, .expr e env, m⟩ := by
  intro q hq v hv
  induction e with
  | fn =>
    rcases hq.cases_head with rfl | ⟨_, ⟨⟩, -⟩
    cases (congrArg Prod.fst (eval_of_unlocated_fn h s room env m)).symm.trans hv
    rintro _ ⟨⟩ m ⟨⟩
  | located sp e ih =>
    rcases hq.cases_head with rfl | ⟨_, ⟨⟩, hq⟩
    · cases (congrArg Prod.fst (eval_of_unlocated_fn h s room env m)).symm.trans hv
      rintro _ ⟨⟩ m ⟨⟩
    · exact ih h hq
  | _ => cases h

theorem run_code (s : Setting) (room : Nat) (env : Env) (m : Machine) :
    ∃ id t scope,
      (eval s room code env m).1 = .ok (.closure id "n" t (.app "loop" ["n"]) scope) := by
  obtain ⟨id, t, scope, hrun, -⟩ := Stage.findsItself s ⟨room, .expr code env, m⟩ room "loop"
    .uint32 _ env m "n" .uint32 (.app "loop" ["n"]) rfl rfl
  exact ⟨id, t, scope, hrun⟩

theorem keysPure_code (s : Setting) (room : Nat) (env : Env) (m : Machine) :
    Stage.KeysPure s ⟨room, .expr code env, m⟩ := by
  intro q hq v hv
  rcases hq.cases_head with rfl | ⟨_, ⟨⟩, hq⟩
  · obtain ⟨id, t, scope, hrun⟩ := run_code s room env m
    cases hrun.symm.trans hv
    rintro _ ⟨⟩ m ⟨⟩
  · exact keysPure_of_unlocated_fn rfl s room _ _ q hq v hv

end Loop

theorem eval_independent_of_layout_loop :
    Loop.arena.WellFormed ∧ Env.InRange ⟨some 1⟩ Loop.arena.size ∧ Loop.arena.KeysPure ∧
      Stage.KeysPure ⟨.standard, 4⟩ ⟨4, .expr Loop.code ⟨some 1⟩, ⟨Loop.arena, 10⟩⟩ ∧
      Loop.arena.Embeds (· + 1) Loop.shifted ∧
      let done := eval ⟨.standard, 4⟩ 4 Loop.code ⟨some 1⟩ ⟨Loop.arena, 10⟩
      let done' := eval ⟨.standard, 4⟩ 4 Loop.code ⟨some 2⟩ ⟨Loop.shifted, 10⟩
      done'.2.gas = done.2.gas ∧
        ∃ ψ v w, ψ 1 = 2 ∧ done.1 = .ok v ∧ done'.1 = .ok w ∧ v.Renamed ψ w := by
  have harena : Loop.arena.WellFormed := Loop.built_arena.sound.wellFormed
  have henv : Env.InRange ⟨some 1⟩ Loop.arena.size := by
    rintro _ ⟨⟩
    decide
  have hkeys := Loop.keysPure_arena
  have hrun := Loop.keysPure_code ⟨.standard, 4⟩ 4 ⟨some 1⟩ ⟨Loop.arena, 10⟩
  obtain ⟨hlayout, -⟩ := eval_independent_of_layout ⟨.standard, 4⟩ 4 Loop.code ⟨some 1⟩
    ⟨Loop.arena, 10⟩ harena henv hkeys hrun
  obtain ⟨hgas, ψ, hext, -, hsame⟩ := hlayout _ _ Loop.embeds_shifted
  refine ⟨harena, henv, hkeys, hrun, Loop.embeds_shifted, hgas, ψ, ?_⟩
  obtain ⟨id, t, scope, hclosure⟩ := Loop.run_code ⟨.standard, 4⟩ 4 ⟨some 1⟩ ⟨Loop.arena, 10⟩
  rcases hsame with ⟨fault, hfault, -⟩ | ⟨v, w, hv, hw, hrenamed, -⟩
  · cases hfault.symm.trans hclosure
  · exact ⟨v, w, hext.old 1 (by decide), hv, hw, hrenamed⟩

end MeteredContract
