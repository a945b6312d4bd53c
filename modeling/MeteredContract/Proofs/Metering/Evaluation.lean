import MeteredContract.Proofs.Clauses
import MeteredContract.Proofs.Metering.Causes

/-!
Evaluation and execution are metered: expressions by induction on the expression and on the room
for calls, statements in the same way on top of them.
-/

set_option autoImplicit false
set_option relaxedAutoImplicit false

namespace MeteredContract

open Budgeted

@[simp] theorem Fault.withSpan_cause (s : Span) (f : Fault) : (f.withSpan s).cause = f.cause := by
  unfold withSpan
  split <;> rfl

@[simp] theorem Fault.attach_cause (t : Trail) (f : Fault) : (f.attach t).cause = f.cause := by
  unfold attach withTrail
  split
  · rfl
  · split <;> rfl

/-! ### Expressions -/

namespace EvalM

theorem metered_inspect {α : Type} {f : Arena → Except Cause α} (h : ∀ a, GasFree (f a)) :
    Metered (inspect f) :=
  .of_indifferent (.read (fun _ _ ↦ rfl) fun m ↦ h m.arena)

theorem metered_lookup (env : Env) (x : String) : Metered (lookup env x) :=
  metered_inspect fun a ↦ (a.ordinary_lookup env x).gasFree

theorem metered_extend (f : Arena → Arena × Env) : Metered (extend f) :=
  .of_indifferent (.step (fun _ ↦ rfl) fun _ _ ↦ rfl)

theorem metered_setTop (env : Env) (v : Value) : Metered (setTop env v) :=
  .of_indifferent (.step (fun _ ↦ rfl) fun _ _ ↦ rfl)

theorem pay_of_le {amount : Nat} {m : Machine} (h : amount ≤ m.gas) :
    pay amount m = (.ok (), ⟨m.arena, m.gas - amount⟩) := by
  simp [pay, Gas.pay, h]

theorem pay_of_lt {amount : Nat} {m : Machine} (h : m.gas < amount) :
    pay amount m = (.error (.ofCause (.outOfGas amount m.gas)), m) := by
  simp [pay, Gas.pay, Nat.not_le.mpr h]

/-- Paying is where gas goes, and where the lack of it shows. -/
theorem metered_pay (amount : Nat) : Metered (pay amount) := by
  intro m
  by_cases hle : amount ≤ m.gas
  · have hrun := pay_of_le hle
    have hused : gasUsed (pay amount) m = amount := by
      rw [gasUsed, hrun]
      show m.gas - (m.gas - amount) = amount
      omega
    refine ⟨?_, ?_, ?_, ?_⟩
    · rw [hrun]
      exact Nat.sub_le m.gas amount
    · intro _ g hg
      rw [hused] at hg ⊢
      rw [hrun]
      exact pay_of_le hg
    · intro _ g hg
      rw [hused] at hg
      rw [pay_of_lt hg]
      rfl
    · intro f required remaining hf
      rw [hrun] at hf
      cases hf
  · have hlt : m.gas < amount := Nat.lt_of_not_le hle
    have hrun := pay_of_lt hlt
    -- the first run is already out of gas, so nothing is said of other budgets
    have hout : outOfGas (pay amount m).1 = true := by rw [hrun]; rfl
    refine ⟨?_, by simp [hout], by simp [hout], ?_⟩
    · have hgas : (pay amount m).2.gas = m.gas := by rw [hrun]
      exact Nat.le_of_eq hgas
    · intro f required remaining hf hcause
      rw [hrun] at hf ⊢
      cases hf
      cases hcause
      exact ⟨rfl, hlt⟩

theorem metered_charge (env : Env) (c : Charge) : Metered (charge env c) :=
  (metered_inspect fun a ↦ (Gas.ordinary_resolve (a.ordinary_lookup env) c).gasFree).bind
    fun amount ↦ metered_pay amount

theorem metered_primitive (env : Env) (op : String) (args : List String) :
    Metered (primitive env op args) := by
  refine (metered_inspect fun a ↦ (a.ordinary_primitiveCall env op args).gasFree).bind fun call ↦ ?_
  refine (metered_charge env call.price).bind fun _ ↦ ?_
  exact .ofExcept (call.op.ordinary_run call.args call.ret).gasFree

end EvalM

section Expressions

open EvalM

namespace Enter

variable {enter : Enter} (henter : ∀ f body, Metered (enter f body))

include henter

theorem metered_apply (f arg : Value) : Metered (enter.apply f arg) := by
  cases f with
  | closure id param ty body env => exact henter ⟨param, .value arg, env⟩ body
  | _ => exact .fail nofun

theorem metered_tyApply (f : Value) (t : Ty) : Metered (enter.tyApply f t) := by
  cases f with
  | tyClosure id tvar body env => exact henter ⟨tvar, .type t, env⟩ body
  | _ => exact .fail nofun

theorem metered_applyAll (env : Env) (f : Value) (xs : List String) :
    Metered (enter.applyAll env f xs) := by
  induction xs generalizing f with
  | nil => exact .pure f
  | cons x xs ih =>
    refine (metered_lookup env x).bind fun arg ↦ ?_
    exact (metered_apply henter f arg).bind fun g ↦ ih g

theorem metered_tyApplyAll (env : Env) (f : Value) (ts : List Ty) :
    Metered (enter.tyApplyAll env f ts) := by
  induction ts generalizing f with
  | nil => exact .pure f
  | cons t ts ih =>
    refine (metered_inspect fun _ ↦ .ok _).bind fun t ↦ ?_
    exact (metered_tyApply henter f t).bind fun g ↦ ih g

end Enter

/-- An expression is metered if the bodies that are entered from it are. -/
theorem Expr.metered_evalWith (types : Datatypes) {enter : Enter}
    (henter : ∀ f body, Metered (enter f body)) (e : Expr) (env : Env) :
    Metered (e.evalWith types enter env) := by
  induction e generalizing env with
  | literal l => exact metered_inspect fun a ↦ (a.ordinary_literal env l).gasFree
  | var x => exact metered_lookup env x
  | letIn x declared rhs body ihrhs ihbody =>
    exact (ihrhs env).bind fun v ↦ (metered_extend _).bind fun inner ↦ ihbody inner
  | message entries =>
    exact (metered_inspect fun a ↦ (a.ordinary_messageEntries env entries).gasFree).bind fun _ ↦
      .pure _
  | fn param ty body => exact metered_inspect fun _ ↦ .ok _
  | app f args => exact (metered_lookup env f).bind fun v ↦ Enter.metered_applyAll henter env v args
  | construct name targs args =>
    exact metered_inspect fun a ↦ (a.ordinary_construct env types name targs args).gasFree
  | matching x clauses ih =>
    refine (metered_lookup env x).bind fun v ↦ ?_
    split
    · exact .fail nofun
    · next i binds hmatch =>
      obtain ⟨clause, hclause⟩ := exists_clause hmatch
      refine (metered_extend _).bind fun inner ↦ ?_
      rw [evalClause_eq x hclause]
      exact ih clause (List.mem_of_getElem? hclause) inner
  | builtin op targs args => exact metered_primitive env op args
  | tyFn tvar body => exact metered_inspect fun _ ↦ .ok _
  | tyApp f targs =>
    exact (metered_lookup env f).bind fun v ↦ Enter.metered_tyApplyAll henter env v targs
  | fix name ty body ih =>
    refine (metered_extend _).bind fun inner ↦ (ih inner).bind fun v ↦ ?_
    exact (metered_setTop inner v).bind fun _ ↦ .pure v
  | gas c body ih => exact (metered_charge env c).bind fun _ ↦ ih env
  | located s e ih => exact (ih env).annotate fun f ↦ f.withSpan_cause s

theorem metered_enter (s : Setting) (room : Nat) (f : Frame) (body : Expr) :
    Metered (enter s room f body) := by
  induction room generalizing f body with
  | zero => exact .fail nofun
  | succ room ih =>
    exact (metered_extend _).bind fun env ↦ body.metered_evalWith s.datatypes ih env

/-- Evaluation is metered, however much room there is for calls. -/
theorem metered_eval (s : Setting) (room : Nat) (e : Expr) (env : Env) :
    Metered (eval s room e env) :=
  e.metered_evalWith s.datatypes (metered_enter s room) env

end Expressions

/-! ### Statements -/

namespace ExecM

variable {α : Type}

theorem metered_onMachine {x : EvalM α} (hx : Metered x) : Metered (onMachine x) :=
  .zoom (fun _ ↦ rfl) (fun _ _ ↦ rfl) (fun _ _ ↦ rfl) (fun _ _ _ _ ↦ rfl) hx

theorem metered_within (env : Env) {x : ExecM α} (hx : Metered x) : Metered (within env x) := by
  show Metered (x.zoom (fun s : Session ↦ { s with env }) fun s t ↦ { t with env := s.env })
  exact .zoom (fun _ ↦ rfl) (fun _ _ ↦ rfl) (fun _ _ ↦ rfl) (fun _ _ _ _ ↦ rfl) hx

theorem metered_withBindings (env : Env) (bs : List (String × Value)) {x : ExecM α}
    (hx : Metered x) : Metered (withBindings env bs x) :=
  (metered_onMachine (EvalM.metered_extend _)).bind fun inner ↦ metered_within inner hx

theorem metered_inspect {f : Arena → Env → Except Cause α} (h : ∀ a env, GasFree (f a env)) :
    Metered (inspect f) :=
  .of_indifferent (.read (fun _ _ ↦ rfl) fun s ↦ h s.machine.arena s.env)

theorem metered_lookup (x : String) : Metered (lookup x) :=
  metered_inspect fun a env ↦ (a.ordinary_lookup env x).gasFree

theorem metered_lookupAll (xs : List String) : Metered (lookupAll xs) :=
  metered_inspect fun a env ↦ (a.ordinary_lookupAll env xs).gasFree

theorem metered_readStore (f : Store → Except StoreFault α) : Metered (readStore f) := by
  refine .of_indifferent (.read (fun _ _ ↦ rfl) fun s ↦ ?_)
  split
  · exact .ok _
  · exact (StoreFault.ordinary_cause _).gasFree

theorem metered_step {f : Session → α × Session} (hgas : ∀ s, gas (f s).2 = gas s)
    (hcomm : ∀ s g, f (withGas s g) = ((f s).1, withGas (f s).2 g)) : Metered (Run.step f) :=
  .of_indifferent (.step hgas hcomm)

theorem metered_writeStore (f : Store → Except StoreFault Store) : Metered (writeStore f) :=
  (metered_readStore f).bind fun _ ↦ metered_step (fun _ ↦ rfl) fun _ _ ↦ rfl

theorem metered_bind (x : String) (v : Value) : Metered (bind x v) :=
  metered_step (fun _ ↦ rfl) fun _ _ ↦ rfl

theorem metered_checkField (scene : Scene) (field : String) :
    Metered (checkField scene field) := by
  unfold checkField
  split
  · exact .pure ()
  · exact .fail nofun

theorem metered_checkPure (field : String) (v : Value) : Metered (checkPure field v) := by
  unfold checkPure
  split
  · exact .pure ()
  · exact .fail nofun

theorem metered_load (scene : Scene) (field : String) : Metered (load scene field) := by
  unfold load
  split
  · exact .of_indifferent (.read (fun _ _ ↦ rfl) fun _ ↦ .ok _)
  · exact (metered_checkField scene field).bind fun _ ↦ metered_readStore _

theorem metered_store (scene : Scene) (field x : String) : Metered (store scene field x) := by
  unfold store
  split
  · exact .fail nofun
  · refine (metered_checkField scene field).bind fun _ ↦ (metered_lookup x).bind fun v ↦ ?_
    exact (metered_checkPure field v).bind fun _ ↦ metered_writeStore _

theorem metered_mapUpdate (scene : Scene) (map : String) (keys : List String)
    (x : Option String) : Metered (mapUpdate scene map keys x) := by
  refine (metered_checkField scene map).bind fun _ ↦ (metered_lookupAll keys).bind fun ks ↦ ?_
  cases x with
  | none => exact metered_writeStore _
  | some x =>
    refine (metered_lookup x).bind fun v ↦ ?_
    exact (metered_checkPure map v).bind fun _ ↦ metered_writeStore _

theorem metered_address (x : String) : Metered (address x) := by
  refine (metered_lookup x).bind fun v ↦ ?_
  split
  · split
    · exact .pure _
    · exact .fail nofun
  · exact .fail nofun
  · exact .fail nofun

theorem metered_readChain (chain : Chain) (query : ChainQuery) :
    Metered (readChain chain query) := by
  cases query with
  | blockNumber => exact .pure _
  | chainId => exact .pure _
  | timestamp x =>
    refine (metered_lookup x).bind fun v ↦ ?_
    split
    · exact .pure _
    · exact .fail nofun

theorem metered_cast (x : String) (t : Ty) : Metered (cast x t) := by
  refine .of_indifferent (.read (fun _ _ ↦ rfl) fun s ↦ ?_)
  refine (s.machine.arena.ordinary_lookup s.env x).gasFree.bind fun v ↦ ?_
  split
  · split
    · exact .ok _
    · exact .ok _
  · exact .ok _

theorem metered_accept (scene : Scene) : Metered (accept scene) := by
  -- This is not made of smaller steps, so the laws are checked on the session itself.
  refine .of_indifferent ⟨fun s ↦ ?_, fun s g ↦ ?_, fun s ↦ ?_⟩
  all_goals
    obtain ⟨machine, env, balance, accepted, emitted, events, store⟩ := s
    cases accepted with
    | true => rfl
    | false =>
      cases hadd : balance.add? scene.incoming <;>
        simp [accept, hadd, gas, withGas, outOfGas, Fault.isOutOfGas, Fault.ofCause]

theorem metered_send (x : String) : Metered (send x) := by
  refine (metered_lookup x).bind fun v ↦ ?_
  refine (Metered.ofExcept (ordinary_elements _ v).gasFree).bind fun msgs ↦ ?_
  refine (Metered.ofExcept (ordinary_requireAll _ msgs).gasFree).bind fun _ ↦ ?_
  exact metered_step (fun _ ↦ rfl) fun _ _ ↦ rfl

theorem metered_event (x : String) : Metered (event x) := by
  refine (metered_lookup x).bind fun v ↦ ?_
  refine (Metered.ofExcept (ordinary_requireEntries _ v).gasFree).bind fun _ ↦ ?_
  exact metered_step (fun _ ↦ rfl) fun _ _ ↦ rfl

theorem metered_throwException (exception : Option String) :
    Metered (throwException exception) := by
  cases exception with
  | none => exact .fail nofun
  | some x =>
    refine (metered_lookup x).bind fun v ↦ ?_
    split
    · exact .fail nofun
    · exact .fail nofun

end ExecM

open ExecM

/-- What lies outside of a block is metered. -/
structure Outside.IsMetered (o : Outside) : Prop where
  eval : ∀ e env, Metered (o.eval e env)
  invoke : ∀ scene bs body, Metered (o.invoke scene bs body)

/-- A block is metered if its statements are. -/
theorem metered_execBlock_of_mem {o : Outside} {scene : Scene} {block : List Stmt}
    (h : ∀ st ∈ block, ∀ site, Metered (st.execWith o scene site)) :
    Metered (execBlock o scene block) := by
  induction block with
  | nil => exact .pure ()
  | cons st rest ih =>
    obtain ⟨hfirst, hrest⟩ := List.forall_mem_cons.mp h
    unfold execBlock
    exact ((hfirst .dummy).annotate fun f ↦ f.attach_cause scene.trail).bind fun _ ↦ ih hrest

section Blocks

variable {o : Outside} (ho : o.IsMetered)

include ho

theorem Outside.metered_call (scene : Scene) (site : Span) (name : String) (args : List Value) :
    Metered (o.call scene site name args) := by
  unfold call
  split
  · exact .fail nofun
  · refine (Metered.ofExcept (ordinary_positionalBindings _ args).gasFree).bind fun own ↦ ?_
    refine (metered_lookup _).bind fun sender ↦ (metered_lookup _).bind fun origin ↦ ?_
    exact (metered_lookup _).bind fun amount ↦ ho.invoke _ _ _

theorem Outside.metered_callEach (scene : Scene) (site : Span) (name : String)
    (vs : List Value) : Metered (o.callEach scene site name vs) := by
  induction vs with
  | nil => exact .pure ()
  | cons v vs ih => exact (metered_call ho scene site name [v]).bind fun _ ↦ ih

/-- A statement is metered, whatever matches and calls it does its work in. -/
theorem Stmt.metered_execWith (scene : Scene) (st : Stmt) (site : Span) :
    Metered (st.execWith o scene site) := by
  induction st generalizing site with
  | load x field => exact (metered_load scene field).bind fun v ↦ metered_bind x v
  | remoteLoad x addr field =>
    refine (metered_address addr).bind fun a ↦ (metered_readStore _).bind fun v ↦ ?_
    exact metered_bind x v
  | store field x => exact metered_store scene field x
  | bind x e =>
    refine (metered_inspect fun _ _ ↦ .ok _).bind fun env ↦ ?_
    exact (metered_onMachine (ho.eval e env)).bind fun v ↦ metered_bind x v
  | mapUpdate map keys x => exact metered_mapUpdate scene map keys x
  | mapGet x map keys fetch =>
    refine (metered_checkField scene map).bind fun _ ↦ (metered_lookupAll keys).bind fun ks ↦ ?_
    exact (metered_readStore _).bind fun v ↦ metered_bind x v
  | remoteMapGet x addr map keys fetch =>
    refine (metered_address addr).bind fun a ↦ (metered_lookupAll keys).bind fun ks ↦ ?_
    exact (metered_readStore _).bind fun v ↦ metered_bind x v
  | readChain x query =>
    exact (metered_readChain scene.chain query).bind fun v ↦ metered_bind x v
  | cast x addr t => exact (metered_cast addr t).bind fun v ↦ metered_bind x v
  | matching x clauses ih =>
    refine (metered_lookup x).bind fun v ↦ ?_
    split
    · exact .fail nofun
    · next i binds hmatch =>
      obtain ⟨clause, hclause⟩ := exists_clause hmatch
      refine (metered_inspect fun _ _ ↦ .ok _).bind fun env ↦ ?_
      refine metered_withBindings env binds ?_
      rw [execClause_eq x hclause]
      exact metered_execBlock_of_mem (ih clause (List.mem_of_getElem? hclause))
  | accept => exact metered_accept scene
  | send x => exact metered_send x
  | event x => exact metered_event x
  | call name args =>
    exact (metered_lookupAll args).bind fun vs ↦ Outside.metered_call ho scene site name vs
  | forEach list name =>
    refine (metered_lookup list).bind fun v ↦ ?_
    refine (Metered.ofExcept (ordinary_elements _ v).gasFree).bind fun items ↦ ?_
    exact Outside.metered_callEach ho scene site name items
  | throw x => exact metered_throwException x
  | gas c =>
    refine (metered_inspect fun _ _ ↦ .ok _).bind fun env ↦ ?_
    exact metered_onMachine (EvalM.metered_charge env c)
  | located s st ih => exact (ih s).annotate fun f ↦ f.withSpan_cause s

theorem metered_execBlock (scene : Scene) (block : List Stmt) :
    Metered (execBlock o scene block) :=
  metered_execBlock_of_mem fun st _ site ↦ st.metered_execWith ho scene site

end Blocks

theorem isMetered_outside (s : Setting) (room : Nat) : (outside s room).IsMetered := by
  -- The bodies of procedures run with less room.
  induction room with
  | zero => exact ⟨metered_eval s 0, fun _ _ _ ↦ .fail nofun⟩
  | succ room ih =>
    refine ⟨metered_eval s (room + 1), fun scene bs body ↦ ?_⟩
    exact metered_withBindings scene.initEnv bs (metered_execBlock ih scene body)

theorem metered_exec (s : Setting) (room : Nat) (scene : Scene) (block : List Stmt) :
    Metered (exec s room scene block) :=
  metered_execBlock (isMetered_outside s room) scene block

end MeteredContract
