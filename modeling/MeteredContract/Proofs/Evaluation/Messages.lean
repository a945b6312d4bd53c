import MeteredContract.Proofs.Metering.Evaluation
import MeteredContract.Proofs.Scope.Sound
import MeteredContract.Proofs.Value.Parts

/-!
Evaluation and messages. A message is made of values that may be sent, so it holds no closure; and
no expression puts anything into a message that is there. So if all messages in the values of an
arena are pure, those in the result of an evaluation and in the frames that it adds are
(`EvalM.Clean`). Evaluation throws no exceptions either.
-/

set_option autoImplicit false
set_option relaxedAutoImplicit false

namespace MeteredContract

/-- The value can leave the contract: it is a message with an entry for each label, and no closure
occurs in it at any depth. -/
structure Value.Outgoing (labels : List String) (v : Value) : Prop where
  message : ∃ es, v = .message es ∧ ∀ label ∈ labels, messageHas es label = true
  closureFree : ∀ body env, ¬ v.Captures body env

/-- What was thrown, if that is a value, is a message without closures. -/
def Fault.ThrowsMessage (f : Fault) : Prop := ∀ v, f.exception? = some v → v.Outgoing []

namespace Fault

theorem throwsMessage_of_ne {f : Fault} (h : ∀ v, f.cause ≠ .thrown (some v)) :
    f.ThrowsMessage := by
  intro v hv
  unfold exception? at hv
  split at hv
  · next hcause => exact absurd (hv ▸ hcause) (h v)
  · cases hv

theorem throwsMessage_of_isOrdinary {c : Cause} (h : c.isOrdinary = true) :
    (ofCause c).ThrowsMessage := by
  refine throwsMessage_of_ne fun v hv ↦ ?_
  have hc : c = .thrown (some v) := hv
  rw [hc] at h
  cases h

theorem ThrowsMessage.of_cause {f g : Fault} (h : f.ThrowsMessage) (hcause : g.cause = f.cause) :
    g.ThrowsMessage := by
  intro v hv
  refine h v ?_
  rw [exception?, ← hcause]
  exact hv

end Fault

/-- All messages in the values that the arena binds are pure. -/
def Machine.Clean (m : Machine) : Prop := m.arena.Binds Value.MessagesPure

namespace EvalM

variable {α β : Type}

/-- From a clean machine the computation leaves one, and a result satisfies `post`. -/
abbrev Clean (x : EvalM α) (post : α → Prop) : Prop :=
  Run.Maintains Machine.Clean Fault.ThrowsMessage x post

abbrev CleanValue (x : EvalM Value) : Prop := Clean x Value.MessagesPure

theorem clean_inspect {f : Arena → Except Cause α} {post : α → Prop}
    (hok : ∀ a : Arena, a.Binds Value.MessagesPure → ∀ r, f a = .ok r → post r)
    (hordinary : ∀ a, Ordinary (f a)) : Clean (inspect f) post :=
  .read (fun m r hm hr ↦ hok m.arena hm r hr)
    fun m c _ hc ↦ Fault.throwsMessage_of_isOrdinary (hordinary m.arena c hc)

theorem clean_ofExcept {x : Except Cause α} {post : α → Prop} (hok : ∀ r, x = .ok r → post r)
    (hordinary : Ordinary x) : Clean (Run.ofExcept x) post :=
  clean_inspect (fun _ _ ↦ hok) fun _ ↦ hordinary

theorem clean_fail {c : Cause} (h : c.isOrdinary = true) (post : α → Prop) :
    Clean (Run.fail c) post :=
  .fail (Fault.throwsMessage_of_isOrdinary h)

theorem clean_lookup (env : Env) (x : String) : CleanValue (lookup env x) :=
  clean_inspect (fun _ ha _ hv ↦ ha.lookup hv) fun a ↦ a.ordinary_lookup env x

theorem clean_extend {f : Arena → Arena × Env}
    (h : ∀ a : Arena, a.Binds Value.MessagesPure → (f a).1.Binds Value.MessagesPure) :
    Clean (extend f) fun _ ↦ True :=
  fun m hm ↦ ⟨h m.arena hm, trivial⟩

theorem clean_bind (env : Env) (x : String) {v : Value} (hv : v.MessagesPure) :
    Clean (EvalM.bind env x v) fun _ ↦ True :=
  clean_extend fun _ ha ↦ ha.bind env x hv

theorem clean_bindAll (env : Env) {bs : List (String × Value)}
    (hbs : ∀ b ∈ bs, b.2.MessagesPure) : Clean (bindAll env bs) fun _ ↦ True :=
  clean_extend fun _ ha ↦ ha.bindAll env hbs

theorem clean_setTop (env : Env) {v : Value} (hv : v.MessagesPure) :
    Clean (setTop env v) fun _ ↦ True :=
  fun _ hm ↦ ⟨hm.set env hv, trivial⟩

theorem clean_pay (amount : Nat) : Clean (pay amount) fun _ ↦ True := by
  intro m hm
  unfold pay
  split
  · exact ⟨hm, trivial⟩
  · next c hc =>
    refine ⟨hm, Fault.throwsMessage_of_ne fun v ↦ ?_⟩
    unfold Gas.pay at hc
    split at hc
    · cases hc
    · cases hc
      nofun

theorem clean_charge (env : Env) (c : Charge) : Clean (charge env c) fun _ ↦ True := by
  have hresolve : Clean (inspect fun a ↦ Gas.resolve (a.lookup env) c) fun _ ↦ True :=
    clean_inspect (fun _ _ _ _ ↦ trivial) fun a ↦ Gas.ordinary_resolve (a.ordinary_lookup env) c
  exact hresolve.bind fun amount _ ↦ clean_pay amount

theorem clean_primitive (env : Env) (op : String) (args : List String) :
    CleanValue (primitive env op args) := by
  have hcall : Clean (inspect (·.primitiveCall env op args)) fun call ↦
      ∀ v ∈ call.args, v.MessagesPure := by
    refine clean_inspect (fun a ha call hcall ↦ ?_) fun a ↦ a.ordinary_primitiveCall env op args
    obtain ⟨ts, hvs, -⟩ := Arena.exists_of_primitiveCall hcall
    exact ha.lookupAll hvs
  refine hcall.bind fun call hargs ↦ (clean_charge env call.price).bind fun _ _ ↦ ?_
  exact clean_ofExcept (fun v ↦ Primitive.messagesPure_of_run hargs)
    (call.op.ordinary_run call.args call.ret)

end EvalM

/-! ### Atoms -/

namespace Arena

variable {a : Arena} {env : Env}

theorem messagesPure_of_literal {l : Literal} {v : Value} (h : a.literal env l = .ok v) :
    v.MessagesPure :=
  Value.messagesPure_of_isPure ((Value.isPure_iff v).mpr (a.eachOk_literal env l v h))

theorem messagesPure_of_construct (ha : a.Binds Value.MessagesPure) {types : Datatypes}
    {name : String} {targs : List Ty} {args : List String} {v : Value}
    (h : a.construct env types name targs args = .ok v) : v.MessagesPure := by
  obtain ⟨tyName, vs, hvs, rfl⟩ := exists_of_construct h
  exact Value.messagesPure_data (ha.lookupAll hvs)

/-- The entries of a message are checked to be sendable. -/
theorem isPure_of_messageEntries {entries : List (String × Payload)} {es : List MessageEntry}
    (h : a.messageEntries env entries = .ok es) : (Value.message es).isPure = true := by
  rw [Value.isPure, Value.messagePure_iff]
  intro e he
  obtain ⟨payload, -, -, -, hsend⟩ := exists_payload_of_mem h he
  exact Value.isPure_of_isSendable hsend

end Arena

/-! ### Expressions -/

open EvalM

/-- Entering a body keeps the machine clean if the frame does. -/
def Enter.IsClean (enter : Enter) : Prop :=
  ∀ (f : Frame) (body : Expr), (∀ v, f.binding = .value v → v.MessagesPure) →
    CleanValue (enter f body)

section Expressions

variable {enter : Enter} (henter : enter.IsClean)

include henter

theorem Enter.clean_apply (f : Value) {arg : Value} (harg : arg.MessagesPure) :
    CleanValue (enter.apply f arg) := by
  cases f with
  | closure id param ty body env =>
    refine henter _ body ?_
    rintro _ ⟨⟩
    exact harg
  | _ => exact clean_fail rfl _

theorem Enter.clean_tyApply (f : Value) (t : Ty) : CleanValue (enter.tyApply f t) := by
  cases f with
  | tyClosure id tvar body env => exact henter _ body nofun
  | _ => exact clean_fail rfl _

theorem Enter.clean_applyAll (env : Env) {f : Value} (hf : f.MessagesPure) (xs : List String) :
    CleanValue (enter.applyAll env f xs) := by
  induction xs generalizing f with
  | nil => exact .pure hf
  | cons x xs ih =>
    exact (clean_lookup env x).bind fun arg harg ↦ (clean_apply henter f harg).bind fun g hg ↦ ih hg

theorem Enter.clean_tyApplyAll (env : Env) {f : Value} (hf : f.MessagesPure) (ts : List Ty) :
    CleanValue (enter.tyApplyAll env f ts) := by
  induction ts generalizing f with
  | nil => exact .pure hf
  | cons t ts ih =>
    have ht : Clean (inspect fun a ↦ .ok (a.resolveTy env t)) fun _ ↦ True :=
      clean_inspect (fun _ _ _ _ ↦ trivial) fun _ ↦ .ok _
    exact ht.bind fun t _ ↦ (clean_tyApply henter f t).bind fun g hg ↦ ih hg

theorem Expr.clean_evalWith (types : Datatypes) (e : Expr) (env : Env) :
    CleanValue (e.evalWith types enter env) := by
  induction e generalizing env with
  | literal l =>
    exact clean_inspect (fun _ _ _ ↦ Arena.messagesPure_of_literal)
      fun a ↦ a.ordinary_literal env l
  | var x => exact clean_lookup env x
  | letIn x declared rhs body ihrhs ihbody =>
    exact (ihrhs env).bind fun v hv ↦ (clean_bind env x hv).bind fun inner _ ↦ ihbody inner
  | message entries =>
    have hentries : Clean (inspect (·.messageEntries env entries)) fun es ↦
        (Value.message es).isPure = true :=
      clean_inspect (fun _ _ _ ↦ Arena.isPure_of_messageEntries)
        fun a ↦ a.ordinary_messageEntries env entries
    exact hentries.bind fun es hes ↦ .pure (Value.messagesPure_of_isPure hes)
  | fn param t body =>
    refine clean_inspect (fun a _ v hv ↦ ?_) fun _ ↦ .ok _
    cases hv
    exact Value.messagesPure_closure _ _ _ _ _
  | app f args =>
    exact (clean_lookup env f).bind fun v hv ↦ Enter.clean_applyAll henter env hv args
  | construct name targs args =>
    exact clean_inspect (fun _ ha _ ↦ Arena.messagesPure_of_construct ha)
      fun a ↦ a.ordinary_construct env types name targs args
  | matching x clauses ih =>
    refine (clean_lookup env x).bind fun v hv ↦ ?_
    split
    · exact clean_fail rfl _
    · next i binds hmatch =>
      obtain ⟨clause, hclause⟩ := exists_clause hmatch
      have hbinds : ∀ b ∈ binds, b.2.MessagesPure :=
        fun b hb ↦ hv.part (Pattern.part_of_firstMatch hmatch b hb)
      refine (clean_bindAll env hbinds).bind fun inner _ ↦ ?_
      rw [evalClause_eq x hclause]
      exact ih clause (List.mem_of_getElem? hclause) inner
  | builtin op targs args => exact clean_primitive env op args
  | tyFn tvar body =>
    refine clean_inspect (fun a _ v hv ↦ ?_) fun _ ↦ .ok _
    cases hv
    exact Value.messagesPure_tyClosure _ _ _ _
  | tyApp f targs =>
    exact (clean_lookup env f).bind fun v hv ↦ Enter.clean_tyApplyAll henter env hv targs
  | fix name ty body ih =>
    have hpending : Clean (extend (·.bindPending env name)) fun _ ↦ True :=
      clean_extend fun _ ha ↦ ha.push nofun
    refine hpending.bind fun inner _ ↦ (ih inner).bind fun v hv ↦ ?_
    exact (clean_setTop inner hv).bind fun _ _ ↦ .pure hv
  | gas c body ih => exact (clean_charge env c).bind fun _ _ ↦ ih env
  | located sp e ih =>
    exact (ih env).annotate fun f hf ↦ hf.of_cause (f.withSpan_cause sp)

end Expressions

theorem isClean_enter (s : Setting) (room : Nat) : (enter s room).IsClean := by
  induction room with
  | zero => exact fun _ _ _ ↦ clean_fail rfl _
  | succ room ih =>
    intro f body hf
    exact (clean_extend fun _ ha ↦ ha.push hf).bind fun env _ ↦
      Expr.clean_evalWith ih s.datatypes body env

/-- Evaluation keeps all messages pure, and throws none. -/
theorem clean_eval (s : Setting) (room : Nat) (e : Expr) (env : Env) :
    CleanValue (eval s room e env) :=
  Expr.clean_evalWith (isClean_enter s room) s.datatypes e env

end MeteredContract
