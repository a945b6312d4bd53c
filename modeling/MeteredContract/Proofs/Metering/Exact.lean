import MeteredContract.Proofs.Metering.Evaluation

/-!
Gas is exact: the amount that a run uses does not depend on its budget. `GasExact` says so of runs
as their callers see them, and `gas_exact` is the result for evaluation, deployment and messages.
-/

set_option autoImplicit false
set_option relaxedAutoImplicit false

namespace MeteredContract

open Budgeted

/-! ### Deployment -/

theorem metered_loadEntries (depthLimit : Nat) (entries : List LibraryEntry) (types : Datatypes)
    (env : Env) : Metered (loadEntries depthLimit entries types env) := by
  induction entries generalizing types env with
  | nil => exact .pure _
  | cons entry rest ih =>
    cases entry with
    | datatype name tparams constructors => exact ih _ env
    | value x e =>
      refine (metered_eval _ depthLimit e env).bind fun v ↦ ?_
      refine (EvalM.metered_pay v.size).bind fun _ ↦ ?_
      exact (EvalM.metered_extend _).bind fun inner ↦ ih types inner

theorem metered_checkConstraint (s : Setting) (env : Env) (constraint : Option Expr) :
    Metered (checkConstraint s env constraint) := by
  cases constraint with
  | none => exact .pure ()
  | some e =>
    refine (metered_eval s s.depthLimit e env).bind fun v ↦ ?_
    split
    · exact .pure ()
    · refine .annotate (fun f ↦ f.withSpan_cause e.span) ?_
      exact .fail nofun

namespace DeployM

theorem metered_onMachine {α : Type} {x : EvalM α} (hx : Metered x) : Metered (onMachine x) :=
  .zoom (fun _ ↦ rfl) (fun _ _ ↦ rfl) (fun _ _ ↦ rfl) (fun _ _ _ _ ↦ rfl) hx

theorem metered_initFields (s : Setting) (env : Env) (fields : List FieldDef) :
    Metered (initFields s env fields) := by
  induction fields with
  | nil => exact .pure ()
  | cons f fs ih =>
    have hfirst : Metered (initField s env f) := by
      refine (metered_onMachine (metered_eval s s.depthLimit f.init env)).bind fun v ↦ ?_
      split
      · exact .of_indifferent (.step (fun _ ↦ rfl) fun _ _ ↦ rfl)
      · refine .annotate (fun fault ↦ fault.withSpan_cause f.init.span) ?_
        exact .fail nofun
    exact hfirst.bind fun _ ↦ ih

theorem metered_deploy (depthLimit : Nat) (m : Module) (args : List (String × Value))
    (balance : Tokens) : Metered (deploy depthLimit m args balance) := by
  refine (metered_onMachine (metered_loadEntries depthLimit _ _ _)).bind fun loaded ↦ ?_
  refine (Metered.ofExcept (ordinary_admitArguments m.allParams args []).gasFree).bind
    fun admitted ↦ ?_
  refine (metered_onMachine (EvalM.metered_extend _)).bind fun env ↦ ?_
  refine (metered_onMachine (metered_checkConstraint _ env m.constraint)).bind fun _ ↦ ?_
  refine (metered_initFields _ env m.fields).bind fun _ ↦ ?_
  exact (Metered.of_indifferent (.read (fun _ _ ↦ rfl) fun _ ↦ .ok _)).bind fun _ ↦ .pure _

end DeployM

/-! ### Messages -/

theorem outOfGas_settle (balance : Tokens) (emitted : List Value) :
    outOfGas (settle balance emitted) = false := by
  have hsent := (ordinary_sentTokens .zero emitted).gasFree
  unfold settle
  split
  · next c h =>
    rw [h] at hsent
    exact hsent.isOutOfGas_ofCause
  · split <;> rfl

/-- The end of a message, as a computation on the session that its transition leaves. -/
def Selected.finish (sel : Selected) (state : ContractState) : ExecM Handled := fun t ↦
  ((settle t.balance t.emitted).map fun balance ↦
    ⟨{ state with balance }, t.emitted, t.events, t.accepted, sel.args.pending⟩, t)

theorem Selected.metered_finish (sel : Selected) (state : ContractState) :
    Metered (sel.finish state) := by
  refine .of_indifferent ⟨fun _ ↦ rfl, fun _ _ ↦ rfl, fun t ↦ ?_⟩
  have hsettle := outOfGas_settle t.balance t.emitted
  unfold finish
  cases hresult : settle t.balance t.emitted with
  | ok balance => rfl
  | error f =>
    rw [hresult] at hsettle
    exact hsettle

/-- A message that fits a transition runs its body and then settles. -/
theorem handle_of_select {depthLimit : Nat} {m : Module} {state : ContractState}
    {message : List (String × Value)} {chain : Chain} {store : Store} {gas : Nat} {sel : Selected}
    (h : select m message = .ok sel) :
    handle depthLimit m state message chain store gas =
      let r := (exec ⟨state.datatypes, depthLimit⟩ depthLimit (sel.scene state chain)
        sel.callee.procedure.body >>= fun _ ↦ sel.finish state) (sel.session state store gas)
      ⟨r.1, r.2.machine.gas, r.2.store⟩ := by
  simp only [handle, h, Run.bind_apply]
  cases exec ⟨state.datatypes, depthLimit⟩ depthLimit (sel.scene state chain)
      sel.callee.procedure.body (sel.session state store gas) with
  | mk result t => cases result <;> rfl

/-! ### Runs as their callers see them -/

/-- What a run with a budget shows: its result, the state that it leaves, and the gas that
remains. -/
structure Report (α β : Type) where
  result : Except Fault α
  state : β
  gas : Nat

def Report.ofMachine {α : Type} (r : Except Fault α × Machine) : Report α Arena :=
  ⟨r.1, r.2.arena, r.2.gas⟩

def Report.ofOutcome {α : Type} (o : Outcome α) : Report α Store := ⟨o.result, o.store, o.gas⟩

/-- The gas that a run uses does not depend on its budget. -/
structure GasExact {α β : Type} (run : (budget : Nat) → Report α β) : Prop where
  le : ∀ g, (run g).gas ≤ g
  /-- A run that does not run out of gas does the same with every budget that covers its use. -/
  covered : ∀ g g', outOfGas (run g).result = false → g - (run g).gas ≤ g' →
    run g' = { run g with gas := g' - (g - (run g).gas) }
  /-- With less it runs out of gas. -/
  short : ∀ g g', outOfGas (run g).result = false → g' < g - (run g).gas →
    outOfGas (run g').result = true
  /-- A lack of gas is reported with the gas that remains, and asks for more. -/
  reported : ∀ g f required remaining, (run g).result = .error f →
    f.cause = .outOfGas required remaining → remaining = (run g).gas ∧ remaining < required

/-- A metered computation is exact from any state, whatever part of the state is shown that is not
gas. -/
theorem Metered.gasExact {σ α β : Type} [Budgeted σ] {x : Run σ α} (hx : Metered x) (s : σ)
    (view : σ → β) (hview : ∀ t g, view (withGas t g) = view t) :
    GasExact fun g ↦ let r := x (withGas s g)
      (⟨r.1, view r.2, gas r.2⟩ : Report α β) := by
  have hused : ∀ g, gasUsed x (withGas s g) = g - gas (x (withGas s g)).2 := by
    intro g
    rw [gasUsed, gas_withGas]
  refine ⟨?_, ?_, ?_, ?_⟩
  · intro g
    have hle := (hx (withGas s g)).le
    rw [gas_withGas] at hle
    exact hle
  · intro g g' henough hg
    have hcovered := (hx (withGas s g)).covered henough g' (by rw [hused]; exact hg)
    rw [withGas_withGas] at hcovered
    simp only [hcovered, hview, gas_withGas, hused]
  · intro g g' henough hg
    have hshort := (hx (withGas s g)).short henough g' (by rw [hused]; exact hg)
    rw [withGas_withGas] at hshort
    exact hshort
  · intro g
    exact (hx (withGas s g)).reported

/-- Every run uses an amount of gas that its budget does not change: evaluation of any expression in
any environment of any arena, deployment of any module, and the handling of any message. -/
theorem gas_exact :
    (∀ (s : Setting) (room : Nat) (e : Expr) (env : Env) (arena : Arena),
      GasExact fun g ↦ .ofMachine (eval s room e env ⟨arena, g⟩)) ∧
    (∀ (depthLimit : Nat) (bs : List (String × Value)) (e : Expr),
      GasExact fun g ↦ .ofMachine (evalExpr depthLimit bs e g)) ∧
    (∀ (depthLimit : Nat) (m : Module) (args : List (String × Value)) (balance : Tokens)
        (store : Store),
      GasExact fun g ↦ .ofOutcome (deploy depthLimit m args balance store g)) ∧
    ∀ (depthLimit : Nat) (m : Module) (state : ContractState) (message : List (String × Value))
        (chain : Chain) (store : Store),
      GasExact fun g ↦ .ofOutcome (handle depthLimit m state message chain store g) := by
  refine ⟨?_, ?_, ?_, ?_⟩
  · intro s room e env arena
    exact (metered_eval s room e env).gasExact ⟨arena, 0⟩ Machine.arena fun _ _ ↦ rfl
  · intro depthLimit bs e
    let start := Arena.empty.bindAll .empty bs
    exact (metered_eval _ depthLimit e start.2).gasExact ⟨start.1, 0⟩ Machine.arena fun _ _ ↦ rfl
  · intro depthLimit m args balance store
    exact (DeployM.metered_deploy depthLimit m args balance).gasExact ⟨⟨.empty, 0⟩, store⟩
      Deployment.store fun _ _ ↦ rfl
  · intro depthLimit m state message chain store
    cases hsel : select m message with
    | error c =>
      have hfree := (ordinary_select m message).gasFree
      rw [hsel] at hfree
      simp only [handle, hsel]
      exact (Metered.fail hfree.error).gasExact (⟨⟨.empty, 0⟩, store⟩ : Deployment)
        Deployment.store fun _ _ ↦ rfl
    | ok sel =>
      simp only [handle_of_select hsel]
      exact ((metered_exec _ _ _ _).bind fun _ ↦ sel.metered_finish state).gasExact
        (sel.session state store 0) Session.store fun _ _ ↦ rfl

end MeteredContract
