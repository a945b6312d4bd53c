import MeteredContract.Proofs.Execution.Limit
import MeteredContract.Proofs.Termination.Ends

/-!
What the limit on the depth of calls means for whole runs. Calls are counted and counted back on all
paths, and a larger limit changes no run that was not cut off: not its result or fault, nor the gas,
the store, the messages, the events and the balance that it leaves. `depth_limit_only_cuts` collects
this for expressions and blocks at any depth, and for expressions, deployments and messages as they
are asked for from outside.
-/

set_option autoImplicit false
set_option relaxedAutoImplicit false

namespace MeteredContract

section Deployment

variable {limit limit' : Nat} (hle : limit ≤ limit')

include hle

theorem eval_upTo (types : Datatypes) (e : Expr) (env : Env) :
    Run.UpTo (Cause.IsLimit limit) (eval ⟨types, limit'⟩ limit' e env)
      (eval ⟨types, limit⟩ limit e env) :=
  evalAt_upTo hle 0 e env

theorem loadEntries_upTo (entries : List LibraryEntry) (types : Datatypes) (env : Env) :
    Run.UpTo (Cause.IsLimit limit) (loadEntries limit' entries types env)
      (loadEntries limit entries types env) := by
  induction entries generalizing types env with
  | nil => exact .refl _
  | cons entry rest ih =>
    cases entry with
    | datatype name tparams constructors => exact ih _ env
    | value x e =>
      refine (eval_upTo hle types e env).bind fun v ↦ (Run.UpTo.refl _).bind fun _ ↦ ?_
      exact (Run.UpTo.refl _).bind fun inner ↦ ih types inner

theorem checkConstraint_upTo (types : Datatypes) (env : Env) (constraint : Option Expr) :
    Run.UpTo (Cause.IsLimit limit) (checkConstraint ⟨types, limit'⟩ env constraint)
      (checkConstraint ⟨types, limit⟩ env constraint) := by
  cases constraint with
  | none => exact .refl _
  | some e => exact (eval_upTo hle types e env).bind fun v ↦ .refl _

theorem DeployM.initFields_upTo (types : Datatypes) (env : Env) (fields : List FieldDef) :
    Run.UpTo (Cause.IsLimit limit) (initFields ⟨types, limit'⟩ env fields)
      (initFields ⟨types, limit⟩ env fields) := by
  induction fields with
  | nil => exact .refl _
  | cons f fs ih =>
    have hfirst : Run.UpTo (Cause.IsLimit limit) (initField ⟨types, limit'⟩ env f)
        (initField ⟨types, limit⟩ env f) :=
      ((eval_upTo hle types f.init env).zoom _ _).bind fun v ↦ .refl _
    exact hfirst.bind fun _ ↦ ih

theorem DeployM.deploy_upTo (m : Module) (args : List (String × Value)) (balance : Tokens) :
    Run.UpTo (Cause.IsLimit limit) (deploy limit' m args balance)
      (deploy limit m args balance) := by
  refine ((loadEntries_upTo hle _ _ _).zoom _ _).bind fun loaded ↦ ?_
  refine (Run.UpTo.refl _).bind fun admitted ↦ (Run.UpTo.refl _).bind fun env ↦ ?_
  refine ((checkConstraint_upTo hle loaded.1 env m.constraint).zoom _ _).bind fun _ ↦ ?_
  exact (initFields_upTo hle loaded.1 env m.fields).bind fun _ ↦ .refl _

end Deployment

/-- With the second limit every run is as with the first, unless it was cut off there. -/
structure OnlyCuts (limit limit' : Nat) : Prop where
  evaluation : ∀ types depth e env m,
    ¬ Run.CutOff (Cause.IsLimit limit) (evalAt ⟨types, limit⟩ depth e env m).1 →
      evalAt ⟨types, limit'⟩ depth e env m = evalAt ⟨types, limit⟩ depth e env m
  execution : ∀ types depth scene block t,
    ¬ Run.CutOff (Cause.IsLimit limit) (execAt ⟨types, limit⟩ depth scene block t).1 →
      execAt ⟨types, limit'⟩ depth scene block t = execAt ⟨types, limit⟩ depth scene block t
  expression : ∀ bs e gas,
    ¬ Run.CutOff (Cause.IsLimit limit) (evalExpr limit bs e gas).1 →
      evalExpr limit' bs e gas = evalExpr limit bs e gas
  deployment : ∀ m args balance store gas,
    ¬ Run.CutOff (Cause.IsLimit limit) (deploy limit m args balance store gas).result →
      deploy limit' m args balance store gas = deploy limit m args balance store gas
  message : ∀ m state message chain store gas,
    ¬ Run.CutOff (Cause.IsLimit limit) (handle limit m state message chain store gas).result →
      handle limit' m state message chain store gas = handle limit m state message chain store gas

theorem onlyCuts {limit limit' : Nat} (hle : limit ≤ limit') : OnlyCuts limit limit' where
  evaluation _ depth e env m h := (evalAt_upTo hle depth e env m).resolve_right h
  execution _ depth scene block t h := (execAt_upTo hle depth scene block t).resolve_right h
  expression bs e gas h := by
    rw [evalExpr_eq] at h ⊢
    rw [evalExpr_eq]
    exact (evalAt_upTo hle 0 e _ _).resolve_right h
  deployment m args balance store gas h := by
    rw [deploy_eq] at h ⊢
    rw [deploy_eq]
    rw [(DeployM.deploy_upTo hle m args balance _).resolve_right h]
  message m state message chain store gas h := by
    cases hsel : select m message with
    | error c =>
      unfold handle
      rw [hsel]
    | ok sel =>
      rw [handle_of_select hsel] at h ⊢
      rw [handle_of_select hsel]
      have hbody : Run.UpTo (Cause.IsLimit limit)
          (exec ⟨state.datatypes, limit'⟩ limit' (sel.scene state chain)
            sel.callee.procedure.body >>= fun _ ↦ sel.finish state)
          (exec ⟨state.datatypes, limit⟩ limit (sel.scene state chain)
            sel.callee.procedure.body >>= fun _ ↦ sel.finish state) :=
        (execAt_upTo hle 0 _ _).bind fun _ ↦ .refl _
      rw [(hbody _).resolve_right h]

/-- The limit on the depth of calls only cuts off. An execution that counts its calls by hand is
determined by its equation, restores the count on all paths and keeps within the limit, and no run
that is not cut off by a limit changes with a larger one. -/
theorem depth_limit_only_cuts {limit limit' : Nat} (hle : limit ≤ limit') :
    (∀ types, (∃! i : Interpreter, i.unfold ⟨types, limit⟩ = i) ∧
      ∀ i : Interpreter, i.unfold ⟨types, limit⟩ = i → i.Counts ⟨types, limit⟩) ∧
    OnlyCuts limit limit' := by
  refine ⟨fun types ↦ ⟨?_, fun i hi ↦ ?_⟩, onlyCuts hle⟩
  · refine ⟨interpreter _, (Interpreter.unfold_eq_iff _ _).mpr rfl, fun i hi ↦ ?_⟩
    exact (Interpreter.unfold_eq_iff _ i).mp hi
  · rw [(Interpreter.unfold_eq_iff _ i).mp hi]
    exact Interpreter.counts_interpreter _

namespace Stairs

/-- The transition calls a procedure that calls another, which emits an event. -/
def code : Module where
  name := "Stairs"
  imports := []
  library := none
  params := []
  constraint := none
  fields := []
  components :=
    [ ⟨.procedure, "tell", [],
        [ .bind "note" (.message [(Label.eventName, .lit (.str "told"))]), .event "note" ]⟩,
      ⟨.procedure, "pass", [], [.call "tell" []]⟩,
      ⟨.transition, "go", [], [.call "pass" []]⟩ ]

def state : ContractState where
  env := .empty
  frames := #[]
  fields := []
  balance := .zero
  datatypes := .standard

def message : List (String × Value) :=
  [ (Label.tag, .str "go"),
    (Label.amount, .int (.ofTokens .zero)),
    (Label.sender, .bystrx (List.replicate addressWidth 7)) ]

def handled (limit : Nat) : Outcome Handled := handle limit code state message .empty .empty 10

end Stairs

/-- Two calls deep, a limit of one cuts the run off, and one of two does not. -/
theorem depth_limit_only_cuts_stairs :
    Run.CutOff (Cause.IsLimit 1) (Stairs.handled 1).result ∧
      (Stairs.handled 2).result.toOption.map (·.events.length) = some 1 ∧
      Stairs.handled 1024 = Stairs.handled 2 := by
  have hcut : (match (Stairs.handled 1).result with
      | .error f => f.cause
      | .ok _ => .constraintViolation) = .callDepthExceeded 1 := by rfl
  have hevents : (Stairs.handled 2).result.toOption.map (·.events.length) = some 1 := by
    decide +kernel
  refine ⟨?_, hevents, ?_⟩
  · cases hresult : (Stairs.handled 1).result with
    | ok r =>
      rw [hresult] at hcut
      cases hcut
    | error f =>
      rw [hresult] at hcut
      exact ⟨f, rfl, hcut⟩
  · refine (depth_limit_only_cuts (by decide : 2 ≤ 1024)).2.message _ _ _ _ _ _ ?_
    rintro ⟨f, hf, -⟩
    have hresult : (Stairs.handled 2).result = .error f := hf
    rw [hresult] at hevents
    cases hevents

end MeteredContract
