import MeteredContract.Proofs.Clauses
import MeteredContract.Proofs.Induction

/-!
Evaluation as a composition of steps: reading, making frames, filling in a frame, and paying. A
property of computations that these steps have and that goes along with sequencing and with
positions (`EvalM.Steps`) is a property of every evaluation (`EvalM.Steps.eval`).
-/

set_option autoImplicit false
set_option relaxedAutoImplicit false

namespace MeteredContract.EvalM

structure Steps (P : ∀ {α : Type}, EvalM α → Prop) : Prop where
  bind : ∀ {α β : Type} {x : EvalM α} {f : α → EvalM β}, P x → (∀ a, P (f a)) → P (x >>= f)
  annotate : ∀ {x : EvalM Value} (span : Span), P x → P (x.annotate (·.withSpan span))
  read : ∀ {α : Type} (f : Machine → Except Cause α), P (Run.read f)
  push : ∀ frame, P (EvalM.extend (·.push frame))
  bindAll : ∀ env bs, P (EvalM.bindAll env bs)
  setTop : ∀ env v, P (EvalM.setTop env v)
  pay : ∀ amount, P (EvalM.pay amount)

namespace Steps

variable {P : ∀ {α : Type}, EvalM α → Prop} (h : Steps P)

include h

theorem pure {α : Type} (a : α) : P (Pure.pure a : EvalM α) := h.read fun _ ↦ .ok a

theorem fail {α : Type} (c : Cause) : P (Run.fail c : EvalM α) := h.read fun _ ↦ .error c

theorem charge (env : Env) (c : Charge) : P (EvalM.charge env c) :=
  h.bind (h.read _) fun amount ↦ h.pay amount

theorem primitive (env : Env) (op : String) (args : List String) :
    P (EvalM.primitive env op args) :=
  h.bind (h.read _) fun call ↦ h.bind (h.charge env call.price) fun _ ↦ h.read _

variable {enter : Enter} (henter : ∀ f body, P (enter f body))

include henter

theorem apply (f arg : Value) : P (enter.apply f arg) := by
  cases f with
  | closure id param ty body env => exact henter _ body
  | _ => exact h.fail _

theorem tyApply (f : Value) (t : Ty) : P (enter.tyApply f t) := by
  cases f with
  | tyClosure id tvar body env => exact henter _ body
  | _ => exact h.fail _

theorem applyAll (env : Env) (f : Value) (xs : List String) : P (enter.applyAll env f xs) := by
  induction xs generalizing f with
  | nil => exact h.pure f
  | cons x xs ih =>
    exact h.bind (h.read _) fun arg ↦ h.bind (h.apply henter f arg) fun g ↦ ih g

theorem tyApplyAll (env : Env) (f : Value) (ts : List Ty) : P (enter.tyApplyAll env f ts) := by
  induction ts generalizing f with
  | nil => exact h.pure f
  | cons t ts ih =>
    exact h.bind (h.read _) fun t' ↦ h.bind (h.tyApply henter f t') fun g ↦ ih g

theorem evalWith (types : Datatypes) (e : Expr) (env : Env) : P (e.evalWith types enter env) := by
  induction e generalizing env with
  | literal | var | fn | construct | tyFn =>
    rw [Expr.evalWith]
    exact h.read _
  | letIn x declared rhs body ihrhs ihbody =>
    exact h.bind (ihrhs env) fun v ↦ h.bind (h.push _) fun inner ↦ ihbody inner
  | message entries => exact h.bind (h.read _) fun es ↦ h.pure _
  | app f args => exact h.bind (h.read _) fun v ↦ h.applyAll henter env v args
  | matching x clauses ih =>
    refine h.bind (h.read _) fun v ↦ ?_
    split
    · exact h.fail _
    · next i binds hmatch =>
      obtain ⟨clause, hclause⟩ := exists_clause hmatch
      refine h.bind (h.bindAll env binds) fun inner ↦ ?_
      rw [evalClause_eq x hclause]
      exact ih clause (List.mem_of_getElem? hclause) inner
  | builtin op targs args => exact h.primitive env op args
  | tyApp f targs => exact h.bind (h.read _) fun v ↦ h.tyApplyAll henter env v targs
  | fix name ty body ih =>
    exact h.bind (h.push _) fun inner ↦ h.bind (ih inner) fun v ↦
      h.bind (h.setTop inner v) fun _ ↦ h.pure v
  | gas c body ih => exact h.bind (h.charge env c) fun _ ↦ ih env
  | located span e ih => exact h.annotate span (ih env)

omit henter in
theorem enters (s : Setting) (room : Nat) (f : Frame) (body : Expr) :
    P (MeteredContract.enter s room f body) := by
  induction room generalizing f body with
  | zero => exact h.fail _
  | succ room ih => exact h.bind (h.push f) fun env ↦ h.evalWith ih s.datatypes body env

omit henter in
/-- Every evaluation has the property. -/
theorem eval (s : Setting) (room : Nat) (e : Expr) (env : Env) :
    P (MeteredContract.eval s room e env) :=
  h.evalWith (h.enters s room) s.datatypes e env

end Steps

end MeteredContract.EvalM
