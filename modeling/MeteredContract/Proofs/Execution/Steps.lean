import MeteredContract.Proofs.Execution.Plain
import MeteredContract.Proofs.Scope.Growth

/-!
Execution as a composition of steps. Statements are put together from a few steps: reading, letting
the machine work, extending the environment, writing the store, taking the incoming tokens, and
adding to what was emitted. A property of computations that these steps have and that goes along
with sequencing, scopes and annotated faults (`Steps`) is a property of every execution
(`Steps.exec`).
-/

set_option autoImplicit false
set_option relaxedAutoImplicit false

namespace MeteredContract

open ExecM

/-- The property holds of the steps of statements. Nothing is read off what was emitted, and the
machine only adds frames. -/
structure Steps (P : ∀ {α : Type}, ExecM α → Prop) : Prop where
  bind : ∀ {α β : Type} {x : ExecM α} {f : α → ExecM β}, P x → (∀ a, P (f a)) → P (x >>= f)
  annotate : ∀ {x : ExecM Unit} (g : Fault → Fault), P x → P (x.annotate g)
  read : ∀ {α : Type} {f : Session → Except Cause α},
    (∀ emitted events t, f (t.logging emitted events) = f t) → P (Run.read f)
  onMachine : ∀ {α : Type} {x : EvalM α}, Run.Keeps Machine.Grows x → P (ExecM.onMachine x)
  extend : ∀ x v, P (ExecM.bind x v)
  write : ∀ store, P (Run.step fun t : Session ↦ ((), { t with store }))
  accept : ∀ scene, P (ExecM.accept scene)
  emit : ∀ msgs, P (Run.step fun t : Session ↦ ((), { t with emitted := t.emitted ++ msgs }))
  announce : ∀ v, P (Run.step fun t : Session ↦ ((), { t with events := t.events ++ [v] }))
  withBindings : ∀ {x : ExecM Unit} (env : Env) (bs : List (String × Value)), P x →
    P (ExecM.withBindings env bs x)

namespace Steps

variable {P : ∀ {α : Type}, ExecM α → Prop} (h : Steps P) {α : Type}

include h

theorem plain : Plain (fun _ ↦ True) P where
  bind := h.bind
  read := h.read
  charge env c := h.onMachine (EvalM.grows_charge env c)
  extend x v _ := h.extend x v
  write := h.write
  accept := h.accept
  emit := h.emit
  announce := h.announce

theorem execBlock_of_mem {o : Outside} {scene : Scene} {block : List Stmt}
    (hblock : ∀ st ∈ block, ∀ site, P (st.execWith o scene site)) :
    P (execBlock o scene block) := by
  induction block with
  | nil => exact h.plain.pure ()
  | cons st rest ih =>
    obtain ⟨hfirst, hrest⟩ := List.forall_mem_cons.mp hblock
    rw [execBlock]
    exact h.bind (h.annotate _ (hfirst .dummy)) fun _ ↦ ih hrest

end Steps

/-- Evaluation outside of a block only adds frames, and bodies of procedures have the property. -/
structure Outside.Steps (P : ∀ {α : Type}, ExecM α → Prop) (o : Outside) : Prop where
  eval : ∀ e env, Run.Keeps Machine.Grows (o.eval e env)
  invoke : ∀ scene bs body, P (o.invoke scene bs body)

namespace Steps

variable {P : ∀ {α : Type}, ExecM α → Prop} (h : Steps P) {o : Outside} (ho : o.Steps P)

include h ho

theorem call (scene : Scene) (site : Span) (name : String) (args : List Value) :
    P (o.call scene site name args) := by
  have hread := h.plain
  unfold Outside.call
  split
  · exact hread.fail _
  · refine h.bind (hread.ofExcept _) fun own ↦ h.bind (hread.inspect _) fun sender ↦ ?_
    refine h.bind (hread.inspect _) fun origin ↦ h.bind (hread.inspect _) fun amount ↦ ?_
    exact ho.invoke _ _ _

theorem callEach (scene : Scene) (site : Span) (name : String) (items : List Value) :
    P (o.callEach scene site name items) := by
  induction items with
  | nil => exact h.plain.pure ()
  | cons item items ih => exact h.bind (h.call ho scene site name [item]) fun _ ↦ ih

theorem execWith (scene : Scene) (st : Stmt) (site : Span) : P (st.execWith o scene site) := by
  have hread := h.plain
  induction st generalizing site with
  | matching x clauses ih =>
    refine h.bind (hread.inspect _) fun v ↦ ?_
    split
    · exact hread.fail _
    · next i binds hmatch =>
      obtain ⟨clause, hclause⟩ := exists_clause hmatch
      refine h.bind (hread.inspect _) fun env ↦ h.withBindings env binds ?_
      rw [execClause_eq x hclause]
      exact h.execBlock_of_mem (ih clause (List.mem_of_getElem? hclause))
  | call name args => exact h.bind (hread.inspect _) fun vs ↦ h.call ho scene site name vs
  | forEach list name =>
    exact h.bind (hread.inspect _) fun v ↦ h.bind (hread.ofExcept _) fun items ↦
      h.callEach ho scene site name items
  | located sp st ih => exact h.annotate _ (ih sp)
  | _ =>
    exact hread.execWith (fun e env ↦ h.onMachine (ho.eval e env)) scene rfl
      (fun _ _ ↦ trivial) site

theorem execBlock (scene : Scene) (block : List Stmt) :
    P (MeteredContract.execBlock o scene block) :=
  h.execBlock_of_mem fun st _ site ↦ h.execWith ho scene st site

omit ho in
theorem outside (s : Setting) (room : Nat) : (MeteredContract.outside s room).Steps P := by
  induction room with
  | zero => exact ⟨grows_eval s 0, fun _ _ _ ↦ h.plain.fail _⟩
  | succ room ih =>
    refine ⟨grows_eval s (room + 1), fun scene bs body ↦ ?_⟩
    exact h.withBindings scene.initEnv bs (h.execBlock ih scene body)

omit ho in
/-- Every execution has the property. -/
theorem exec (s : Setting) (room : Nat) (scene : Scene) (block : List Stmt) :
    P (MeteredContract.exec s room scene block) :=
  h.execBlock (h.outside s room) scene block

end Steps

end MeteredContract
