import MeteredContract.Proofs.Execution.Configuration

/-!
The limit on the depth of calls. An execution that counts its calls by hand comes back to the count
from before after every evaluation, application and block, whether it fails or not, and never counts
beyond the limit (`counts_interpreter`). A larger limit makes no difference to a run that the
smaller one has not cut off, for expressions (`evalAt_upTo`) and for blocks (`execAt_upTo`): only a
call reads the limit, and where the smaller limit refuses one, the run ends.
-/

set_option autoImplicit false
set_option relaxedAutoImplicit false

namespace MeteredContract

/-! ### The count -/

/-- What an interpreter does to the count of calls. -/
structure Interpreter.Counts (s : Setting) (i : Interpreter) : Prop where
  eval : ∀ e env p, (i.eval e env p).2.depth = p.depth
  apply : ∀ f arg p, (i.apply s f arg p).2.depth = p.depth
  tyApply : ∀ f t p, (i.tyApply s f t p).2.depth = p.depth
  exec : ∀ block c, (i.exec block c).2.depth = c.depth
  /-- Runs that begin within the limit do not leave it: they are the same for every interpreter that
  satisfies the equation within the limit, whatever it does beyond. -/
  within : ∀ j : Interpreter, (j.unfold s).AgreesOn j {depth | depth ≤ s.depthLimit} →
    i.AgreesOn j {depth | depth ≤ s.depthLimit}

namespace Interpreter

variable (s : Setting)

theorem lifts_enterBody_interpreter (depth : Nat) (f : Frame) (body : Expr) :
    Run.Lifts (Processor.mk · depth) ((interpreter s).enterBody s f body)
      ((evalAt s).enter s.guard depth f body) :=
  lifts_enterBody (fun _ _ _ ↦ rfl) f

theorem counts_interpreter : (interpreter s).Counts s where
  eval _ _ _ := rfl
  apply f arg p := by
    have happly := lifts_apply (lifts_enterBody_interpreter s p.depth) f arg p.machine
    exact congrArg (fun r ↦ r.2.depth) happly
  tyApply f t p := by
    have htyApply := lifts_tyApply (lifts_enterBody_interpreter s p.depth) f t p.machine
    exact congrArg (fun r ↦ r.2.depth) htyApply
  exec _ _ := rfl
  within j hj := by
    have hagrees := (agreesOn_unfold_iff s.confines_limit j).mp hj
    exact ⟨fun e env p hp ↦ (hagrees.eval e env p hp).symm,
      fun block c hc ↦ (hagrees.exec block c hc).symm⟩

end Interpreter

/-! ### A larger limit -/

/-- The limit has refused a call. -/
def Cause.IsLimit (limit : Nat) (c : Cause) : Prop := c = .callDepthExceeded limit

section Larger

variable {types : Datatypes} {limit limit' : Nat} (hle : limit ≤ limit')

include hle

theorem Setting.guard_relaxes :
    (Setting.guard ⟨types, limit'⟩).Relaxes ⟨types, limit⟩ (Cause.IsLimit limit) := by
  intro depth
  unfold Setting.guard
  by_cases hlt : depth < limit
  · have hlt' : depth < limit' := Nat.lt_of_lt_of_le hlt hle
    rw [if_pos hlt, if_pos hlt']
    exact .inl rfl
  · rw [if_neg hlt]
    exact .inr ⟨_, rfl, rfl⟩

/-- Unfolded often enough, the equation with the larger limit gives evaluation with either. -/
theorem evalAt_upTo (depth : Nat) (e : Expr) (env : Env) :
    Run.UpTo (Cause.IsLimit limit) (evalAt ⟨types, limit'⟩ depth e env)
      (evalAt ⟨types, limit⟩ depth e env) := by
  intro m
  let k := max m.arena.codeSize e.size
  let r := max (unfoldings limit k depth e) (unfoldings limit' k depth e)
  have hlarger := iterate_unfold ⟨types, limit'⟩ (evalAt ⟨types, limit'⟩) m
    (Nat.le_max_right _ _ : m.arena.unfoldings limit' depth e ≤ r) env
  rw [← hlarger]
  exact Evaluator.iterate_follows (Setting.guard_relaxes hle) _ (Nat.le_max_left _ _ : _ ≤ r)
    (Nat.le_max_right _ _) 0 env m (Arena.sound_sized (Nat.le_max_left _ _)) (Nat.zero_le _)

end Larger

/-- What lies outside of blocks differs by what is cut off. -/
structure Outside.UpTo (cut : Cause → Prop) (o o' : Outside) : Prop where
  eval : ∀ e env, Run.UpTo cut (o.eval e env) (o'.eval e env)
  invoke : ∀ scene bs body, Run.UpTo cut (o.invoke scene bs body) (o'.invoke scene bs body)

section Blocks

open ExecM

variable {cut : Cause → Prop}

theorem upTo_withBindings {x y : ExecM Unit} (h : Run.UpTo cut x y) (env : Env)
    (bs : List (String × Value)) :
    Run.UpTo cut (withBindings env bs x) (withBindings env bs y) := by
  refine (Run.UpTo.refl _).bind fun inner ↦ ?_
  have hwithin := h.zoom (fun s : Session ↦ { s with env := inner }) fun (s t : Session) ↦
    { t with env := s.env }
  exact hwithin

variable {o o' : Outside}

theorem upTo_block_of_mem (scene : Scene) {block : List Stmt}
    (hmem : ∀ st ∈ block, ∀ site,
      Run.UpTo cut (st.execWith o scene site) (st.execWith o' scene site)) :
    Run.UpTo cut (execBlock o scene block) (execBlock o' scene block) := by
  induction block with
  | nil => exact .refl _
  | cons st rest ih =>
    obtain ⟨hfirst, hrest⟩ := List.forall_mem_cons.mp hmem
    rw [execBlock, execBlock]
    refine Run.UpTo.bind ?_ fun _ ↦ ih hrest
    exact (hfirst .dummy).annotate fun f ↦ f.attach_cause scene.trail

variable (h : o.UpTo cut o')

include h

theorem Outside.UpTo.call (scene : Scene) (site : Span) (name : String) (args : List Value) :
    Run.UpTo cut (o.call scene site name args) (o'.call scene site name args) := by
  unfold Outside.call
  cases findCallee? name scene.procedures with
  | none => exact .refl _
  | some c =>
    refine (Run.UpTo.refl _).bind fun own ↦ (Run.UpTo.refl _).bind fun sender ↦ ?_
    exact (Run.UpTo.refl _).bind fun origin ↦ (Run.UpTo.refl _).bind fun amount ↦ h.invoke _ _ _

theorem Outside.UpTo.callEach (scene : Scene) (site : Span) (name : String) (items : List Value) :
    Run.UpTo cut (o.callEach scene site name items) (o'.callEach scene site name items) := by
  induction items with
  | nil => exact .refl _
  | cons item items ih => exact (h.call scene site name [item]).bind fun _ ↦ ih

theorem Outside.UpTo.stmt (scene : Scene) (st : Stmt) (site : Span) :
    Run.UpTo cut (st.execWith o scene site) (st.execWith o' scene site) := by
  induction st generalizing site with
  | bind x e =>
    refine (Run.UpTo.refl _).bind fun env ↦ ?_
    exact ((h.eval e env).zoom _ _).bind fun v ↦ .refl _
  | matching x clauses ih =>
    refine (Run.UpTo.refl _).bind fun v ↦ ?_
    cases hmatch : Pattern.firstMatch (clauses.map Prod.fst) v with
    | none => exact .refl _
    | some found =>
      obtain ⟨j, binds⟩ := found
      obtain ⟨clause, hclause⟩ := exists_clause hmatch
      simp only [execClause_eq x hclause]
      have hbody := upTo_block_of_mem scene (ih clause (List.mem_of_getElem? hclause))
      exact (Run.UpTo.refl _).bind fun env ↦ upTo_withBindings hbody env binds
  | call name args => exact (Run.UpTo.refl _).bind fun vs ↦ h.call scene site name vs
  | forEach list name =>
    refine (Run.UpTo.refl _).bind fun v ↦ (Run.UpTo.refl _).bind fun items ↦ ?_
    exact h.callEach scene site name items
  | located sp st ih => exact (ih sp).annotate fun f ↦ f.withSpan_cause sp
  | _ => exact .refl _

theorem Outside.UpTo.block (scene : Scene) (block : List Stmt) :
    Run.UpTo cut (execBlock o scene block) (execBlock o' scene block) :=
  upTo_block_of_mem scene fun st _ site ↦ h.stmt scene st site

end Blocks

section Larger

variable {types : Datatypes} {limit limit' : Nat} (hle : limit ≤ limit')

include hle

/-- By induction on the room that the smaller limit leaves. -/
theorem outside_upTo (depth : Nat) :
    (outside ⟨types, limit'⟩ (limit' - depth)).UpTo (Cause.IsLimit limit)
      (outside ⟨types, limit⟩ (limit - depth)) := by
  induction hroom : limit - depth generalizing depth with
  | zero =>
    refine ⟨fun e env ↦ ?_, fun scene bs body ↦ .fail _ rfl⟩
    rw [eval_outside, eval_outside, ← hroom]
    exact evalAt_upTo hle depth e env
  | succ room ih =>
    obtain ⟨room', hroom'⟩ : ∃ room', limit' - depth = room' + 1 :=
      ⟨limit' - (depth + 1), by omega⟩
    refine ⟨fun e env ↦ ?_, fun scene bs body ↦ ?_⟩
    · rw [eval_outside, eval_outside, ← hroom]
      exact evalAt_upTo hle depth e env
    · have hnext := ih (depth + 1) (by omega)
      rw [show limit' - (depth + 1) = room' by omega] at hnext
      rw [hroom', outside, outside]
      exact upTo_withBindings (hnext.block scene body) scene.initEnv bs

theorem execAt_upTo (depth : Nat) (scene : Scene) (block : List Stmt) :
    Run.UpTo (Cause.IsLimit limit) (execAt ⟨types, limit'⟩ depth scene block)
      (execAt ⟨types, limit⟩ depth scene block) :=
  (outside_upTo hle depth).block scene block

end Larger

end MeteredContract
