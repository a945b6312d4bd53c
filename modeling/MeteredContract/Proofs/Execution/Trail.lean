import MeteredContract.Proofs.Evaluation.Steps
import MeteredContract.Proofs.Execution.Plain

/-!
Trails of faults. A fault that leaves the body of a component has a trail: the calls that were
active when it was raised, each made by a call statement of the component before it (`Nested`), on
top of the trail of the component itself (`exec_traces`). A procedure sees only the procedures
declared before it, so from the innermost call outwards the procedures stand further and further
back in the table; in particular no procedure is active twice (`Nested.ordered`).
-/

set_option autoImplicit false
set_option relaxedAutoImplicit false

namespace MeteredContract

/-! ### Call statements -/

mutual

/-- The calls that a statement may make by itself, with the positions of the call statements. -/
def Stmt.calls : Stmt → (site : Span) → List Call
  | .call name _, site => [⟨name, some site⟩]
  | .forEach _ name, site => [⟨name, some site⟩]
  | .matching _ clauses, _ => clausesCalls clauses
  | .located span st, _ => st.calls span
  | _, _ => []

def blockCalls : List Stmt → List Call
  | [] => []
  | st :: rest => st.calls .dummy ++ blockCalls rest

def clausesCalls : List (Pattern × List Stmt) → List Call
  | [] => []
  | (_, body) :: clauses => blockCalls body ++ clausesCalls clauses

end

theorem blockCalls_subset {clauses : List (Pattern × List Stmt)} {i : Nat}
    {clause : Pattern × List Stmt} (h : clauses[i]? = some clause) :
    blockCalls clause.2 ⊆ clausesCalls clauses := by
  induction clauses generalizing i with
  | nil => simp at h
  | cons first rest ih =>
    obtain ⟨p, body⟩ := first
    rw [clausesCalls]
    cases i with
    | zero =>
      cases h
      exact List.subset_append_left _ _
    | succ i => exact List.subset_append_of_subset_right _ (ih (by simpa using h))

/-! ### Nested calls -/

/-- Calls that are active one in the other, the innermost first. The outermost is one of `sites` and
finds its procedure in the table, and the others are made by the bodies of procedures, each with the
part of the table that its caller sees. -/
inductive Nested : List Component → List Call → Trail → Prop
  | nil (procedures : List Component) (sites : List Call) : Nested procedures sites []
  | call {procedures : List Component} {sites : List Call} {c : Call} {callee : Callee}
    {inner : Trail} (hsite : c ∈ sites) (hfound : findCallee? c.name procedures = some callee)
    (hinner : Nested callee.visible (blockCalls callee.procedure.body) inner) :
    Nested procedures sites (inner ++ [c])

theorem Nested.mono {procedures : List Component} {sites sites' : List Call} {calls : Trail}
    (h : Nested procedures sites calls) (hsub : sites ⊆ sites') :
    Nested procedures sites' calls := by
  cases h with
  | nil => exact .nil _ _
  | call hsite hfound hinner => exact .call (hsub hsite) hfound hinner

/-- The position of the first procedure of that name. -/
def positionOf (procedures : List Component) (name : String) : Nat :=
  procedures.findIdx (·.name = name)

/-- A table is what the procedure that was found sees, the procedure, and the rest of the table. -/
theorem eq_append_of_findCallee? {name : String} {procedures : List Component} {c : Callee}
    (h : findCallee? name procedures = some c) :
    c.procedure.name = name ∧ (∀ p ∈ c.visible, p.name ≠ name) ∧
      ∃ rest, procedures = c.visible ++ c.procedure :: rest := by
  induction procedures generalizing c with
  | nil => cases h
  | cons p ps ih =>
    unfold findCallee? at h
    split at h
    · next hname =>
      cases h
      exact ⟨hname, List.forall_mem_nil _, ps, rfl⟩
    · next hname =>
      obtain ⟨c', hc', rfl⟩ := Option.map_eq_some_iff.mp h
      obtain ⟨hproc, hvisible, rest, rfl⟩ := ih hc'
      exact ⟨hproc, List.forall_mem_cons.mpr ⟨hname, hvisible⟩, rest, rfl⟩

theorem positionOf_callee {name : String} {procedures : List Component} {c : Callee}
    (h : findCallee? name procedures = some c) : positionOf procedures name = c.visible.length := by
  obtain ⟨hname, hvisible, rest, rfl⟩ := eq_append_of_findCallee? h
  have hnone : c.visible.findIdx (·.name = name) = c.visible.length :=
    List.findIdx_eq_length.mpr fun p hp ↦ by simpa using hvisible p hp
  simp [positionOf, List.findIdx_append, hnone, List.findIdx_cons, hname]

theorem positionOf_append {procedures rest : List Component} {name : String}
    (h : positionOf procedures name < procedures.length) :
    positionOf (procedures ++ rest) name = positionOf procedures name := by
  unfold positionOf at *
  rw [List.findIdx_append, if_pos h]

namespace Nested

variable {procedures : List Component} {sites : List Call} {calls : Trail}

/-- Every active call is of a procedure of the table, and those around it are of later ones. -/
theorem ordered (h : Nested procedures sites calls) :
    (∀ c ∈ calls, positionOf procedures c.name < procedures.length) ∧
      calls.Pairwise fun c d ↦ positionOf procedures c.name < positionOf procedures d.name := by
  induction h with
  | nil => exact ⟨List.forall_mem_nil _, .nil⟩
  | @call procedures sites c callee inner hsite hfound hinner ih =>
    obtain ⟨hlt, hpairwise⟩ := ih
    have hcall := positionOf_callee hfound
    obtain ⟨-, -, rest, hprocedures⟩ := eq_append_of_findCallee? hfound
    have hinner : ∀ d ∈ inner, positionOf procedures d.name = positionOf callee.visible d.name := by
      intro d hd
      rw [hprocedures, positionOf_append (hlt d hd)]
    have hlength := length_visible_lt hfound
    constructor
    · intro d hd
      rcases List.mem_append.mp hd with hd | hd
      · have hbelow := hlt d hd
        rw [hinner d hd]
        omega
      · rw [List.mem_singleton.mp hd, hcall]
        exact hlength
    · refine List.pairwise_append.mpr ⟨?_, List.pairwise_singleton _ _, fun d hd e he ↦ ?_⟩
      · refine hpairwise.imp_of_mem fun {d e} hd he hlt ↦ ?_
        rw [hinner d hd, hinner e he]
        exact hlt
      · rw [List.mem_singleton.mp he, hcall, hinner d hd]
        exact hlt d hd

/-- No procedure is active twice. -/
theorem nodup_names (h : Nested procedures sites calls) : (calls.map (·.name)).Nodup := by
  refine List.pairwise_map.mpr (h.ordered.2.imp fun {c d} hlt heq ↦ ?_)
  rw [heq] at hlt
  exact Nat.lt_irrefl _ hlt

theorem length_le (h : Nested procedures sites calls) : calls.length ≤ procedures.length := by
  induction h with
  | nil => exact Nat.zero_le _
  | call hsite hfound hinner ih =>
    have hlength := length_visible_lt hfound
    rw [List.length_append, List.length_singleton]
    omega

end Nested

/-! ### Faults without a trail -/

theorem Fault.withSpan_trail (span : Span) (f : Fault) : (f.withSpan span).trail = f.trail := by
  unfold Fault.withSpan
  split <;> rfl

/-- The fault does not say yet where it was raised. -/
def Fault.Untraced (f : Fault) : Prop := f.trail = none

theorem Fault.untraced_ofCause (c : Cause) : (Fault.ofCause c).Untraced := rfl

theorem EvalM.steps_untraced : EvalM.Steps (Run.FaultsIn Fault.Untraced) where
  bind hx hf := hx.bind fun a _ ↦ hf a
  annotate span hx := Run.FaultsIn.annotate hx fun f hf ↦ (f.withSpan_trail span).trans hf
  read _ := .read (fun _ _ _ _ ↦ trivial) fun _ c _ _ ↦ Fault.untraced_ofCause c
  push _ _ _ := ⟨trivial, trivial⟩
  bindAll _ _ _ _ := ⟨trivial, trivial⟩
  setTop _ _ _ _ := ⟨trivial, trivial⟩
  pay amount m _ := by
    refine ⟨trivial, ?_⟩
    unfold EvalM.pay
    split
    · trivial
    · exact Fault.untraced_ofCause _

theorem untraced_onMachine {α : Type} {x : EvalM α} (hx : Run.FaultsIn Fault.Untraced x) :
    Run.FaultsIn Fault.Untraced (ExecM.onMachine x) :=
  .zoom (fun _ _ ↦ trivial) (fun _ _ _ _ ↦ trivial) hx

theorem plain_untraced : Plain (fun _ ↦ True) (Run.FaultsIn Fault.Untraced) where
  bind hx hf := hx.bind fun a _ ↦ hf a
  read _ := .read (fun _ _ _ _ ↦ trivial) fun _ c _ _ ↦ Fault.untraced_ofCause c
  charge env c := untraced_onMachine (EvalM.steps_untraced.charge env c)
  extend _ _ _ _ _ := ⟨trivial, trivial⟩
  write _ _ _ := ⟨trivial, trivial⟩
  accept scene t _ := by
    refine ⟨trivial, ?_⟩
    unfold ExecM.accept
    split
    · trivial
    · split
      · trivial
      · exact Fault.untraced_ofCause _
  emit _ _ _ := ⟨trivial, trivial⟩
  announce _ _ _ := ⟨trivial, trivial⟩

theorem faultsIn_withBindings {p : Fault → Prop} (env : Env) (bs : List (String × Value))
    {x : ExecM Unit} (hx : Run.FaultsIn p x) : Run.FaultsIn p (ExecM.withBindings env bs x) :=
  fun t _ ↦ ⟨trivial, (hx (t.bound env bs) trivial).2⟩

/-! ### Faults with a trail -/

/-- The trail of the fault is that of calls which are nested from the sites, on top of the trail of
the scene. -/
def Scene.Traces (scene : Scene) (sites : List Call) (f : Fault) : Prop :=
  ∃ calls, Nested scene.procedures sites calls ∧ f.trail = some (calls ++ scene.trail)

/-- The fault has no trail, or such a one. -/
def Scene.MayTrace (scene : Scene) (sites : List Call) (f : Fault) : Prop :=
  f.Untraced ∨ scene.Traces sites f

section Traces

variable {scene : Scene} {sites sites' : List Call} {f : Fault}

theorem Scene.Traces.mono (h : scene.Traces sites f) (hsub : sites ⊆ sites') :
    scene.Traces sites' f := by
  obtain ⟨calls, hnested, htrail⟩ := h
  exact ⟨calls, hnested.mono hsub, htrail⟩

theorem Scene.MayTrace.withSpan (h : scene.MayTrace sites f) (span : Span) :
    scene.MayTrace sites (f.withSpan span) := by
  have htrail := f.withSpan_trail span
  rcases h with h | ⟨calls, hnested, h⟩
  · exact .inl (htrail.trans h)
  · exact .inr ⟨calls, hnested, htrail.trans h⟩

/-- A component adds its own trail to a fault that has none. -/
theorem Scene.MayTrace.attach (h : scene.MayTrace sites f) (hscene : scene.trail ≠ []) :
    scene.Traces sites (f.attach scene.trail) := by
  have hattach : f.attach scene.trail = f.withTrail scene.trail := if_neg (by simpa using hscene)
  rw [hattach]
  rcases h with h | ⟨calls, hnested, h⟩
  · refine ⟨[], .nil _ _, ?_⟩
    rw [Fault.withTrail, show f.trail = none from h]
    rfl
  · refine ⟨calls, hnested, ?_⟩
    rw [Fault.withTrail, h]
    exact h

end Traces

/-- Evaluation leaves faults without a trail, and the bodies of procedures give them theirs. -/
structure Outside.Traces (o : Outside) : Prop where
  eval : ∀ e env, Run.FaultsIn Fault.Untraced (o.eval e env)
  invoke : ∀ (scene : Scene) bs body, scene.trail ≠ [] →
    Run.FaultsIn (scene.MayTrace (blockCalls body)) (o.invoke scene bs body)

section Calls

variable {o : Outside} (ho : o.Traces) {scene : Scene} {sites : List Call}

include ho

theorem Outside.Traces.call {site : Span} {name : String} (hsite : ⟨name, some site⟩ ∈ sites)
    (args : List Value) :
    Run.FaultsIn (scene.MayTrace sites) (o.call scene site name args) := by
  have huntraced : ∀ {α : Type} {x : ExecM α}, Run.FaultsIn Fault.Untraced x →
      Run.FaultsIn (scene.MayTrace sites) x := fun hx ↦ Run.FaultsIn.mono hx fun _ ↦ .inl
  unfold Outside.call
  split
  · exact huntraced (plain_untraced.fail _)
  · next p visible hfound =>
    refine (huntraced (plain_untraced.ofExcept _)).bind fun own _ ↦ ?_
    refine (huntraced (plain_untraced.inspect _)).bind fun sender _ ↦ ?_
    refine (huntraced (plain_untraced.inspect _)).bind fun origin _ ↦ ?_
    refine (huntraced (plain_untraced.inspect _)).bind fun amount _ ↦ ?_
    refine Run.FaultsIn.mono (ho.invoke _ _ p.body (List.cons_ne_nil _ _)) fun f hf ↦ ?_
    rcases hf with hf | ⟨calls, hnested, hf⟩
    · exact .inl hf
    · refine .inr ⟨calls ++ [⟨name, some site⟩], .call hsite hfound hnested, ?_⟩
      rw [hf, List.append_assoc]
      rfl

theorem Outside.Traces.callEach {site : Span} {name : String} (hsite : ⟨name, some site⟩ ∈ sites)
    (items : List Value) :
    Run.FaultsIn (scene.MayTrace sites) (o.callEach scene site name items) := by
  induction items with
  | nil => exact .pure trivial
  | cons item items ih => exact (ho.call hsite [item]).bind fun _ _ ↦ ih

omit ho in
theorem traces_block_of_mem (hscene : scene.trail ≠ []) {block : List Stmt}
    (hblock : ∀ st ∈ block, ∀ site,
      Run.FaultsIn (scene.MayTrace (st.calls site)) (st.execWith o scene site)) :
    Run.FaultsIn (scene.Traces (blockCalls block)) (execBlock o scene block) := by
  induction block with
  | nil => exact .pure trivial
  | cons st rest ih =>
    obtain ⟨hfirst, hrest⟩ := List.forall_mem_cons.mp hblock
    have hst : Run.FaultsIn (scene.Traces (st.calls .dummy ++ blockCalls rest))
        ((st.execWith o scene .dummy).annotate (·.attach scene.trail)) :=
      Run.FaultsIn.annotate (hfirst .dummy) fun f hf ↦
        (hf.attach hscene).mono (List.subset_append_left _ _)
    rw [execBlock, blockCalls]
    refine hst.bind fun _ _ ↦ ?_
    exact Run.FaultsIn.mono (ih hrest) fun f hf ↦ hf.mono (List.subset_append_right _ _)

theorem Outside.Traces.stmt (hscene : scene.trail ≠ []) (st : Stmt) (site : Span) :
    Run.FaultsIn (scene.MayTrace (st.calls site)) (st.execWith o scene site) := by
  have huntraced : ∀ {α : Type} {x : ExecM α} {sites}, Run.FaultsIn Fault.Untraced x →
      Run.FaultsIn (scene.MayTrace sites) x := fun hx ↦ Run.FaultsIn.mono hx fun _ ↦ .inl
  induction st generalizing site with
  | matching x clauses ih =>
    refine (huntraced (plain_untraced.inspect _)).bind fun v _ ↦ ?_
    split
    · exact huntraced (plain_untraced.fail _)
    · next i binds hmatch =>
      obtain ⟨clause, hclause⟩ := exists_clause hmatch
      refine (huntraced (plain_untraced.inspect _)).bind fun env _ ↦ ?_
      have hbody := traces_block_of_mem hscene (ih clause (List.mem_of_getElem? hclause))
      rw [execClause_eq x hclause]
      refine faultsIn_withBindings env binds (Run.FaultsIn.mono hbody fun f hf ↦ ?_)
      exact .inr (hf.mono (blockCalls_subset hclause))
  | call name args =>
    refine (huntraced (plain_untraced.inspect _)).bind fun vs _ ↦ ?_
    exact ho.call (List.mem_singleton_self _) vs
  | forEach list name =>
    refine (huntraced (plain_untraced.inspect _)).bind fun v _ ↦ ?_
    refine (huntraced (plain_untraced.ofExcept _)).bind fun items _ ↦ ?_
    exact ho.callEach (List.mem_singleton_self _) items
  | located span st ih =>
    exact Run.FaultsIn.annotate (ih span) fun f hf ↦ hf.withSpan span
  | _ =>
    exact huntraced (plain_untraced.execWith (fun e env ↦ untraced_onMachine (ho.eval e env)) scene
      rfl (fun _ _ ↦ trivial) site)

theorem Outside.Traces.block (hscene : scene.trail ≠ []) (block : List Stmt) :
    Run.FaultsIn (scene.Traces (blockCalls block)) (execBlock o scene block) :=
  traces_block_of_mem hscene fun st _ site ↦ ho.stmt hscene st site

end Calls

theorem traces_outside (s : Setting) (room : Nat) : (outside s room).Traces := by
  have heval : ∀ room e env, Run.FaultsIn Fault.Untraced ((outside s room).eval e env) := by
    intro room e env
    rw [eval_outside]
    exact EvalM.steps_untraced.eval s room e env
  induction room with
  | zero => exact ⟨heval 0, fun _ _ _ _ ↦ .fail (.inl rfl)⟩
  | succ room ih =>
    refine ⟨heval (room + 1), fun scene bs body hscene ↦ ?_⟩
    have hbody := ih.block hscene body
    exact faultsIn_withBindings scene.initEnv bs (Run.FaultsIn.mono hbody fun f hf ↦ .inr hf)

/-- A fault that leaves a block of a component has the trail of the calls that were active, on top
of the trail of the component. -/
theorem exec_traces (s : Setting) (room : Nat) {scene : Scene} (hscene : scene.trail ≠ [])
    (block : List Stmt) :
    Run.FaultsIn (scene.Traces (blockCalls block)) (exec s room scene block) :=
  (traces_outside s room).block hscene block

end MeteredContract
