import MeteredContract.Proofs.Execution.Names
import MeteredContract.Proofs.Termination.Block
import Mathlib.Data.List.Nodup

/-!
Sender, origin and amount along calls. A call reads the three names in the environment that its
caller has got to, and binds them anew for the body of the procedure. If no component binds one of
them itself, they have the same values at all points that a run reaches (`Reaches.authentic`). So
calls may as well bind three values that are fixed beforehand, and look up nothing
(`Implicit.exec`): the runs are the same (`Implicit.exec_eq`).
-/

set_option autoImplicit false
set_option relaxedAutoImplicit false

namespace MeteredContract

/-- Values of the parameters that every component has without declaring them. -/
structure Implicit where
  sender : Value
  origin : Value
  amount : Value

/-- The names of these parameters. -/
def implicitNames : List String := implicitComponentParams.map (·.name)

/-- The component binds none of the names itself. -/
def Component.SparesImplicit (c : Component) : Prop := ∀ x ∈ c.bound, x ∉ implicitNames

instance (c : Component) : Decidable c.SparesImplicit :=
  inferInstanceAs (Decidable (∀ x ∈ c.bound, x ∉ implicitNames))

namespace Implicit

variable (i : Implicit)

def bindings : List (String × Value) :=
  [(Label.sender, i.sender), (Label.origin, i.origin), (Label.amount, i.amount)]

/-- The names have these values. -/
def BoundIn (a : Arena) (env : Env) : Prop := ∀ b ∈ i.bindings, a.lookup env b.1 = .ok b.2

variable {i}

theorem map_fst_bindings (i : Implicit) : i.bindings.map Prod.fst = implicitNames := rfl

theorem fst_mem_names {b : String × Value} (hb : b ∈ i.bindings) : b.1 ∈ implicitNames := by
  rw [← i.map_fst_bindings]
  exact List.mem_map_of_mem hb

theorem snd_eq_of_fst_eq {b c : String × Value} (hb : b ∈ i.bindings) (hc : c ∈ i.bindings)
    (h : c.1 = b.1) : c.2 = b.2 := by
  have hnodup : (i.bindings.map Prod.fst).Nodup := by
    rw [map_fst_bindings]
    decide
  exact congrArg Prod.snd (List.inj_on_of_nodup_map hnodup hc hb h)

/-- The names have the values after all of them were bound and then others. -/
theorem boundIn_bindAll (a : Arena) (env : Env) {own : List (String × Value)}
    (hown : ∀ b ∈ own, b.1 ∉ implicitNames) :
    i.BoundIn (a.bindAll env (i.bindings ++ own)).1 (a.bindAll env (i.bindings ++ own)).2 := by
  intro b hb
  refine Arena.lookup_bindAll (.inr (List.mem_append_left _ hb)) fun c hc heq ↦ ?_
  rcases List.mem_append.mp hc with hc | hc
  · exact snd_eq_of_fst_eq hb hc heq
  · exact absurd (heq ▸ fst_mem_names hb) (hown c hc)

/-- The session has the values under the names. -/
def Holds (i : Implicit) (t : Session) : Prop := i.BoundIn t.machine.arena t.env

theorem Holds.keeps {t u : Session} (ht : i.Holds t) (h : t.KeepsNames implicitNames u) :
    i.Holds u :=
  fun b hb ↦ h.lookup b.1 (fst_mem_names hb) b.2 (ht b hb)

end Implicit

/-! ### Points -/

/-- What the procedure gets from its caller, apart from its own arguments. -/
def Handover.implicit (h : Handover) : Implicit := ⟨h.sender, h.origin, h.amount⟩

theorem Handover.Of.implicit_eq {h : Handover} {scene : Scene} {name : String} {args : List Value}
    {t : Session} (hof : h.Of scene name args t) {i : Implicit} (hi : i.Holds t) :
    h.implicit = i := by
  have hsender := hof.sender.symm.trans (hi (Label.sender, i.sender) (by simp [Implicit.bindings]))
  have horigin := hof.origin.symm.trans (hi (Label.origin, i.origin) (by simp [Implicit.bindings]))
  have hamount := hof.amount.symm.trans (hi (Label.amount, i.amount) (by simp [Implicit.bindings]))
  rw [Handover.implicit, Except.ok.inj hsender, Except.ok.inj horigin, Except.ok.inj hamount]

/-- A procedure binds its arguments to its own parameters. -/
theorem fst_mem_params {params : List Param} {args : List Value} {own : List (String × Value)}
    (h : positionalBindings params args = .ok own) : ∀ b ∈ own, b.1 ∈ params.map (·.name) := by
  unfold positionalBindings at h
  split at h
  · cases h
  · split at h
    · cases h
    · cases h
      exact fun b hb ↦ (List.of_mem_zip hb).1

theorem Component.SparesImplicit.own {c : Component} (hc : c.SparesImplicit) {args : List Value}
    {own : List (String × Value)} (h : positionalBindings c.params args = .ok own) :
    ∀ b ∈ own, b.1 ∉ implicitNames :=
  fun b hb ↦ hc b.1 (List.mem_append_left _ (fst_mem_params h b hb))

theorem Component.SparesImplicit.body {c : Component} (hc : c.SparesImplicit) :
    ∀ x ∈ blockBound c.body, x ∉ implicitNames :=
  fun x hx ↦ hc x (List.mem_append_right _ hx)

/-- The names that the code binds. -/
def Code.bound : Code → List String
  | .stmt st _ => st.bound
  | .block body => blockBound body
  | _ => []

/-- The point has the values under the names, and nothing that runs from there binds these names but
calls. -/
structure Point.Authentic (i : Implicit) (p : Point) : Prop where
  values : i.Holds p.session
  code : ∀ x ∈ p.code.bound, x ∉ implicitNames
  procedures : ∀ c ∈ p.scene.procedures, c.SparesImplicit

theorem Leads.authentic {s : Setting} {i : Implicit} {p q : Point} (h : Leads s p q)
    (hp : p.Authentic i) : q.Authentic i := by
  obtain ⟨hvalues, hcode, hprocedures⟩ := hp
  cases h with
  | located => exact ⟨hvalues, hcode, hprocedures⟩
  | @clause room scene x clauses site t v j binds clause hv hmatch hclause =>
    obtain ⟨hbinds, hbody⟩ := forall_clause_of_firstMatch hmatch hclause hcode
    exact ⟨hvalues.keeps (t.keepsNames_bound hbinds), hbody, hprocedures⟩
  | call | forEach => exact ⟨hvalues, nofun, hprocedures⟩
  | head room scene st rest t =>
    exact ⟨hvalues, fun y hy ↦ hcode y (List.mem_append_left _ hy), hprocedures⟩
  | @tail room scene st rest t u hst =>
    have hkeeps := (Stmt.keepsNames s room scene
      (fun y hy ↦ hcode y (List.mem_append_left _ hy)) .dummy).of_eq hst
    exact ⟨hvalues.keeps hkeeps, fun y hy ↦ hcode y (List.mem_append_right _ hy), hprocedures⟩
  | @invoke room scene site name args t h hcall =>
    obtain ⟨hmem, hvisible⟩ := mem_of_findCallee? hcall.callee
    have hcallee := hprocedures _ hmem
    have himplicit : h.implicit = i := hcall.implicit_eq hvalues
    have hbindings : h.bindings = i.bindings ++ h.own := by
      rw [← himplicit]
      rfl
    refine ⟨?_, hcallee.body, fun c hc ↦ hprocedures c (hvisible c hc)⟩
    rw [hbindings]
    exact Implicit.boundIn_bindAll _ _ (hcallee.own hcall.own)
  | first => exact ⟨hvalues, nofun, hprocedures⟩
  | @next room scene site name item items t u hcall =>
    exact ⟨hvalues.keeps ((keepsNames_call s room scene site name [item]).of_eq hcall), nofun,
      hprocedures⟩

theorem Reaches.authentic {s : Setting} {i : Implicit} {p q : Point} (h : Reaches s p q)
    (hp : p.Authentic i) : q.Authentic i := by
  induction h with
  | refl => exact hp
  | tail _ hlead ih => exact hlead.authentic ih

/-! ### Values that are fixed beforehand -/

namespace Implicit

variable (i : Implicit)

open ExecM

/-- Call a procedure with these values, whatever the caller has under the names. -/
def call (o : Outside) (scene : Scene) (site : Span) (name : String) (args : List Value) :
    ExecM Unit :=
  match findCallee? name scene.procedures with
  | none => Run.fail (.unknownProcedure name)
  | some ⟨p, visible⟩ => do
    let own ← Run.ofExcept (positionalBindings p.params args)
    o.invoke { scene with procedures := visible, trail := scene.trail.push name (some site) }
      (i.bindings ++ own) p.body

def callEach (o : Outside) (scene : Scene) (site : Span) (name : String) :
    List Value → ExecM Unit
  | [] => return ()
  | v :: vs => do
    i.call o scene site name [v]
    callEach o scene site name vs

mutual

/-- Run a statement, with the values for all calls. -/
def execStmt (o : Outside) (scene : Scene) : Stmt → (site : Span) → ExecM Unit
  | .matching x clauses, _ => do
    let v ← lookup x
    match Pattern.firstMatch (clauses.map Prod.fst) v with
    | none => Run.fail (.noMatchingClause x)
    | some (j, binds) =>
      let env ← inspect fun _ env ↦ .ok env
      withBindings env binds (execClause o scene clauses j x)
  | .call name args, site => do
    let vs ← lookupAll args
    i.call o scene site name vs
  | .forEach list name, site => do
    let v ← lookup list
    let items ← Run.ofExcept (elements "forall" v)
    i.callEach o scene site name items
  | .located s st, _ => (execStmt o scene st s).annotate (·.withSpan s)
  | st, site => st.execWith o scene site
termination_by structural st => st

def execBlock (o : Outside) (scene : Scene) : List Stmt → ExecM Unit
  | [] => return ()
  | st :: rest => do
    (execStmt o scene st .dummy).annotate (·.attach scene.trail)
    execBlock o scene rest
termination_by structural block => block

def execClause (o : Outside) (scene : Scene) :
    List (Pattern × List Stmt) → (j : Nat) → (x : String) → ExecM Unit
  | [], _, x => Run.fail (.noMatchingClause x)
  | (_, body) :: _, 0, _ => execBlock o scene body
  | _ :: clauses, j + 1, x => execClause o scene clauses j x
termination_by structural clauses => clauses

end

def outside (s : Setting) : (room : Nat) → Outside
  | 0 => ⟨eval s 0, fun _ _ _ ↦ Run.fail (.callDepthExceeded s.depthLimit)⟩
  | room + 1 => ⟨eval s (room + 1), fun scene bs body ↦
      withBindings scene.initEnv bs (i.execBlock (outside s room) scene body)⟩

/-- Execution in which all calls hand on these values. -/
def exec (s : Setting) (room : Nat) (scene : Scene) (block : List Stmt) : ExecM Unit :=
  i.execBlock (i.outside s room) scene block

theorem execClause_eq {o : Outside} {scene : Scene} {clauses : List (Pattern × List Stmt)} {j : Nat}
    {clause : Pattern × List Stmt} (x : String) (h : clauses[j]? = some clause) :
    i.execClause o scene clauses j x = i.execBlock o scene clause.2 := by
  induction clauses generalizing j with
  | nil => simp at h
  | cons first rest ih =>
    cases j with
    | zero =>
      simp only [List.getElem?_cons_zero, Option.some.injEq] at h
      subst h
      rw [execClause]
    | succ j =>
      rw [execClause]
      exact ih (by simpa using h)

section Agreement

variable {i} {s : Setting} {room : Nat} {o : Outside} {scene : Scene}

/-- The bodies of procedures that spare the names run alike over these values. -/
structure Invokes (i : Implicit) (s : Setting) (room : Nat) (o : Outside) : Prop where
  eval : o.eval = (MeteredContract.outside s room).eval
  invoke : ∀ {scene : Scene} {own : List (String × Value)} {c : Component},
    (∀ c ∈ scene.procedures, c.SparesImplicit) → c.SparesImplicit →
    (∀ b ∈ own, b.1 ∉ implicitNames) →
    o.invoke scene (i.bindings ++ own) c.body =
      (MeteredContract.outside s room).invoke scene (i.bindings ++ own) c.body

variable (ho : i.Invokes s room o) (hscene : ∀ c ∈ scene.procedures, c.SparesImplicit)

include ho hscene

theorem agree_call (site : Span) (name : String) (args : List Value) :
    Run.AgreeOn i.Holds (i.call o scene site name args)
      ((MeteredContract.outside s room).call scene site name args) := by
  intro t ht
  have hlookup : ∀ b ∈ i.bindings, t.machine.arena.lookup t.env b.1 = .ok b.2 := ht
  simp only [bindings, List.forall_mem_cons] at hlookup
  obtain ⟨hsender, horigin, hamount, -⟩ := hlookup
  unfold call Outside.call
  cases hfound : findCallee? name scene.procedures with
  | none => rfl
  | some c =>
    obtain ⟨hmem, hvisible⟩ := mem_of_findCallee? hfound
    simp only [lookup, inspect, Run.ofExcept, Run.read_bind, hsender, horigin, hamount]
    cases hown : positionalBindings c.procedure.params args with
    | error e => rfl
    | ok own =>
      have hcallee := hscene _ hmem
      exact congrFun (ho.invoke (fun c hc ↦ hscene c (hvisible c hc)) hcallee
        (hcallee.own hown)) t

theorem agree_callEach (site : Span) (name : String) (items : List Value) :
    Run.AgreeOn i.Holds (i.callEach o scene site name items)
      ((MeteredContract.outside s room).callEach scene site name items) := by
  induction items with
  | nil => exact .refl _
  | cons item items ih =>
    refine (agree_call ho hscene site name [item]).bind (fun t _ u ht hcall ↦ ?_) fun _ ↦ ih
    exact ht.keeps ((keepsNames_call s room scene site name [item]).of_eq hcall)

omit ho hscene in
theorem agree_block_of_mem {block : List Stmt} (hblock : ∀ x ∈ blockBound block, x ∉ implicitNames)
    (hmem : ∀ st ∈ block, (∀ x ∈ st.bound, x ∉ implicitNames) → ∀ site,
      Run.AgreeOn i.Holds (i.execStmt o scene st site)
        (st.execWith (MeteredContract.outside s room) scene site)) :
    Run.AgreeOn i.Holds (i.execBlock o scene block)
      (MeteredContract.execBlock (MeteredContract.outside s room) scene block) := by
  induction block with
  | nil => exact .refl _
  | cons st rest ih =>
    obtain ⟨hfirst, hrest⟩ := List.forall_mem_cons.mp hmem
    rw [blockBound, List.forall_mem_append] at hblock
    rw [execBlock, MeteredContract.execBlock]
    refine ((hfirst hblock.1 .dummy).annotate _).bind (fun t _ u ht hst ↦ ?_)
      fun _ ↦ ih hblock.2 hrest
    exact ht.keeps ((st.keepsNames s room scene hblock.1 .dummy).of_eq (Run.annotate_eq_ok.mp hst))

theorem agree_stmt {st : Stmt} (hst : ∀ x ∈ st.bound, x ∉ implicitNames) (site : Span) :
    Run.AgreeOn i.Holds (i.execStmt o scene st site)
      (st.execWith (MeteredContract.outside s room) scene site) := by
  induction st generalizing site with
  | matching x clauses ih =>
    refine .read_bind _ fun v ↦ ?_
    cases hmatch : Pattern.firstMatch (clauses.map Prod.fst) v with
    | none => exact .refl _
    | some found =>
      obtain ⟨j, binds⟩ := found
      obtain ⟨clause, hclause⟩ := exists_clause hmatch
      obtain ⟨hbinds, hspared⟩ := forall_clause_of_firstMatch hmatch hclause hst
      have hbody := agree_block_of_mem hspared (ih clause (List.mem_of_getElem? hclause))
      intro t ht
      have hinner : i.Holds (t.bound t.env binds) := ht.keeps (t.keepsNames_bound hbinds)
      simp only [inspect, Run.read_bind, withBindings_apply, i.execClause_eq x hclause,
        MeteredContract.execClause_eq x hclause, hbody _ hinner]
  | call name args => exact .read_bind _ fun vs ↦ agree_call ho hscene site name vs
  | forEach list name =>
    exact .read_bind _ fun v ↦ .read_bind _ fun items ↦ agree_callEach ho hscene site name items
  | located sp st ih => exact (ih hst sp).annotate _
  | bind x e =>
    have hbind : i.execStmt o scene (.bind x e) site = (Stmt.bind x e).execWith o scene site := rfl
    rw [hbind, Stmt.execWith, Stmt.execWith, ho.eval]
    exact .refl _
  | _ => exact .refl _

theorem agree_block {block : List Stmt} (hblock : ∀ x ∈ blockBound block, x ∉ implicitNames) :
    Run.AgreeOn i.Holds (i.execBlock o scene block)
      (MeteredContract.execBlock (MeteredContract.outside s room) scene block) :=
  agree_block_of_mem hblock fun _ _ hst site ↦ agree_stmt ho hscene hst site

end Agreement

theorem eval_outside (s : Setting) (room : Nat) : (i.outside s room).eval = eval s room := by
  cases room <;> rfl

theorem invokes_outside (s : Setting) (room : Nat) : i.Invokes s room (i.outside s room) := by
  have heval : ∀ room, (i.outside s room).eval = (MeteredContract.outside s room).eval := by
    intro room
    rw [i.eval_outside, MeteredContract.eval_outside]
  induction room with
  | zero => exact ⟨heval 0, fun _ _ _ ↦ rfl⟩
  | succ room ih =>
    refine ⟨heval (room + 1), fun {scene own c} hscene hc hown ↦ ?_⟩
    have hbody := agree_block ih hscene hc.body
    simp only [outside, MeteredContract.outside]
    funext t
    have hstart : i.Holds (t.bound scene.initEnv (i.bindings ++ own)) := boundIn_bindAll _ _ hown
    rw [withBindings_apply, withBindings_apply, hbody _ hstart]

/-- Where the names have these values, and no component binds them, execution that hands on these
values is execution. -/
theorem exec_eq (s : Setting) (room : Nat) {scene : Scene}
    (hscene : ∀ c ∈ scene.procedures, c.SparesImplicit) {block : List Stmt}
    (hblock : ∀ x ∈ blockBound block, x ∉ implicitNames) {t : Session} (ht : i.Holds t) :
    i.exec s room scene block t = MeteredContract.exec s room scene block t :=
  agree_block (i.invokes_outside s room) hscene hblock t ht

end Implicit

end MeteredContract
