import MeteredContract.Proofs.Clauses
import MeteredContract.Proofs.Run
import Mathlib.Logic.Relation

/-!
The points that a run of statements goes through. A point is a piece of code that is about to run,
with the room for calls, the scene and the session it starts from. `Leads` takes a point to those
that its run comes to next: the statements of a block, the chosen clause of a match, the body of a
called procedure; `Reaches` is its closure. Along `Leads` the table of procedures gets shorter or
the code gets smaller, so what holds of every simple statement that a run reaches can be carried
over to the whole run (`Point.run_of_simple`, `Reaches.session_of_simple`).
-/

set_option autoImplicit false
set_option relaxedAutoImplicit false

namespace MeteredContract

mutual

/-- Number of statements, those in clauses included. -/
def Stmt.size : Stmt → Nat
  | .matching _ clauses => clausesSize clauses + 1
  | .located _ st => st.size + 1
  | _ => 1

def blockSize : List Stmt → Nat
  | [] => 0
  | st :: rest => st.size + blockSize rest + 1

def clausesSize : List (Pattern × List Stmt) → Nat
  | [] => 0
  | (_, body) :: clauses => blockSize body + clausesSize clauses + 1

end

/-- The statement runs no other code of the component. -/
def Stmt.isSimple : Stmt → Bool
  | .matching .. => false
  | .call .. => false
  | .forEach .. => false
  | .located .. => false
  | _ => true

theorem Stmt.size_pos (st : Stmt) : 0 < st.size := by
  cases st <;> simp [Stmt.size]

theorem blockSize_lt_clausesSize {clauses : List (Pattern × List Stmt)} {i : Nat}
    {clause : Pattern × List Stmt} (h : clauses[i]? = some clause) :
    blockSize clause.2 < clausesSize clauses := by
  induction clauses generalizing i with
  | nil => simp at h
  | cons first rest ih =>
    cases i with
    | zero =>
      simp only [List.getElem?_cons_zero, Option.some.injEq] at h
      subst h
      simp only [clausesSize]
      omega
    | succ i =>
      have hrest := ih (by simpa using h)
      simp only [clausesSize]
      omega

/-- A piece of a component's code that runs as a unit. -/
inductive Code where
  | stmt (st : Stmt) (site : Span)
  | block (body : List Stmt)
  /-- The call of a procedure with values. -/
  | call (site : Span) (name : String) (args : List Value)
  /-- A call for each of the values. -/
  | each (site : Span) (name : String) (items : List Value)

namespace Code

def run (o : Outside) (scene : Scene) : Code → ExecM Unit
  | .stmt st site => st.execWith o scene site
  | .block body => execBlock o scene body
  | .call site name args => o.call scene site name args
  | .each site name items => o.callEach scene site name items

/-- Size of the code and, for calls of which it is not known before how many there will be, their
number. -/
def rank : Code → Nat × Nat
  | .stmt st _ => (st.size, 0)
  | .block body => (blockSize body, 0)
  | .call .. => (0, 0)
  | .each _ _ items => (0, items.length + 1)

end Code

structure Point where
  room : Nat
  scene : Scene
  code : Code
  session : Session

/-- The session with more bindings over an environment. -/
def Session.bound (t : Session) (env : Env) (bs : List (String × Value)) : Session :=
  let scope := t.machine.arena.bindAll env bs
  { t with machine.arena := scope.1, env := scope.2 }

/-- What a procedure is called with: the sender, origin and amount of the caller and its own
arguments. -/
structure Handover where
  callee : Callee
  own : List (String × Value)
  sender : Value
  origin : Value
  amount : Value

namespace Handover

def bindings (h : Handover) : List (String × Value) :=
  [(Label.sender, h.sender), (Label.origin, h.origin), (Label.amount, h.amount)] ++ h.own

/-- The scene in which the procedure runs. -/
def scene (h : Handover) (caller : Scene) (site : Span) (name : String) : Scene :=
  { caller with
    procedures := h.callee.visible
    trail := caller.trail.push name (some site) }

/-- The call of `name` from a session finds a procedure and hands over these values. -/
structure Of (h : Handover) (scene : Scene) (name : String) (args : List Value) (t : Session) :
    Prop where
  callee : findCallee? name scene.procedures = some h.callee
  own : positionalBindings h.callee.procedure.params args = .ok h.own
  sender : t.machine.arena.lookup t.env Label.sender = .ok h.sender
  origin : t.machine.arena.lookup t.env Label.origin = .ok h.origin
  amount : t.machine.arena.lookup t.env Label.amount = .ok h.amount

end Handover

/-- The run of the first point comes to the second as a part of it. -/
inductive Leads (s : Setting) : Point → Point → Prop
  | located (room : Nat) (scene : Scene) (sp : Span) (st : Stmt) (site : Span) (t : Session) :
    Leads s ⟨room, scene, .stmt (.located sp st) site, t⟩ ⟨room, scene, .stmt st sp, t⟩
  | clause {room : Nat} {scene : Scene} {x : String} {clauses : List (Pattern × List Stmt)}
    {site : Span} {t : Session} {v : Value} {i : Nat} {binds : List (String × Value)}
    {clause : Pattern × List Stmt} (hv : t.machine.arena.lookup t.env x = .ok v)
    (hmatch : Pattern.firstMatch (clauses.map Prod.fst) v = some (i, binds))
    (hclause : clauses[i]? = some clause) :
    Leads s ⟨room, scene, .stmt (.matching x clauses) site, t⟩
      ⟨room, scene, .block clause.2, t.bound t.env binds⟩
  | call {room : Nat} {scene : Scene} {name : String} {args : List String} {site : Span}
    {t : Session} {vs : List Value} (hargs : t.machine.arena.lookupAll t.env args = .ok vs) :
    Leads s ⟨room, scene, .stmt (.call name args) site, t⟩ ⟨room, scene, .call site name vs, t⟩
  | forEach {room : Nat} {scene : Scene} {list name : String} {site : Span} {t : Session}
    {v : Value} {items : List Value} (hv : t.machine.arena.lookup t.env list = .ok v)
    (hitems : ExecM.elements "forall" v = .ok items) :
    Leads s ⟨room, scene, .stmt (.forEach list name) site, t⟩
      ⟨room, scene, .each site name items, t⟩
  | head (room : Nat) (scene : Scene) (st : Stmt) (rest : List Stmt) (t : Session) :
    Leads s ⟨room, scene, .block (st :: rest), t⟩ ⟨room, scene, .stmt st .dummy, t⟩
  | tail {room : Nat} {scene : Scene} {st : Stmt} {rest : List Stmt} {t u : Session}
    (hst : st.execWith (outside s room) scene .dummy t = (.ok (), u)) :
    Leads s ⟨room, scene, .block (st :: rest), t⟩ ⟨room, scene, .block rest, u⟩
  | invoke {room : Nat} {scene : Scene} {site : Span} {name : String} {args : List Value}
    {t : Session} {h : Handover} (hcall : h.Of scene name args t) :
    Leads s ⟨room + 1, scene, .call site name args, t⟩
      ⟨room, h.scene scene site name, .block h.callee.procedure.body,
        t.bound scene.initEnv h.bindings⟩
  | first (room : Nat) (scene : Scene) (site : Span) (name : String) (item : Value)
    (items : List Value) (t : Session) :
    Leads s ⟨room, scene, .each site name (item :: items), t⟩
      ⟨room, scene, .call site name [item], t⟩
  | next {room : Nat} {scene : Scene} {site : Span} {name : String} {item : Value}
    {items : List Value} {t u : Session}
    (hcall : (outside s room).call scene site name [item] t = (.ok (), u)) :
    Leads s ⟨room, scene, .each site name (item :: items), t⟩
      ⟨room, scene, .each site name items, u⟩

def Reaches (s : Setting) : Point → Point → Prop := Relation.ReflTransGen (Leads s)

theorem length_visible_lt {name : String} {procedures : List Component} {c : Callee}
    (h : findCallee? name procedures = some c) : c.visible.length < procedures.length := by
  induction procedures generalizing c with
  | nil => simp [findCallee?] at h
  | cons p ps ih =>
    unfold findCallee? at h
    split at h
    · cases h
      simp
    · obtain ⟨c', hc', rfl⟩ := Option.map_eq_some_iff.mp h
      have := ih hc'
      simp only [List.length_cons]
      omega

namespace Point

/-- Length of the table of procedures, then rank of the code. -/
def measure (p : Point) : Nat × Nat × Nat := (p.scene.procedures.length, p.code.rank)

/-- A point is smaller than one with a longer table, or with the same table and larger code. -/
def Smaller (p q : Point) : Prop :=
  Prod.Lex (· < ·) (Prod.Lex (· < ·) (· < ·)) p.measure q.measure

theorem wellFounded_smaller : WellFounded Smaller :=
  InvImage.wf measure (Prod.lex Nat.lt_wfRel (Prod.lex Nat.lt_wfRel Nat.lt_wfRel)).wf

end Point

theorem Leads.smaller {s : Setting} {p q : Point} (h : Leads s p q) : q.Smaller p := by
  cases h with
  | located => exact .right _ (.left _ _ (by simp [Stmt.size]))
  | clause hv hmatch hclause =>
    have hlt := blockSize_lt_clausesSize hclause
    refine .right _ (.left _ _ ?_)
    rw [Stmt.size]
    omega
  | call hargs => exact .right _ (.left _ _ (Stmt.size_pos _))
  | forEach hv hitems => exact .right _ (.left _ _ (Stmt.size_pos _))
  | head room scene st rest t =>
    refine .right _ (.left _ _ ?_)
    rw [blockSize]
    omega
  | tail hst =>
    refine .right _ (.left _ _ ?_)
    rw [blockSize]
    omega
  | invoke hcall => exact .left _ _ (length_visible_lt hcall.callee)
  | first => exact .right _ (.right _ (Nat.succ_pos _))
  | next hcall => exact .right _ (.right _ (by simp))

namespace Point

/-- How the point runs: the result and the session that it leaves. -/
def run (s : Setting) (p : Point) : Except Fault Unit × Session :=
  p.code.run (outside s p.room) p.scene p.session

def IsSimple (p : Point) : Prop := ∃ st site, p.code = .stmt st site ∧ st.isSimple

/-- How a point that is not simple gets to its last session: it does nothing, it hands on to another
point, it runs two points in a row, or it runs a point in a scope of its own. -/
inductive Unfolds (s : Setting) (p : Point) : Prop
  | stays (hrun : (p.run s).2 = p.session)
  | passes (q : Point) (hq : Leads s p q) (hsession : q.session = p.session)
    (hrun : (p.run s).2 = (q.run s).2)
  | chains (q r : Point) (hq : Leads s p q) (hr : Leads s p r) (hsession : q.session = p.session)
    (hnext : r.session = (q.run s).2) (hrun : (p.run s).2 = (r.run s).2)
  | nests (q : Point) (hq : Leads s p q) (env : Env) (bs : List (String × Value))
    (hsession : q.session = p.session.bound env bs)
    (hrun : (p.run s).2 = { (q.run s).2 with env := p.session.env })

end Point

theorem eval_outside (s : Setting) (room : Nat) : (outside s room).eval = eval s room := by
  cases room <;> rfl

theorem withBindings_apply (env : Env) (bs : List (String × Value)) (x : ExecM Unit) (t : Session) :
    ExecM.withBindings env bs x t =
      ((x (t.bound env bs)).1, { (x (t.bound env bs)).2 with env := t.env }) := rfl

/-- A call fails before anything happens, or it finds its procedure and runs the body. -/
theorem call_cases (o : Outside) (scene : Scene) (site : Span) (name : String) (args : List Value)
    (t : Session) :
    (∃ e, o.call scene site name args t = (.error e, t)) ∨
      ∃ h : Handover, h.Of scene name args t ∧ o.call scene site name args t =
        o.invoke (h.scene scene site name) h.bindings h.callee.procedure.body t := by
  unfold Outside.call
  cases hcallee : findCallee? name scene.procedures with
  | none => exact .inl ⟨_, rfl⟩
  | some callee =>
    simp only [ExecM.lookup, ExecM.inspect, Run.ofExcept, Run.read_bind]
    cases hown : positionalBindings callee.procedure.params args with
    | error c => exact .inl ⟨_, rfl⟩
    | ok own =>
      cases hsender : t.machine.arena.lookup t.env Label.sender with
      | error c => exact .inl ⟨_, rfl⟩
      | ok sender =>
        cases horigin : t.machine.arena.lookup t.env Label.origin with
        | error c => exact .inl ⟨_, rfl⟩
        | ok origin =>
          cases hamount : t.machine.arena.lookup t.env Label.amount with
          | error c => exact .inl ⟨_, rfl⟩
          | ok amount =>
            exact .inr ⟨⟨callee, own, sender, origin, amount⟩,
              ⟨hcallee, hown, hsender, horigin, hamount⟩, rfl⟩

namespace Point

variable (s : Setting) (room : Nat) (scene : Scene)

theorem unfolds_matching (x : String) (clauses : List (Pattern × List Stmt)) (site : Span)
    (t : Session) : Unfolds s ⟨room, scene, .stmt (.matching x clauses) site, t⟩ := by
  cases hv : t.machine.arena.lookup t.env x with
  | error c =>
    refine .stays ?_
    simp only [run, Code.run, Stmt.execWith, ExecM.lookup, ExecM.inspect, Run.read_bind, hv]
  | ok v =>
    cases hmatch : Pattern.firstMatch (clauses.map Prod.fst) v with
    | none =>
      refine .stays ?_
      simp only [run, Code.run, Stmt.execWith, ExecM.lookup, ExecM.inspect, Run.read_bind, hv,
        hmatch, Run.fail_apply]
    | some found =>
      obtain ⟨i, binds⟩ := found
      obtain ⟨clause, hclause⟩ := exists_clause hmatch
      refine .nests _ (.clause hv hmatch hclause) t.env binds rfl ?_
      simp only [run, Code.run, Stmt.execWith, ExecM.lookup, ExecM.inspect, Run.read_bind, hv,
        hmatch, execClause_eq x hclause, withBindings_apply]

theorem unfolds_call (site : Span) (name : String) (args : List Value) (t : Session) :
    Unfolds s ⟨room, scene, .call site name args, t⟩ := by
  rcases call_cases (outside s room) scene site name args t with ⟨e, hcall⟩ | ⟨h, hof, hcall⟩
  · refine .stays ?_
    simp only [run, Code.run, hcall]
  · cases room with
    | zero =>
      refine .stays ?_
      simp only [run, Code.run, hcall]
      rfl
    | succ room =>
      refine .nests _ (.invoke hof) scene.initEnv h.bindings rfl ?_
      simp only [run, Code.run, hcall]
      rfl

theorem unfolds_block (body : List Stmt) (t : Session) :
    Unfolds s ⟨room, scene, .block body, t⟩ := by
  cases body with
  | nil => exact .stays rfl
  | cons st rest =>
    have hq : Leads s ⟨room, scene, .block (st :: rest), t⟩ _ := .head room scene st rest t
    cases hst : st.execWith (outside s room) scene .dummy t with
    | mk result u =>
      cases result with
      | error e =>
        refine .passes _ hq rfl ?_
        simp only [run, Code.run, execBlock, Run.bind_apply, Run.annotate, hst]
      | ok _ =>
        refine .chains _ _ hq (.tail hst) rfl ?_ ?_
        · simp only [run, Code.run, hst]
        · simp only [run, Code.run, execBlock, Run.bind_apply, Run.annotate, hst]

theorem unfolds_each (site : Span) (name : String) (items : List Value) (t : Session) :
    Unfolds s ⟨room, scene, .each site name items, t⟩ := by
  cases items with
  | nil => exact .stays rfl
  | cons item items =>
    have hq : Leads s ⟨room, scene, .each site name (item :: items), t⟩ _ :=
      .first room scene site name item items t
    cases hcall : (outside s room).call scene site name [item] t with
    | mk result u =>
      cases result with
      | error e =>
        refine .passes _ hq rfl ?_
        simp only [run, Code.run, Outside.callEach, Run.bind_apply, hcall]
      | ok _ =>
        refine .chains _ _ hq (.next hcall) rfl ?_ ?_
        · simp only [run, Code.run, hcall]
        · simp only [run, Code.run, Outside.callEach, Run.bind_apply, hcall]

/-- A point that is not simple gets to its last session in one of these ways. -/
theorem unfolds (p : Point) (hp : ¬ p.IsSimple) : p.Unfolds s := by
  obtain ⟨room, scene, code, t⟩ := p
  cases code with
  | block body => exact unfolds_block s room scene body t
  | call site name args => exact unfolds_call s room scene site name args t
  | each site name items => exact unfolds_each s room scene site name items t
  | stmt st site =>
    cases st with
    | matching x clauses => exact unfolds_matching s room scene x clauses site t
    | located sp st =>
      refine .passes _ (.located room scene sp st site t) rfl ?_
      simp only [run, Code.run, Stmt.execWith, Run.annotate_snd]
    | call name args =>
      cases hargs : t.machine.arena.lookupAll t.env args with
      | error c =>
        refine .stays ?_
        simp only [run, Code.run, Stmt.execWith, ExecM.lookupAll, ExecM.inspect, Run.read_bind,
          hargs]
      | ok vs =>
        refine .passes _ (.call hargs) rfl ?_
        simp only [run, Code.run, Stmt.execWith, ExecM.lookupAll, ExecM.inspect, Run.read_bind,
          hargs]
    | forEach list name =>
      cases hv : t.machine.arena.lookup t.env list with
      | error c =>
        refine .stays ?_
        simp only [run, Code.run, Stmt.execWith, ExecM.lookup, ExecM.inspect, Run.read_bind, hv]
      | ok v =>
        cases hitems : ExecM.elements "forall" v with
        | error c =>
          refine .stays ?_
          simp only [run, Code.run, Stmt.execWith, ExecM.lookup, ExecM.inspect, Run.ofExcept,
            Run.read_bind, hv, hitems]
        | ok items =>
          refine .passes _ (.forEach hv hitems) rfl ?_
          simp only [run, Code.run, Stmt.execWith, ExecM.lookup, ExecM.inspect, Run.ofExcept,
            Run.read_bind, hv, hitems]
    | _ => exact absurd ⟨_, _, rfl, rfl⟩ hp

end Point

/-- A relation between sessions that runs can be followed with: it composes, and it holds when a run
enters a scope with more bindings and when it comes back to an environment. -/
class Passable (R : Session → Session → Prop) : Prop extends IsPreorder Session R where
  enter : ∀ (t : Session) (env : Env) (bs : List (String × Value)), R t (t.bound env bs)
  leave : ∀ (t : Session) (env : Env), R t { t with env }

section Simple

variable {s : Setting} {R : Session → Session → Prop} [Passable R]

/-- What every simple statement that is reached keeps, the whole run keeps. -/
theorem Point.run_of_simple (p : Point)
    (hsimple : ∀ q, Reaches s p q → q.IsSimple → R q.session (q.run s).2) :
    R p.session (p.run s).2 := by
  induction p using Point.wellFounded_smaller.induction with
  | _ p ih =>
    -- Points that `p` leads to are smaller, and reach only what `p` reaches.
    have hlead : ∀ {q}, Leads s p q → R q.session (q.run s).2 := fun {q} hq ↦
      ih q hq.smaller fun r hr ↦ hsimple r (.head hq hr)
    by_cases hp : p.IsSimple
    · exact hsimple p .refl hp
    · cases Point.unfolds s p hp with
      | stays hrun =>
        rw [hrun]
        exact Std.Refl.refl _
      | passes q hq hsession hrun =>
        rw [hrun, ← hsession]
        exact hlead hq
      | chains q r hq hr hsession hnext hrun =>
        have hfirst := hlead hq
        have hsecond := hlead hr
        rw [hsession] at hfirst
        rw [hnext] at hsecond
        rw [hrun]
        exact IsTrans.trans _ _ _ hfirst hsecond
      | nests q hq env bs hsession hrun =>
        have hinner := hlead hq
        rw [hsession] at hinner
        rw [hrun]
        have houter : R p.session (q.run s).2 := IsTrans.trans _ _ _ (Passable.enter _ _ _) hinner
        exact IsTrans.trans _ _ _ houter (Passable.leave _ _)

theorem Leads.session_of_simple {p q : Point} (h : Leads s p q)
    (hsimple : ∀ r, Reaches s p r → r.IsSimple → R r.session (r.run s).2) :
    R p.session q.session := by
  have hrun : ∀ {r}, Leads s p r → R r.session (r.run s).2 := fun hr ↦
    Point.run_of_simple _ fun r' hr' ↦ hsimple r' (.head hr hr')
  cases h with
  | clause => exact Passable.enter _ _ _
  | invoke => exact Passable.enter _ _ _
  | tail hst =>
    have hhead := hrun (.head _ _ _ _ _)
    simp only [Point.run, Code.run, hst] at hhead
    exact hhead
  | next hcall =>
    have hfirst := hrun (.first _ _ _ _ _ _ _)
    simp only [Point.run, Code.run, hcall] at hfirst
    exact hfirst
  | _ => exact Std.Refl.refl _

/-- What every simple statement that is reached keeps holds up to every point that is reached. -/
theorem Reaches.session_of_simple {p q : Point} (h : Reaches s p q)
    (hsimple : ∀ r, Reaches s p r → r.IsSimple → R r.session (r.run s).2) :
    R p.session q.session := by
  induction h using Relation.ReflTransGen.head_induction_on with
  | refl => exact Std.Refl.refl _
  | head hpr hrq ih =>
    have hfirst := hpr.session_of_simple hsimple
    have hrest := ih fun r hr ↦ hsimple r (.head hpr hr)
    exact IsTrans.trans _ _ _ hfirst hrest

end Simple

/-- The scenes differ at most in their procedures and trails. -/
structure Scene.Shares (a b : Scene) : Prop where
  initEnv : a.initEnv = b.initEnv
  fields : a.fields = b.fields
  incoming : a.incoming = b.incoming
  chain : a.chain = b.chain

theorem Reaches.shares {s : Setting} {p q : Point} (h : Reaches s p q) :
    q.scene.Shares p.scene := by
  induction h with
  | refl => exact ⟨rfl, rfl, rfl, rfl⟩
  | tail _ hlead ih =>
    cases hlead with
    | invoke hcall => exact ⟨ih.initEnv, ih.fields, ih.incoming, ih.chain⟩
    | _ => exact ih

end MeteredContract
