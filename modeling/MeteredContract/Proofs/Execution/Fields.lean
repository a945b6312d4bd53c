import MeteredContract.Proofs.Execution.Effect
import MeteredContract.Proofs.Scope.Lookup
import MeteredContract.Proofs.Store.Domain

/-!
Statements and declared fields. A statement checks that a field is declared before it writes it, so
a run writes declared fields only (`Point.writesDeclared`). The check is made against the scene and
says nothing about the store; for a field that is stored as well, a statement that reads it or
updates it in place does not come upon an unknown field (`Point.knowsFields_of_accessed`).
-/

set_option autoImplicit false
set_option relaxedAutoImplicit false

namespace MeteredContract

/-- The store of the second state comes from that of the first by writing declared fields. -/
def WritesDeclared {σ : Type} (store : σ → Store) (declared : String → Prop) (t u : σ) : Prop :=
  (store t).Writes declared (store u)

instance {σ : Type} (store : σ → Store) (declared : String → Prop) :
    IsPreorder σ (WritesDeclared store declared) where
  refl t := .refl declared (store t)
  trans _ _ _ := Store.Writes.trans

instance (declared : String → Prop) : Passable (WritesDeclared Session.store declared) where
  enter t _ _ := .refl declared t.store
  leave t _ := .refl declared t.store

def Scene.Declares (scene : Scene) (field : String) : Prop :=
  scene.fields.any (·.1 = field) = true

theorem Scene.Shares.declares {a b : Scene} (h : a.Shares b) : a.Declares = b.Declares := by
  unfold Scene.Declares
  rw [h.fields]

/-! ### Writing -/

theorem Effect.writesDeclared {scene : Scene} {st : Stmt} {t u : Session}
    (h : Effect scene st t u) : WritesDeclared Session.store scene.Declares t u := by
  cases h with
  | put hdeclared hpure => exact .put t.store hdeclared _
  | update hst hdeclared hkeys hval hstore => exact .mapUpdate hdeclared hstore
  | _ => exact .refl _ t.store

theorem Reaches.writesDeclared_of_simple {s : Setting} {p q : Point} (h : Reaches s p q)
    (hq : q.IsSimple) :
    WritesDeclared Session.store p.scene.Declares q.session (q.run s).2 := by
  obtain ⟨st, site, hcode, hst⟩ := hq
  have heffect := (Point.effect (s := s) hcode hst).writesDeclared
  rwa [h.shares.declares] at heffect

theorem Point.writesDeclared (s : Setting) (p : Point) :
    WritesDeclared Session.store p.scene.Declares p.session (p.run s).2 :=
  p.run_of_simple fun _ hq ↦ hq.writesDeclared_of_simple

theorem Reaches.writesDeclared {s : Setting} {p q : Point} (h : Reaches s p q) :
    WritesDeclared Session.store p.scene.Declares p.session q.session :=
  h.session_of_simple fun _ hr ↦ hr.writesDeclared_of_simple

/-! ### Reading and updating in place -/

/-- The fault is not that a field is unknown. -/
def Fault.KnowsFields (f : Fault) : Prop := ∀ name, f.cause ≠ .unknownField name

theorem StoreFault.knowsFields_ofCause {e : StoreFault} (h : ∀ name, e ≠ .unknownField name) :
    (Fault.ofCause e.cause).KnowsFields := by
  cases e with
  | unknownField name => exact absurd rfl (h name)
  | _ => exact nofun

namespace ExecM

variable {α : Type}

/-- From a session in which the field is stored, the computation leaves one in which it is stored,
and it does not come upon an unknown field. -/
abbrev Finds (field : String) (x : ExecM α) (post : α → Prop) : Prop :=
  Run.Maintains (fun t : Session ↦ (t.store.field? field).isSome = true) Fault.KnowsFields x post

variable {field : String}

theorem finds_lookup (x : String) : Finds field (lookup x) fun _ ↦ True := by
  refine .read (fun _ _ _ _ ↦ trivial) fun t c _ hc ↦ ?_
  rw [Arena.eq_of_lookup_eq_error hc]
  exact nofun

theorem finds_lookupAll (xs : List String) : Finds field (lookupAll xs) fun _ ↦ True := by
  refine .read (fun _ _ _ _ ↦ trivial) fun t c _ hc ↦ ?_
  obtain ⟨x, -, rfl⟩ := Arena.exists_of_lookupAll_eq_error hc
  exact nofun

theorem finds_bind (x : String) (v : Value) : Finds field (ExecM.bind x v) fun _ ↦ True :=
  fun _ ht ↦ ⟨ht, trivial⟩

theorem finds_checkField {scene : Scene} (hdeclared : scene.Declares field) :
    Finds field (checkField scene field) fun _ ↦ True := by
  unfold checkField
  split
  · exact .pure trivial
  · next hundeclared => exact absurd hdeclared hundeclared

theorem finds_checkPure (v : Value) : Finds field (checkPure field v) fun _ ↦ True := by
  unfold checkPure
  split
  · exact .pure trivial
  · exact .fail nofun

theorem finds_readStore {f : Store → Except StoreFault α} {post : α → Prop}
    (hf : ∀ s : Store, (s.field? field).isSome = true → Store.Known (f s) ∧
      ∀ r, f s = .ok r → post r) : Finds field (readStore f) post := by
  refine .read (fun t r ht hr ↦ ?_) fun t c ht hc ↦ ?_
  · split at hr
    · next hok =>
      cases hr
      exact (hf t.store ht).2 _ hok
    · cases hr
  · split at hc
    · cases hc
    · next e he =>
      cases hc
      refine StoreFault.knowsFields_ofCause fun name hname ↦ ?_
      exact (hf t.store ht).1 name (he.trans (congrArg _ hname))

theorem finds_load {scene : Scene} (hdeclared : scene.Declares field) :
    Finds field (load scene field) fun _ ↦ True := by
  unfold load
  split
  · exact .read (fun _ _ _ _ ↦ trivial) fun _ _ _ hc ↦ by cases hc
  · refine (finds_checkField hdeclared).bind fun _ _ ↦ finds_readStore fun s hs ↦ ?_
    obtain ⟨v, hv⟩ := Store.exists_load hs
    exact ⟨hv ▸ .ok v, fun _ _ ↦ trivial⟩

theorem finds_writeStore_mapUpdate (keys : List Value) (val : Option Value) :
    Finds field (writeStore (·.mapUpdate field keys val)) fun _ ↦ True := by
  have hread : Finds field (readStore (·.mapUpdate field keys val)) fun s ↦
      (s.field? field).isSome = true := by
    refine finds_readStore fun s hs ↦ ⟨Store.known_mapUpdate hs keys val, fun s' hs' ↦ ?_⟩
    have hwrites : s.Writes (· = field) s' := .mapUpdate rfl hs'
    exact hwrites.kept field hs
  exact hread.bind fun s hs _ _ ↦ ⟨hs, trivial⟩

theorem finds_mapUpdate {scene : Scene} (hdeclared : scene.Declares field) (keys : List String)
    (x : Option String) : Finds field (mapUpdate scene field keys x) fun _ ↦ True := by
  refine (finds_checkField hdeclared).bind fun _ _ ↦ (finds_lookupAll keys).bind fun ks _ ↦ ?_
  cases x with
  | none => exact finds_writeStore_mapUpdate ks none
  | some x =>
    exact (finds_lookup x).bind fun v _ ↦ (finds_checkPure v).bind fun _ _ ↦
      finds_writeStore_mapUpdate ks (some v)

end ExecM

/-- The field that the statement reads or updates in place. -/
def Stmt.accessed? : Stmt → Option String
  | .load _ field => some field
  | .mapGet _ map _ _ => some map
  | .mapUpdate map _ _ => some map
  | _ => none

open ExecM

theorem Stmt.finds_accessed (o : Outside) {scene : Scene} {st : Stmt} {field : String}
    (haccessed : st.accessed? = some field) (hdeclared : scene.Declares field) (site : Span) :
    Finds field (st.execWith o scene site) fun _ ↦ True := by
  cases st with
  | load x f =>
    cases haccessed
    exact (finds_load hdeclared).bind fun v _ ↦ finds_bind x v
  | mapGet x map keys fetch =>
    cases haccessed
    refine (finds_checkField hdeclared).bind fun _ _ ↦ (finds_lookupAll keys).bind fun ks _ ↦ ?_
    have hread : Finds field (readStore (·.mapGet field ks fetch)) fun _ ↦ True :=
      finds_readStore fun s hs ↦ ⟨Store.known_mapGet hs ks fetch, fun _ _ ↦ trivial⟩
    exact hread.bind fun v _ ↦ finds_bind x v
  | mapUpdate map keys x =>
    cases haccessed
    exact finds_mapUpdate hdeclared keys x
  | _ => cases haccessed

/-- A statement that reads a field, or updates it in place, does not come upon an unknown field if
the field is declared and stored. -/
theorem Point.knowsFields_of_accessed {s : Setting} {p : Point} {st : Stmt} {site : Span}
    {field : String} (hcode : p.code = .stmt st site) (haccessed : st.accessed? = some field)
    (hdeclared : p.scene.Declares field)
    (hstored : (p.session.store.field? field).isSome = true) {f : Fault}
    (hf : (p.run s).1 = .error f) : f.KnowsFields := by
  obtain ⟨-, hyields⟩ := Stmt.finds_accessed (outside s p.room) haccessed hdeclared site
    p.session hstored
  have hrun : (st.execWith (outside s p.room) p.scene site p.session).1 = .error f := by
    rw [← hf, Point.run, hcode]
    rfl
  rw [hrun] at hyields
  exact hyields

end MeteredContract
