import MeteredContract.Proofs.Execution.Point

/-!
What a simple statement can do to a session (`Effect`): change the scope, write a field, update a
map in place, take the incoming tokens, emit messages, or emit an event. Facts about runs are read
off this list and `Point.run_of_simple`; no other proof opens the statements. Of the effects only
the update of a map says which statement it comes from, since there the keys matter.
-/

set_option autoImplicit false
set_option relaxedAutoImplicit false

namespace MeteredContract

open ExecM

/-- The value that an in-place update writes: nothing, or the pure value of a variable. -/
inductive Written (t : Session) : Option String → Option Value → Prop
  | nothing : Written t none none
  | var {x : String} {v : Value} (hv : t.machine.arena.lookup t.env x = .ok v)
    (hpure : v.isPure = true) : Written t (some x) (some v)

inductive Effect (scene : Scene) (st : Stmt) (t : Session) : Session → Prop
  | scope (machine : Machine) (env : Env) : Effect scene st t { t with machine, env }
  | put {field : String} {v : Value} (hfield : scene.fields.any (·.1 = field) = true)
    (hpure : v.isPure = true) : Effect scene st t { t with store := t.store.put field v }
  | update {map : String} {names : List String} {keys : List Value} {x : Option String}
    {val : Option Value} {store : Store} (hst : st = .mapUpdate map names x)
    (hfield : scene.fields.any (·.1 = map) = true)
    (hkeys : t.machine.arena.lookupAll t.env names = .ok keys) (hval : Written t x val)
    (hstore : t.store.mapUpdate map keys val = .ok store) : Effect scene st t { t with store }
  | credit {balance : Tokens} (hfresh : t.accepted = false)
    (hbalance : t.balance.add? scene.incoming = some balance) :
    Effect scene st t { t with balance, accepted := true }
  | emit {msgs : List Value}
    (hmsgs : requireAll [Label.tag, Label.recipient, Label.amount] msgs = .ok ()) :
    Effect scene st t { t with emitted := t.emitted ++ msgs }
  | announce {v : Value} (hv : requireEntries [Label.eventName] v = .ok ()) :
    Effect scene st t { t with events := t.events ++ [v] }

theorem Effect.none (scene : Scene) (st : Stmt) (t : Session) : Effect scene st t t :=
  .scope t.machine t.env

/-- The sessions differ at most in machine and environment. -/
def SameBooks (t u : Session) : Prop := u = { t with machine := u.machine, env := u.env }

theorem SameBooks.effect {scene : Scene} {st : Stmt} {t u : Session} (h : SameBooks t u) :
    Effect scene st t u := by
  rw [h]
  exact .scope _ _

instance : IsPreorder Session SameBooks where
  refl _ := rfl
  trans t u v h h' := by
    unfold SameBooks at *
    rw [h', h]

namespace SameBooks

theorem bind (x : String) (v : Value) : Run.Keeps SameBooks (ExecM.bind x v) := fun _ ↦ rfl

theorem onMachine {α : Type} (x : EvalM α) : Run.Keeps SameBooks (ExecM.onMachine x) := fun _ ↦ rfl

theorem address (x : String) : Run.Keeps SameBooks (ExecM.address x) := by
  refine .bind (.read _) fun v ↦ ?_
  cases v with
  | bystrx b =>
    dsimp only
    split
    · exact .pure _
    · exact .fail _
  | _ => exact .fail _

theorem checkField (scene : Scene) (field : String) :
    Run.Keeps SameBooks (ExecM.checkField scene field) := by
  unfold ExecM.checkField
  split
  · exact .pure _
  · exact .fail _

theorem load (scene : Scene) (field : String) : Run.Keeps SameBooks (ExecM.load scene field) := by
  unfold ExecM.load
  split
  · exact .read _
  · exact .bind (checkField scene field) fun _ ↦ .read _

theorem readChain (chain : Chain) (query : ChainQuery) :
    Run.Keeps SameBooks (ExecM.readChain chain query) := by
  cases query with
  | timestamp x =>
    refine .bind (.read _) fun v ↦ ?_
    cases v with
    | bnum n => exact .pure _
    | _ => exact .fail _
  | _ => exact .pure _

theorem throwException (x : Option String) : Run.Keeps SameBooks (ExecM.throwException x) := by
  cases x with
  | none => exact .fail _
  | some x =>
    refine .bind (.read _) fun v ↦ ?_
    cases v with
    | message es => exact .fail _
    | _ => exact .fail _

end SameBooks

section Steps

variable (scene : Scene) (st : Stmt) (t : Session)

/-- Writing a field does nothing, or it puts a pure value into a declared field. -/
theorem effect_store (field x : String) : Effect scene st t (ExecM.store scene field x t).2 := by
  unfold ExecM.store checkField
  split
  · exact .none scene st t
  · split
    · next hfield =>
      rw [Run.bind_of_ok (Run.pure_apply () t), lookup, inspect, Run.read_bind]
      split
      · next v hv =>
        unfold checkPure
        split
        · next hpure => exact .put hfield hpure
        · exact .none scene st t
      · exact .none scene st t
    · exact .none scene st t

theorem writeStore_cases (f : Store → Except StoreFault Store) :
    (∃ e, writeStore f t = (.error e, t)) ∨
      ∃ store, f t.store = .ok store ∧ writeStore f t = (.ok (), { t with store }) := by
  rw [writeStore, readStore, Run.read_bind]
  cases f t.store with
  | error e => exact .inl ⟨_, rfl⟩
  | ok store => exact .inr ⟨store, rfl, rfl⟩

/-- An in-place update fails and does nothing, or it writes along the values of its keys. -/
theorem mapUpdate_cases (map : String) (names : List String) (x : Option String) :
    (∃ e, mapUpdate scene map names x t = (.error e, t)) ∨
      ∃ keys val store, scene.fields.any (·.1 = map) = true ∧
        t.machine.arena.lookupAll t.env names = .ok keys ∧ Written t x val ∧
        t.store.mapUpdate map keys val = .ok store ∧
        mapUpdate scene map names x t = (.ok (), { t with store }) := by
  unfold mapUpdate checkField
  split
  · next hfield =>
    rw [Run.bind_of_ok (Run.pure_apply () t), lookupAll, inspect, Run.read_bind]
    split
    · next keys hkeys =>
      cases x with
      | none =>
        rcases writeStore_cases t (·.mapUpdate map keys none) with hfail | ⟨store, hstore, hrun⟩
        · exact .inl hfail
        · exact .inr ⟨keys, none, store, hfield, hkeys, .nothing, hstore, hrun⟩
      | some x =>
        dsimp only
        rw [lookup, inspect, Run.read_bind]
        split
        · next v hv =>
          unfold checkPure
          split
          · next hpure =>
            rw [Run.bind_of_ok (Run.pure_apply () t)]
            rcases writeStore_cases t (·.mapUpdate map keys (some v)) with
              hfail | ⟨store, hstore, hrun⟩
            · exact .inl hfail
            · exact .inr ⟨keys, some v, store, hfield, hkeys, .var hv hpure, hstore, hrun⟩
          · exact .inl ⟨_, rfl⟩
        · exact .inl ⟨_, rfl⟩
    · exact .inl ⟨_, rfl⟩
  · exact .inl ⟨_, rfl⟩

theorem effect_mapUpdate (map : String) (names : List String) (x : Option String) :
    Effect scene (.mapUpdate map names x) t (mapUpdate scene map names x t).2 := by
  rcases mapUpdate_cases scene t map names x with
    ⟨e, hrun⟩ | ⟨keys, val, store, hfield, hkeys, hval, hstore, hrun⟩
  · rw [hrun]
    exact .none scene _ t
  · rw [hrun]
    exact .update rfl hfield hkeys hval hstore

theorem effect_accept : Effect scene st t (accept scene t).2 := by
  unfold accept
  split
  · exact .none scene st t
  · next haccepted =>
    split
    · next balance hbalance => exact .credit (by simpa using haccepted) hbalance
    · exact .none scene st t

theorem effect_send (x : String) : Effect scene st t (send x t).2 := by
  simp only [send, lookup, inspect, Run.ofExcept, Run.read_bind]
  split
  · split
    · split
      · next hmsgs => exact .emit hmsgs
      · exact .none scene st t
    · exact .none scene st t
  · exact .none scene st t

theorem effect_event (x : String) : Effect scene st t (event x t).2 := by
  simp only [event, lookup, inspect, Run.ofExcept, Run.read_bind]
  split
  · split
    · next hv => exact .announce hv
    · exact .none scene st t
  · exact .none scene st t

end Steps

theorem Stmt.effect (o : Outside) (scene : Scene) (st : Stmt) (site : Span)
    (hst : st.isSimple = true) (t : Session) :
    Effect scene st t (st.execWith o scene site t).2 := by
  have hbooks {st : Stmt} {x : ExecM Unit} (hx : Run.Keeps SameBooks x) :
      Effect scene st t (x t).2 := (hx t).effect
  cases st with
  | load x field => exact hbooks (.bind (SameBooks.load scene field) (SameBooks.bind x))
  | remoteLoad x addr field =>
    exact hbooks (.bind (SameBooks.address addr) fun _ ↦ .bind (.read _) (SameBooks.bind x))
  | store field x => exact effect_store scene _ t field x
  | bind x e =>
    exact hbooks (.bind (.read _) fun _ ↦ .bind (SameBooks.onMachine _) (SameBooks.bind x))
  | mapUpdate map keys x => exact effect_mapUpdate scene t map keys x
  | mapGet x map keys fetch =>
    exact hbooks (.bind (SameBooks.checkField scene map) fun _ ↦ .bind (.read _) fun _ ↦
      .bind (.read _) (SameBooks.bind x))
  | remoteMapGet x addr map keys fetch =>
    exact hbooks (.bind (SameBooks.address addr) fun _ ↦ .bind (.read _) fun _ ↦
      .bind (.read _) (SameBooks.bind x))
  | readChain x query =>
    exact hbooks (.bind (SameBooks.readChain scene.chain query) (SameBooks.bind x))
  | cast x addr ty => exact hbooks (.bind (.read _) (SameBooks.bind x))
  | accept => exact effect_accept scene _ t
  | send x => exact effect_send scene _ t x
  | event x => exact effect_event scene _ t x
  | throw x => exact hbooks (SameBooks.throwException x)
  | gas c => exact hbooks (.bind (.read _) fun _ ↦ SameBooks.onMachine _)
  | matching | call | forEach | located => simp [Stmt.isSimple] at hst

/-- The effect of a point that is a simple statement. -/
theorem Point.effect {s : Setting} {p : Point} {st : Stmt} {site : Span}
    (hcode : p.code = .stmt st site) (hst : st.isSimple = true) :
    Effect p.scene st p.session (p.run s).2 := by
  rw [Point.run, hcode]
  exact st.effect _ p.scene site hst p.session

end MeteredContract
