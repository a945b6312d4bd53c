import MeteredContract.Proofs.Execution.Point

/-!
Simple statements as compositions of steps: reading, letting the machine work, binding a name,
writing the store, taking the incoming tokens, and adding to what was emitted. A property of
computations that these steps have and that goes along with sequencing (`Plain`) is a property of
every simple statement (`Plain.execWith`). Which names may be bound is part of the property.
-/

set_option autoImplicit false
set_option relaxedAutoImplicit false

namespace MeteredContract

/-- The name that the statement itself binds. -/
def Stmt.target? : Stmt → Option String
  | .load x _ => some x
  | .remoteLoad x _ _ => some x
  | .bind x _ => some x
  | .mapGet x _ _ _ => some x
  | .remoteMapGet x _ _ _ _ => some x
  | .readChain x _ => some x
  | .cast x _ _ => some x
  | _ => none

/-- The session in which `emitted` and `events` were emitted before. -/
def Session.logging (emitted events : List Value) (t : Session) : Session :=
  { t with emitted := emitted ++ t.emitted, events := events ++ t.events }

open ExecM

/-- The property holds of the steps of simple statements that bind no other names than those.
Nothing is read off what was emitted. -/
structure Plain (names : String → Prop) (P : ∀ {α : Type}, ExecM α → Prop) : Prop where
  bind : ∀ {α β : Type} {x : ExecM α} {f : α → ExecM β}, P x → (∀ a, P (f a)) → P (x >>= f)
  read : ∀ {α : Type} {f : Session → Except Cause α},
    (∀ emitted events t, f (t.logging emitted events) = f t) → P (Run.read f)
  charge : ∀ env c, P (onMachine (EvalM.charge env c))
  extend : ∀ x v, names x → P (ExecM.bind x v)
  write : ∀ store, P (Run.step fun t : Session ↦ ((), { t with store }))
  accept : ∀ scene, P (ExecM.accept scene)
  emit : ∀ msgs, P (Run.step fun t : Session ↦ ((), { t with emitted := t.emitted ++ msgs }))
  announce : ∀ v, P (Run.step fun t : Session ↦ ((), { t with events := t.events ++ [v] }))

namespace Plain

variable {names : String → Prop} {P : ∀ {α : Type}, ExecM α → Prop} (h : Plain names P) {α : Type}

include h

theorem ofExcept (x : Except Cause α) : P (Run.ofExcept x : ExecM α) := h.read fun _ _ _ ↦ rfl

theorem pure (a : α) : P (Pure.pure a : ExecM α) := h.ofExcept (.ok a)

theorem fail (c : Cause) : P (Run.fail c : ExecM α) := h.ofExcept (.error c)

theorem inspect (f : Arena → Env → Except Cause α) : P (ExecM.inspect f) :=
  h.read fun _ _ _ ↦ rfl

theorem readStore (f : Store → Except StoreFault α) : P (ExecM.readStore f) :=
  h.read fun _ _ _ ↦ rfl

theorem writeStore (f : Store → Except StoreFault Store) : P (ExecM.writeStore f) :=
  h.bind (h.readStore f) h.write

theorem checkField (scene : Scene) (field : String) : P (ExecM.checkField scene field) := by
  unfold ExecM.checkField
  split
  · exact h.pure ()
  · exact h.fail _

theorem checkPure (field : String) (v : Value) : P (ExecM.checkPure field v) := by
  unfold ExecM.checkPure
  split
  · exact h.pure ()
  · exact h.fail _

theorem load (scene : Scene) (field : String) : P (ExecM.load scene field) := by
  unfold ExecM.load
  split
  · exact h.read fun _ _ _ ↦ rfl
  · exact h.bind (h.checkField scene field) fun _ ↦ h.readStore _

theorem store (scene : Scene) (field x : String) : P (ExecM.store scene field x) := by
  unfold ExecM.store
  split
  · exact h.fail _
  · refine h.bind (h.checkField scene field) fun _ ↦ h.bind (h.inspect _) fun v ↦ ?_
    exact h.bind (h.checkPure field v) fun _ ↦ h.writeStore _

theorem mapUpdate (scene : Scene) (map : String) (keys : List String) (x : Option String) :
    P (ExecM.mapUpdate scene map keys x) := by
  refine h.bind (h.checkField scene map) fun _ ↦ h.bind (h.inspect _) fun ks ↦ ?_
  cases x with
  | none => exact h.writeStore _
  | some x =>
    exact h.bind (h.inspect _) fun v ↦ h.bind (h.checkPure map v) fun _ ↦ h.writeStore _

theorem address (x : String) : P (ExecM.address x) := by
  refine h.bind (h.inspect _) fun v ↦ ?_
  split
  · split
    · exact h.pure _
    · exact h.fail _
  · exact h.fail _
  · exact h.fail _

theorem readChain (chain : Chain) (query : ChainQuery) : P (ExecM.readChain chain query) := by
  cases query with
  | blockNumber | chainId => exact h.pure _
  | timestamp x =>
    refine h.bind (h.inspect _) fun v ↦ ?_
    split
    · exact h.pure _
    · exact h.fail _

theorem cast (x : String) (t : Ty) : P (ExecM.cast x t) := h.read fun _ _ _ ↦ rfl

theorem send (x : String) : P (ExecM.send x) :=
  h.bind (h.inspect _) fun _ ↦ h.bind (h.ofExcept _) fun msgs ↦
    h.bind (h.ofExcept _) fun _ ↦ h.emit msgs

theorem event (x : String) : P (ExecM.event x) :=
  h.bind (h.inspect _) fun v ↦ h.bind (h.ofExcept _) fun _ ↦ h.announce v

theorem throwException (x : Option String) : P (ExecM.throwException x) := by
  cases x with
  | none => exact h.fail _
  | some x =>
    refine h.bind (h.inspect _) fun v ↦ ?_
    split
    · exact h.fail _
    · exact h.fail _

/-- A simple statement has the property if the evaluation of its expression has it and its target is
one of the names. -/
theorem execWith {o : Outside} (heval : ∀ e env, P (onMachine (o.eval e env))) (scene : Scene)
    {st : Stmt} (hst : st.isSimple = true) (htarget : ∀ x, st.target? = some x → names x)
    (site : Span) : P (st.execWith o scene site) := by
  cases st with
  | load x field => exact h.bind (h.load scene field) fun v ↦ h.extend x v (htarget x rfl)
  | remoteLoad x addr field =>
    exact h.bind (h.address addr) fun a ↦
      h.bind (h.readStore _) fun v ↦ h.extend x v (htarget x rfl)
  | store field x => exact h.store scene field x
  | bind x e =>
    exact h.bind (h.inspect _) fun env ↦
      h.bind (heval e env) fun v ↦ h.extend x v (htarget x rfl)
  | mapUpdate map keys x => exact h.mapUpdate scene map keys x
  | mapGet x map keys fetch =>
    exact h.bind (h.checkField scene map) fun _ ↦ h.bind (h.inspect _) fun ks ↦
      h.bind (h.readStore _) fun v ↦ h.extend x v (htarget x rfl)
  | remoteMapGet x addr map keys fetch =>
    exact h.bind (h.address addr) fun a ↦ h.bind (h.inspect _) fun ks ↦
      h.bind (h.readStore _) fun v ↦ h.extend x v (htarget x rfl)
  | readChain x query =>
    exact h.bind (h.readChain scene.chain query) fun v ↦ h.extend x v (htarget x rfl)
  | cast x addr t => exact h.bind (h.cast addr t) fun v ↦ h.extend x v (htarget x rfl)
  | accept => exact h.accept scene
  | send x => exact h.send x
  | event x => exact h.event x
  | throw x => exact h.throwException x
  | gas c => exact h.bind (h.inspect _) fun env ↦ h.charge env c
  | matching | call | forEach | located => cases hst

end Plain

end MeteredContract
