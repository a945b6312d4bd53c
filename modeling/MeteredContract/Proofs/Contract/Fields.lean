import MeteredContract.Proofs.Contract.Deployment
import MeteredContract.Proofs.Contract.History
import MeteredContract.Proofs.Execution.Fields

/-!
Which fields a deployed contract has. Deployment stores every field that the module declares and no
other; from then on runs only write declared fields, and a call that fails keeps what it wrote. So
the fields are the same in all histories, at each point of each call: those that the store had
before and the declared ones, of which the former are as they were unless they are declared, too
(`field_domain`). The fields of other contracts are never written.
-/

set_option autoImplicit false
set_option relaxedAutoImplicit false

namespace MeteredContract

def Module.Declares (m : Module) (field : String) : Prop := ∃ f ∈ m.fields, f.name = field

/-- The fields of the contract are those of the module. -/
def ContractState.FieldsOf (m : Module) (state : ContractState) : Prop :=
  state.fields = m.fields.map fun f ↦ (f.name, f.ty)

theorem ContractState.FieldsOf.declares {m : Module} {state : ContractState}
    (h : state.FieldsOf m) {scene : Scene} (hscene : scene.fields = state.fields) :
    scene.Declares = m.Declares := by
  funext field
  simp [Scene.Declares, Module.Declares, hscene, show state.fields = _ from h]

/-! ### Deployment -/

namespace DeployM

variable {s : Setting} {env : Env} {t u : Deployment}

theorem stored_of_initField {f : FieldDef} (h : initField s env f t = (.ok (), u)) :
    (u.store.field? f.name).isSome = true := by
  obtain ⟨v, mid, -, h⟩ := Run.bind_eq_ok h
  split at h
  · cases h
    rw [Store.field?_put, if_pos rfl]
    rfl
  · cases h

/-- What the first of the fields was initialized with, the later ones may replace but not drop. -/
theorem stored_of_initFields {fields : List FieldDef}
    (h : initFields s env fields t = (.ok (), u)) :
    ∀ f ∈ fields, (u.store.field? f.name).isSome = true := by
  induction fields generalizing t with
  | nil => exact nofun
  | cons f fs ih =>
    obtain ⟨⟨⟩, mid, hfirst, hrest⟩ := Run.bind_eq_ok h
    refine List.forall_mem_cons.mpr ⟨?_, ih hrest⟩
    have hkeeps : Run.Keeps (WritesDeclared Deployment.store fun _ ↦ True) (initFields s env fs) :=
      keeps_initFields (fun d _ ↦ .refl _ d.store) s env fun _ _ d v _ ↦ .put d.store trivial v
    exact (hkeeps.of_eq hrest).kept f.name (stored_of_initField hfirst)

end DeployM

theorem hasDomain_deploy {depthLimit : Nat} {m : Module} {args : List (String × Value)}
    {balance : Tokens} {store : Store} {gas : Nat} {d : Deployed}
    (h : (deploy depthLimit m args balance store gas).result = .ok d) :
    store.HasDomain m.Declares (deploy depthLimit m args balance store gas).store := by
  have hkeeps : Run.Keeps (WritesDeclared Deployment.store m.Declares)
      (DeployM.deploy depthLimit m args balance) :=
    DeployM.keeps_deploy (fun d _ ↦ .refl _ d.store)
      (fun f hf d v _ ↦ .put d.store ⟨f, hf, rfl⟩ v) _ _ _
  refine .of_writes (hkeeps ⟨⟨.empty, gas⟩, store⟩) ?_
  obtain ⟨s, env, t, u, hfields, hstore, -, -⟩ := exists_initFields_of_deploy h
  rintro _ ⟨f, hf, rfl⟩
  rw [hstore]
  exact DeployM.stored_of_initFields hfields f hf

theorem fieldsOf_deploy {depthLimit : Nat} {m : Module} {args : List (String × Value)}
    {balance : Tokens} {store : Store} {gas : Nat} {d : Deployed}
    (h : (deploy depthLimit m args balance store gas).result = .ok d) : d.state.FieldsOf m := by
  obtain ⟨_, _, _, _, -, -, hfields, -⟩ := exists_initFields_of_deploy h
  exact hfields

/-! ### Calls and histories -/

namespace Handling

/-- In the call the fields are those of `s` and the declared ones, wherever the transition has got
to and however it goes on from there; statements find the declared ones. -/
structure KeepsDomain (depthLimit : Nat) (m : Module) (s : Store) (c : Handling) : Prop where
  before : s.HasDomain m.Declares c.storeBefore
  during : ∀ p q, c.Starts depthLimit m p → Reaches (c.setting depthLimit) p q →
    s.HasDomain m.Declares q.session.store ∧
      s.HasDomain m.Declares (q.run (c.setting depthLimit)).2.store
  after : s.HasDomain m.Declares c.outcome.store
  /-- Reading a declared field, or updating it in place, may fail but not because it is unknown. -/
  found : ∀ p q st site field f, c.Starts depthLimit m p → Reaches (c.setting depthLimit) p q →
    q.code = .stmt st site → st.accessed? = some field → m.Declares field →
    (q.run (c.setting depthLimit)).1 = .error f → f.KnowsFields

variable {m : Module} {state : ContractState} {s store : Store}

theorem Starts.declares {depthLimit : Nat} {d : Delivery} {p : Point}
    (hp : (deliver depthLimit m state store d).Starts depthLimit m p) (hstate : state.FieldsOf m) :
    p.scene.Declares = m.Declares := by
  obtain ⟨sel, -, rfl⟩ := hp
  exact hstate.declares rfl

theorem keepsDomain_deliver (depthLimit : Nat) (hstate : state.FieldsOf m)
    (hstore : s.HasDomain m.Declares store) (d : Delivery) :
    (deliver depthLimit m state store d).KeepsDomain depthLimit m s := by
  have hreached : ∀ p q, (deliver depthLimit m state store d).Starts depthLimit m p →
      Reaches ((deliver depthLimit m state store d).setting depthLimit) p q →
      q.scene.Declares = m.Declares ∧ s.HasDomain m.Declares q.session.store := by
    intro p q hp hq
    have hdeclares := hp.declares hstate
    have hstart : p.session.store = store := by
      obtain ⟨sel, -, rfl⟩ := hp
      rfl
    have hwrites : store.Writes m.Declares q.session.store := by
      rw [← hdeclares, ← hstart]
      exact hq.writesDeclared
    exact ⟨hq.shares.declares.trans hdeclares, hstore.writes hwrites⟩
  have hduring : ∀ p q, (deliver depthLimit m state store d).Starts depthLimit m p →
      Reaches ((deliver depthLimit m state store d).setting depthLimit) p q →
      s.HasDomain m.Declares q.session.store ∧ s.HasDomain m.Declares
        (q.run ((deliver depthLimit m state store d).setting depthLimit)).2.store := by
    intro p q hp hq
    obtain ⟨hdeclares, hdomain⟩ := hreached p q hp hq
    have hwrites := q.writesDeclared ((deliver depthLimit m state store d).setting depthLimit)
    rw [hdeclares] at hwrites
    exact ⟨hdomain, hdomain.writes hwrites⟩
  refine ⟨hstore, hduring, ?_, ?_⟩
  · rcases deliver_cases depthLimit m state store d with ⟨c, -, houtcome⟩ | ⟨p, hp, hended⟩
    · rw [houtcome]
      exact hstore
    · rw [hended.store]
      exact (hduring p p hp .refl).2
  · intro p q st site field f hp hq hcode haccessed hdeclared hf
    obtain ⟨hdeclares, hdomain⟩ := hreached p q hp hq
    rw [← hdeclares] at hdeclared hdomain
    exact q.knowsFields_of_accessed hcode haccessed hdeclared (hdomain.stored field hdeclared) hf

end Handling

open Handling

theorem keepsDomain_history (depthLimit : Nat) {m : Module} {state : ContractState}
    {s store : Store} (hstate : state.FieldsOf m) (hstore : s.HasDomain m.Declares store)
    (ds : List Delivery) :
    ∀ c ∈ history depthLimit m state store ds, c.KeepsDomain depthLimit m s := by
  induction ds generalizing state store with
  | nil => simp [history]
  | cons d ds ih =>
    have hfirst := keepsDomain_deliver depthLimit hstate hstore d
    have hafter : (deliver depthLimit m state store d).after.FieldsOf m := by
      obtain ⟨balance, heq⟩ := exists_balance_after depthLimit m state store d
      rw [heq]
      exact hstate
    simp only [history, List.forall_mem_cons]
    exact ⟨hfirst, ih hafter hfirst.after⟩

/-- After deployment, and before, during and after every call of every history of the deployed
contract, all declared fields have a value, the fields are those that the store had before
deployment and the declared ones, and of these only declared ones have changed. -/
theorem field_domain (deployLimit : Nat) (m : Module) (args : List (String × Value))
    (balance : Tokens) (store : Store) (gas : Nat) (d : Deployed)
    (hdeploy : (deploy deployLimit m args balance store gas).result = .ok d) (depthLimit : Nat)
    (ds : List Delivery) :
    let deployed := (deploy deployLimit m args balance store gas).store
    store.HasDomain m.Declares deployed ∧
      ∀ c ∈ history depthLimit m d.state deployed ds, c.KeepsDomain depthLimit m store := by
  intro deployed
  have hdomain : store.HasDomain m.Declares deployed := hasDomain_deploy hdeploy
  exact ⟨hdomain, keepsDomain_history depthLimit (fieldsOf_deploy hdeploy) hdomain ds⟩

namespace Guestbook

/-- A contract that lists the rooms that are taken. Who enters is thrown out again, but only after
the entry was made, in a procedure. -/
def code : Module where
  name := "Guestbook"
  imports := []
  library := none
  params := []
  constraint := none
  fields :=
    [ ⟨"guests", .map .uint32 .uint32, .literal (.emptyMap .uint32 .uint32)⟩,
      ⟨"last", .uint32, .literal (.int .uint32 0)⟩ ]
  components :=
    [ ⟨.procedure, "note", [⟨"room", .uint32⟩],
        [ .mapUpdate "guests" ["room"] (some "room"),
          .store "last" "room" ]⟩,
      ⟨.transition, "enter", [],
        [ .bind "room" (.literal (.int .uint32 7)),
          .call "note" ["room"],
          .throw none ]⟩,
      ⟨.transition, "leave", [],
        [ .load "room" "last",
          .mapUpdate "guests" ["room"] none ]⟩ ]

def address (b : UInt8) : Value := .bystrx (List.replicate addressWidth b)

def args : List (String × Value) :=
  [ (Label.thisAddress, address 9),
    (Label.creationBlock, .bnum 1),
    (Label.languageVersion, .int (.ofUInt32 0)) ]

/-- A store with a field that the contract does not declare and one that it does, next to another
contract with a field of the latter name. -/
def store : Store :=
  ((Store.empty.put "owner" (address 3)).put "last" (.str "nobody")).addContract
    (List.replicate addressWidth 4) [("last", .uint32, .int (.ofUInt32 5))]

def deployed : Deployed where
  state :=
    { env := ⟨some 2⟩
      frames := #[⟨Label.thisAddress, .value (address 9), ⟨none⟩⟩,
        ⟨Label.creationBlock, .value (.bnum 1), ⟨some 0⟩⟩,
        ⟨Label.languageVersion, .value (.int (.ofUInt32 0)), ⟨some 1⟩⟩]
      fields := [("guests", .map .uint32 .uint32), ("last", .uint32)]
      balance := .zero
      datatypes := .standard }
  pending := []

def visit (tag : String) : Delivery where
  message :=
    [ (Label.tag, .str tag),
      (Label.amount, .int (.ofTokens .zero)),
      (Label.sender, address 2) ]
  chain := .empty
  gas := 100

/-- The calls of the history in which a guest enters and leaves. -/
def calls : List Handling :=
  history 4 code deployed.state (deploy 4 code args .zero store 100).store
    [visit "enter", visit "leave"]

end Guestbook

/-- The first call fails after it has written two fields, the second succeeds and deletes an
entry. -/
theorem field_domain_guestbook :
    (deploy 4 Guestbook.code Guestbook.args .zero Guestbook.store 100).result =
        .ok Guestbook.deployed ∧
      (Guestbook.calls.map fun c ↦
        (c.outcome.result.isOk, c.outcome.store.fields.map Prod.fst)) =
          [(false, ["owner", "last", "guests"]), (true, ["owner", "last", "guests"])] ∧
      Guestbook.store.HasDomain Guestbook.code.Declares
        (deploy 4 Guestbook.code Guestbook.args .zero Guestbook.store 100).store ∧
      ∀ c ∈ Guestbook.calls, c.KeepsDomain 4 Guestbook.code Guestbook.store := by
  have hdeploy : (deploy 4 Guestbook.code Guestbook.args .zero Guestbook.store 100).result =
      .ok Guestbook.deployed := rfl
  exact ⟨hdeploy, by decide +kernel, field_domain 4 Guestbook.code Guestbook.args .zero
    Guestbook.store 100 Guestbook.deployed hdeploy 4
    [Guestbook.visit "enter", Guestbook.visit "leave"]⟩

end MeteredContract
