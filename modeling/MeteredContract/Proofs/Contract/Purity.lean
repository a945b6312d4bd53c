import MeteredContract.Proofs.Contract.Deployment
import MeteredContract.Proofs.Contract.History
import MeteredContract.Proofs.Execution.Effect
import MeteredContract.Proofs.Store.Purity

/-!
When the persistent state is pure. The values that are written to fields are checked for closures,
the keys along which a map is updated in place are not. So a field of a deployed contract stays free
of closures exactly as long as every insertion into it that takes place has pure keys
(`Point.KeysPure`); deployment, all other statements and deletions keep a pure field pure, also when
they fail.
-/

set_option autoImplicit false
set_option relaxedAutoImplicit false

namespace MeteredContract

/-- If the field is pure in the store of the one state, so it is in that of the other. -/
def StaysPure {σ : Type} (store : σ → Store) (field : String) (t u : σ) : Prop :=
  (store t).PureAt field → (store u).PureAt field

instance {σ : Type} (store : σ → Store) (field : String) :
    IsPreorder σ (StaysPure store field) where
  refl _ := id
  trans _ _ _ h h' := h' ∘ h

instance (field : String) : Passable (StaysPure Session.store field) where
  enter _ _ _ := id
  leave _ _ := id

/-! ### Statements -/

namespace Point

/-- If the point is an insertion into the field and takes place, then its keys are pure. -/
def KeysPure (s : Setting) (field : String) (p : Point) : Prop :=
  ∀ names x site keys, p.code = .stmt (.mapUpdate field names (some x)) site →
    (p.run s).1 = .ok () → p.session.machine.arena.lookupAll p.session.env names = .ok keys →
    ∀ k ∈ keys, k.isPure = true

variable {s : Setting} {field : String} {p : Point}

theorem KeysPure.of_ne (h : ∀ names x site, p.code ≠ .stmt (.mapUpdate field names x) site) :
    p.KeysPure s field :=
  fun names x site _ hcode ↦ absurd hcode (h names (some x) site)

/-- An update in place of the field is the only statement that can make it impure. -/
theorem pureAt_of_ne_mapUpdate {st : Stmt} {site : Span} (hcode : p.code = .stmt st site)
    (hst : st.isSimple = true) (hne : ∀ names x, st ≠ .mapUpdate field names x)
    (hp : p.session.store.PureAt field) : (p.run s).2.store.PureAt field := by
  have heffect : Effect p.scene st p.session (p.run s).2 := effect hcode hst
  generalize (p.run s).2 = u at heffect
  cases heffect with
  | put hdeclared hpure => exact hp.put _ hpure
  | @update map names keys x val store hupdate hdeclared hkeys hval hstore =>
    have hmap : map ≠ field := by
      rintro rfl
      exact hne names x hupdate
    exact hp.mapUpdate_of_ne hmap hstore
  | _ => exact hp

/-- An update in place leaves a pure field pure exactly if it fails, deletes, or has pure keys. -/
theorem pureAt_iff_of_mapUpdate {names : List String} {x : Option String} {site : Span}
    (hcode : p.code = .stmt (.mapUpdate field names x) site) (hp : p.session.store.PureAt field) :
    (p.run s).2.store.PureAt field ↔ p.KeysPure s field := by
  have hrun : p.run s = ExecM.mapUpdate p.scene field names x p.session := by
    rw [run, hcode]
    rfl
  rcases mapUpdate_cases p.scene p.session field names x with
    ⟨e, hfail⟩ | ⟨keys, val, store, hdeclared, hkeys, hval, hstore, hok⟩
  · have hnone : p.KeysPure s field := by
      intro _ _ _ _ _ hdone
      simp [hrun, hfail] at hdone
    rw [hrun, hfail]
    exact iff_of_true hp hnone
  · rw [hrun, hok]
    cases hval with
    | nothing =>
      have hnone : p.KeysPure s field := by
        intro _ _ _ _ hcode'
        rw [hcode] at hcode'
        cases hcode'
      exact iff_of_true (hp.delete hstore) hnone
    | @var x v hv hpure =>
      show store.PureAt field ↔ _
      rw [hp.insert_iff hpure hstore]
      constructor
      · intro h _ _ _ keys' hcode' _ hkeys'
        rw [hcode] at hcode'
        cases hcode'
        rw [hkeys] at hkeys'
        cases hkeys'
        exact h
      · intro h
        exact h names x site keys hcode (by rw [hrun, hok]) hkeys

/-- Of the simple statements, only an insertion with an impure key makes a pure field impure. -/
theorem pureAt_iff_of_simple (hsimple : p.IsSimple) (hp : p.session.store.PureAt field) :
    (p.run s).2.store.PureAt field ↔ p.KeysPure s field := by
  obtain ⟨st, site, hcode, hst⟩ := hsimple
  by_cases hupdate : ∃ names x, st = .mapUpdate field names x
  · obtain ⟨names, x, rfl⟩ := hupdate
    exact pureAt_iff_of_mapUpdate hcode hp
  · have hne : ∀ names x, st ≠ .mapUpdate field names x :=
      fun names x heq ↦ hupdate ⟨names, x, heq⟩
    refine iff_of_true (pureAt_of_ne_mapUpdate hcode hst hne hp) (.of_ne ?_)
    intro names x site' hcode'
    rw [hcode] at hcode'
    cases hcode'
    exact hne names x rfl

/-- In a run, a pure field is pure all the way exactly if all insertions into it have pure keys. -/
theorem pureAt_iff (hp : p.session.store.PureAt field) :
    (∀ q, Reaches s p q → q.session.store.PureAt field ∧ (q.run s).2.store.PureAt field) ↔
      ∀ q, Reaches s p q → q.KeysPure s field := by
  constructor
  · intro h q hq
    obtain ⟨hbefore, hafter⟩ := h q hq
    by_cases hsimple : q.IsSimple
    · exact (pureAt_iff_of_simple hsimple hbefore).mp hafter
    · refine .of_ne ?_
      intro names x site hcode
      exact hsimple ⟨_, site, hcode, rfl⟩
  · intro h q hq
    have hstep : ∀ r, Reaches s p r → r.IsSimple →
        StaysPure Session.store field r.session (r.run s).2 :=
      fun r hr hsimple hpure ↦ (pureAt_iff_of_simple hsimple hpure).mpr (h r hr)
    have hbefore : q.session.store.PureAt field := hq.session_of_simple hstep hp
    exact ⟨hbefore, q.run_of_simple (fun r hr ↦ hstep r (hq.trans hr)) hbefore⟩

end Point

/-! ### Deployment -/

/-- Deployment leaves a pure store pure, whether it succeeds or not. -/
theorem pure_deploy {store : Store} (hstore : store.Pure) (depthLimit : Nat) (m : Module)
    (args : List (String × Value)) (balance : Tokens) (gas : Nat) :
    (deploy depthLimit m args balance store gas).store.Pure := by
  intro field
  have hkeeps : Run.Keeps (StaysPure Deployment.store field)
      (DeployM.deploy depthLimit m args balance) :=
    DeployM.keeps_deploy (fun _ _ ↦ id) (fun f _ _ _ hpure hd ↦ hd.put f.name hpure) _ _ _
  exact hkeeps ⟨⟨.empty, gas⟩, store⟩ (hstore field)

/-! ### Calls and histories -/

namespace Handling

/-- The field is pure when the call is over, and at every point that its transition gets to. -/
structure FieldPure (depthLimit : Nat) (m : Module) (field : String) (c : Handling) : Prop where
  during : ∀ p q, c.Starts depthLimit m p → Reaches (c.setting depthLimit) p q →
    q.session.store.PureAt field ∧ (q.run (c.setting depthLimit)).2.store.PureAt field
  after : c.outcome.store.PureAt field

/-- Every insertion into the field that takes place in the call has pure keys. -/
def KeysPure (depthLimit : Nat) (m : Module) (field : String) (c : Handling) : Prop :=
  ∀ p q, c.Starts depthLimit m p → Reaches (c.setting depthLimit) p q →
    q.KeysPure (c.setting depthLimit) field

/-- A call keeps a pure field pure exactly if its insertions into the field have pure keys. -/
theorem fieldPure_iff (depthLimit : Nat) (m : Module) (state : ContractState) {store : Store}
    {field : String} (hstore : store.PureAt field) (d : Delivery) :
    (deliver depthLimit m state store d).FieldPure depthLimit m field ↔
      (deliver depthLimit m state store d).KeysPure depthLimit m field := by
  have hstart : ∀ p, (deliver depthLimit m state store d).Starts depthLimit m p →
      p.session.store.PureAt field := by
    rintro _ ⟨sel, -, rfl⟩
    exact hstore
  constructor
  · intro h p q hp hq
    exact (Point.pureAt_iff (hstart p hp)).mp (fun r hr ↦ h.during p r hp hr) q hq
  · intro h
    have hduring : ∀ p q, (deliver depthLimit m state store d).Starts depthLimit m p →
        Reaches ((deliver depthLimit m state store d).setting depthLimit) p q →
        q.session.store.PureAt field ∧
          (q.run ((deliver depthLimit m state store d).setting depthLimit)).2.store.PureAt field :=
      fun p q hp ↦ (Point.pureAt_iff (hstart p hp)).mpr (fun r hr ↦ h p r hp hr) q
    refine ⟨hduring, ?_⟩
    rcases deliver_cases depthLimit m state store d with ⟨c, hsel, houtcome⟩ | ⟨p, hp, hended⟩
    · rw [houtcome]
      exact hstore
    · rw [hended.store]
      exact (hduring p p hp .refl).2

end Handling

open Handling

theorem fieldPure_history_iff (depthLimit : Nat) (m : Module) (state : ContractState)
    {store : Store} {field : String} (hstore : store.PureAt field) (ds : List Delivery) :
    (∀ c ∈ history depthLimit m state store ds, c.FieldPure depthLimit m field) ↔
      ∀ c ∈ history depthLimit m state store ds, c.KeysPure depthLimit m field := by
  -- The store that a call leaves is the one that the next call starts from.
  induction ds generalizing state store with
  | nil => simp [history]
  | cons d ds ih =>
    simp only [history, List.forall_mem_cons]
    constructor
    · rintro ⟨hfirst, hrest⟩
      exact ⟨(fieldPure_iff depthLimit m state hstore d).mp hfirst, (ih _ hfirst.after).mp hrest⟩
    · rintro ⟨hfirst, hrest⟩
      have hpure := (fieldPure_iff depthLimit m state hstore d).mpr hfirst
      exact ⟨hpure, (ih _ hpure.after).mpr hrest⟩

/-- From a store without closures, deployment leads to one, and in every history of the deployed
contract a field stays free of closures, during and after each call, exactly if all insertions into
it that take place have keys without closures. -/
theorem fields_pure_iff_keys_pure (depthLimit : Nat) (m : Module) (args : List (String × Value))
    (balance : Tokens) (store : Store) (gas : Nat) (hstore : store.Pure) :
    (∀ v : Value, v.isPure = true ↔ ∀ body env, ¬ v.Captures body env) ∧
      (deploy depthLimit m args balance store gas).store.Pure ∧
      ∀ d, (deploy depthLimit m args balance store gas).result = .ok d → ∀ ds field,
        let calls :=
          history depthLimit m d.state (deploy depthLimit m args balance store gas).store ds
        (∀ c ∈ calls, c.FieldPure depthLimit m field) ↔
          ∀ c ∈ calls, c.KeysPure depthLimit m field := by
  have hdeploy := pure_deploy hstore depthLimit m args balance gas
  refine ⟨Value.isPure_iff, hdeploy, ?_⟩
  intro d _ ds field
  exact fieldPure_history_iff depthLimit m d.state (hdeploy field) ds

namespace Index

/-- A contract that enters a function into a map, as a key. -/
def code : Module where
  name := "Index"
  imports := []
  library := none
  params := []
  constraint := none
  fields := [⟨"m", .map .uint32 .uint32, .literal (.emptyMap .uint32 .uint32)⟩]
  components :=
    [ ⟨.transition, "enter", [],
        [ .bind "f" (.fn "x" .uint32 (.var "x")),
          .bind "v" (.literal (.int .uint32 1)),
          .mapUpdate "m" ["f"] (some "v") ]⟩ ]

def address (b : UInt8) : Value := .bystrx (List.replicate addressWidth b)

def args : List (String × Value) :=
  [ (Label.thisAddress, address 9),
    (Label.creationBlock, .bnum 1),
    (Label.languageVersion, .int (.ofUInt32 0)) ]

def deployed : Deployed where
  state :=
    { env := ⟨some 2⟩
      frames := #[⟨Label.thisAddress, .value (address 9), ⟨none⟩⟩,
        ⟨Label.creationBlock, .value (.bnum 1), ⟨some 0⟩⟩,
        ⟨Label.languageVersion, .value (.int (.ofUInt32 0)), ⟨some 1⟩⟩]
      fields := [("m", .map .uint32 .uint32)]
      balance := .zero
      datatypes := .standard }
  pending := []

def enter : Delivery where
  message :=
    [ (Label.tag, .str "enter"),
      (Label.amount, .int (.ofTokens .zero)),
      (Label.sender, address 2) ]
  chain := .empty
  gas := 100

/-- The calls of the history in which the function is entered once. -/
def calls : List Handling :=
  history 4 code deployed.state (deploy 4 code args .zero .empty 100).store [enter]

end Index

/-- The function is entered, the call succeeds, and the field holds a closure from then on: the keys
of the insertion are not pure. -/
theorem fields_pure_iff_keys_pure_index :
    Store.empty.Pure ∧
      (deploy 4 Index.code Index.args .zero .empty 100).result = .ok Index.deployed ∧
      (Index.calls.map fun c ↦
        (c.outcome.result.isOk, (c.outcome.store.field? "m").map Value.isPure)) =
          [(true, some false)] ∧
      ¬ ∀ c ∈ Index.calls, c.KeysPure 4 Index.code "m" := by
  have hdeploy :
      (deploy 4 Index.code Index.args .zero .empty 100).result = .ok Index.deployed := rfl
  have hcalls : (Index.calls.map fun c ↦
      (c.outcome.result.isOk, (c.outcome.store.field? "m").map Value.isPure)) =
        [(true, some false)] := by decide +kernel
  refine ⟨Store.pure_empty, hdeploy, hcalls, ?_⟩
  intro hkeys
  obtain ⟨-, -, hiff⟩ :=
    fields_pure_iff_keys_pure 4 Index.code Index.args .zero .empty 100 Store.pure_empty
  have hpure : ∀ c ∈ Index.calls, c.FieldPure 4 Index.code "m" :=
    (hiff Index.deployed hdeploy [Index.enter] "m").mpr hkeys
  have hmem : (true, some false) ∈ Index.calls.map fun c ↦
      (c.outcome.result.isOk, (c.outcome.store.field? "m").map Value.isPure) := by simp [hcalls]
  obtain ⟨c, hc, heq⟩ := List.mem_map.mp hmem
  obtain ⟨v, hv, himpure⟩ := Option.map_eq_some_iff.mp (Prod.mk.inj heq).2
  have hv' := (hpure c hc).after v hv
  simp [himpure] at hv'

end MeteredContract
