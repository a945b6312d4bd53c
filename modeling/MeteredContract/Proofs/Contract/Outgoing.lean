import MeteredContract.Proofs.Contract.Arguments
import MeteredContract.Proofs.Contract.History
import MeteredContract.Proofs.Execution.Outgoing

/-!
What a deployed contract sends out. Deployment starts from nothing and pure arguments, so it freezes
an arena whose messages are pure; a call with a pure message and pure fields then starts from a
clean point. Hence whatever the call emits or throws, also if it fails later, consists of
well-formed messages without closures (`outgoing_well_formed`).
-/

set_option autoImplicit false
set_option relaxedAutoImplicit false

namespace MeteredContract

/-- No value in the arguments or message holds a closure. -/
def PureArguments (args : List (String × Value)) : Prop := ∀ a ∈ args, a.2.isPure = true

instance (args : List (String × Value)) : Decidable (PureArguments args) :=
  inferInstanceAs (Decidable (∀ a ∈ args, a.2.isPure = true))

/-- No field of another contract holds a closure. -/
def Store.RemotePure (s : Store) : Prop :=
  ∀ address field f, s.remoteField address field = .ok f → f.2.isPure = true

theorem Store.Pure.clean {s : Store} (hs : s.Pure) (hremote : s.RemotePure) : s.Clean where
  fields field v hv := Value.messagesPure_of_isPure (hs field v hv)
  remote address field f hf := Value.messagesPure_of_isPure (hremote address field f hf)

/-! ### Arguments -/

/-- What is bound to parameters are arguments. -/
theorem PureArguments.admitted {args : List (String × Value)} (hargs : PureArguments args)
    {params : List Param} {trusted : List String} {admitted : Admitted}
    (h : admitArguments params args trusted = .ok admitted) : PureArguments admitted.named := by
  rintro ⟨name, v⟩ hb
  exact hargs _ (Arguments.mem_of_value? ((mem_named_iff h).mp hb))

theorem PureArguments.argumentsOf {message : List (String × Value)} (h : PureArguments message) :
    PureArguments (argumentsOf message) := by
  have hentries : PureArguments (message.filter fun e ↦ e.1 ≠ Label.tag) :=
    fun e he ↦ h e (List.mem_filter.mp he).1
  unfold MeteredContract.argumentsOf
  dsimp only
  split
  · next hsender =>
    have horigin := hentries _ (Arguments.mem_of_value? hsender)
    exact List.forall_mem_append.mpr ⟨hentries, List.forall_mem_singleton.mpr horigin⟩
  · exact hentries

theorem PureArguments.messagesPure {args : List (String × Value)} (h : PureArguments args) :
    ∀ a ∈ args, a.2.MessagesPure :=
  fun a ha ↦ Value.messagesPure_of_isPure (h a ha)

/-! ### Deployment -/

theorem clean_loadEntries (depthLimit : Nat) (entries : List LibraryEntry) (types : Datatypes)
    (env : Env) : EvalM.Clean (loadEntries depthLimit entries types env) fun _ ↦ True := by
  induction entries generalizing types env with
  | nil => exact .pure trivial
  | cons entry rest ih =>
    cases entry with
    | datatype name tparams constructors => exact ih _ env
    | value x e =>
      refine (clean_eval _ depthLimit e env).bind fun v hv ↦ ?_
      refine (EvalM.clean_pay v.size).bind fun _ _ ↦ ?_
      exact (EvalM.clean_bind env x hv).bind fun inner _ ↦ ih types inner

theorem clean_checkConstraint (s : Setting) (env : Env) (constraint : Option Expr) :
    EvalM.Clean (checkConstraint s env constraint) fun _ ↦ True := by
  cases constraint with
  | none => exact .pure trivial
  | some e =>
    refine (clean_eval s s.depthLimit e env).bind fun v _ ↦ ?_
    split
    · exact .pure trivial
    · exact (EvalM.clean_fail rfl _).annotate fun f hf ↦ hf.of_cause (f.withSpan_cause _)

namespace DeployM

variable {α : Type}

abbrev Clean (x : DeployM α) (post : α → Prop) : Prop :=
  Run.Maintains (fun d : Deployment ↦ d.machine.Clean) Fault.ThrowsMessage x post

theorem clean_onMachine {x : EvalM α} {post : α → Prop} (hx : EvalM.Clean x post) :
    Clean (onMachine x) post :=
  .zoom (fun _ hd ↦ hd) (fun _ _ _ hm ↦ hm) hx

theorem clean_initFields (s : Setting) (env : Env) (fields : List FieldDef) :
    Clean (initFields s env fields) fun _ ↦ True := by
  induction fields with
  | nil => exact .pure trivial
  | cons f fs ih =>
    have hfirst : Clean (initField s env f) fun _ ↦ True := by
      refine (clean_onMachine (clean_eval s s.depthLimit f.init env)).bind fun v _ ↦ ?_
      split
      · exact fun d hd ↦ ⟨hd, trivial⟩
      · have hfail : Clean (Run.fail (.impureValue (.field f.name)) : DeployM Unit) fun _ ↦ True :=
          .fail (Fault.throwsMessage_of_isOrdinary rfl)
        exact hfail.annotate fun e he ↦ he.of_cause (e.withSpan_cause _)
    exact hfirst.bind fun _ _ ↦ ih

/-- Deployment with pure arguments freezes frames in which all messages are pure. -/
theorem clean_deploy (depthLimit : Nat) (m : Module) {args : List (String × Value)}
    (hargs : PureArguments args) (balance : Tokens) :
    Clean (deploy depthLimit m args balance) fun d ↦
      (Arena.ofFrozen d.state.frames).Binds Value.MessagesPure := by
  refine (clean_onMachine (clean_loadEntries depthLimit _ _ _)).bind fun loaded _ ↦ ?_
  have hadmitted : Clean (Run.ofExcept (admitArguments m.allParams args [])) fun admitted ↦
      PureArguments admitted.named :=
    .read (fun _ _ _ h ↦ hargs.admitted h) fun _ c _ hc ↦
      Fault.throwsMessage_of_isOrdinary (ordinary_admitArguments _ _ _ c hc)
  refine hadmitted.bind fun admitted hpure ↦ ?_
  refine (clean_onMachine (EvalM.clean_bindAll loaded.2 hpure.messagesPure)).bind fun env _ ↦ ?_
  refine (clean_onMachine (clean_checkConstraint _ env m.constraint)).bind fun _ _ ↦ ?_
  refine (clean_initFields _ env m.fields).bind fun _ _ ↦ ?_
  have hframes : Clean (Run.read fun d : Deployment ↦ .ok d.machine.arena.freeze) fun frames ↦
      (Arena.ofFrozen frames).Binds Value.MessagesPure := by
    refine .read (fun d frames hd h ↦ ?_) nofun
    cases h
    exact Arena.Binds.freeze hd
  exact hframes.bind fun frames hfrozen ↦ .pure hfrozen

end DeployM

theorem binds_of_deploy {depthLimit : Nat} {m : Module} {args : List (String × Value)}
    {balance : Tokens} {store : Store} {gas : Nat} {d : Deployed} (hargs : PureArguments args)
    (h : (deploy depthLimit m args balance store gas).result = .ok d) :
    (Arena.ofFrozen d.state.frames).Binds Value.MessagesPure := by
  obtain ⟨-, hyields⟩ := DeployM.clean_deploy depthLimit m hargs balance ⟨⟨.empty, gas⟩, store⟩
    (Arena.binds_empty _)
  have hresult : (DeployM.deploy depthLimit m args balance ⟨⟨.empty, gas⟩, store⟩).1 = .ok d := h
  rw [hresult] at hyields
  exact hyields

/-! ### Calls -/

theorem throwsMessage_of_settle {balance : Tokens} {emitted : List Value} {f : Fault}
    (h : settle balance emitted = .error f) : f.ThrowsMessage := by
  unfold settle at h
  split at h
  · next c hc =>
    cases h
    exact Fault.throwsMessage_of_isOrdinary (ordinary_sentTokens .zero emitted c hc)
  · split at h
    · cases h
    · cases h
      exact Fault.throwsMessage_of_ne nofun

/-- What a transition is given is what the message carries. -/
theorem PureArguments.selected {m : Module} {message : List (String × Value)}
    (hmessage : PureArguments message) {sel : Selected} (h : select m message = .ok sel) :
    PureArguments sel.args.named := by
  obtain ⟨tag, -, h⟩ := except_bind_eq_ok.mp h
  split at h
  · cases h
  · obtain ⟨args, hargs, h⟩ := except_bind_eq_ok.mp h
    have hpure := hmessage.argumentsOf.admitted hargs
    split at h
    · cases h
      exact hpure
    · obtain ⟨incoming, -, h⟩ := except_bind_eq_ok.mp h
      cases h
      exact hpure

namespace Handling

/-- What a call sends out, raises and throws is well formed and free of closures. -/
structure SendsMessages (depthLimit : Nat) (m : Module) (c : Handling) : Prop where
  /-- Wherever the transition has got to, and however it goes on from there. -/
  during : ∀ p q, c.Starts depthLimit m p → Reaches (c.setting depthLimit) p q →
    q.session.Emits ∧ (q.run (c.setting depthLimit)).2.Emits ∧
      ∀ f, (q.run (c.setting depthLimit)).1 = .error f → f.ThrowsMessage
  /-- A list with a malformed element is not sent at all. -/
  refused : ∀ p q x site v items, c.Starts depthLimit m p → Reaches (c.setting depthLimit) p q →
    q.code = .stmt (.send x) site → q.session.machine.arena.lookup q.session.env x = .ok v →
    v.toList? = some items →
    (∃ w ∈ items, ¬ ∃ es, w = .message es ∧ ∀ label ∈ sentLabels, messageHas es label = true) →
    ∃ f, q.run (c.setting depthLimit) = (.error f, q.session)
  ok : ∀ r, c.outcome.result = .ok r →
    (∀ v ∈ r.emitted, v.Outgoing sentLabels) ∧ ∀ v ∈ r.events, v.Outgoing [Label.eventName]
  failed : ∀ f, c.outcome.result = .error f → f.ThrowsMessage

variable {depthLimit : Nat} {m : Module} {state : ContractState} {store : Store} {d : Delivery}

theorem Starts.clean {p : Point} (hp : (deliver depthLimit m state store d).Starts depthLimit m p)
    (hframes : (Arena.ofFrozen state.frames).Binds Value.MessagesPure) (hstore : store.Clean)
    (hmessage : PureArguments d.message) : p.Clean := by
  obtain ⟨sel, hsel, rfl⟩ := hp
  refine ⟨⟨⟨nofun, nofun⟩, ?_, hstore⟩, trivial⟩
  exact (hframes.avoiding _).bindAll state.env (hmessage.selected hsel).messagesPure

/-- How a call ends whose transition starts at clean points. -/
theorem outgoing_outcome
    (hclean : ∀ p, (deliver depthLimit m state store d).Starts depthLimit m p → p.Clean) :
    match (deliver depthLimit m state store d).outcome.result with
    | .ok r => (∀ v ∈ r.emitted, v.Outgoing sentLabels) ∧
        ∀ v ∈ r.events, v.Outgoing [Label.eventName]
    | .error f => f.ThrowsMessage := by
  cases hsel : select m d.message with
  | error c =>
    have hresult : (deliver depthLimit m state store d).outcome.result = .error (.ofCause c) := by
      simp only [deliver, handle, hsel]
    rw [hresult]
    exact Fault.throwsMessage_of_isOrdinary (ordinary_select m d.message c hsel)
  | ok sel =>
    obtain ⟨p, hp⟩ : ∃ p, (deliver depthLimit m state store d).Starts depthLimit m p :=
      ⟨_, sel, hsel, rfl⟩
    obtain ⟨hlast, hfault⟩ := (hclean p hp).run
      ((deliver depthLimit m state store d).setting depthLimit)
    cases hrun : p.run ((deliver depthLimit m state store d).setting depthLimit) with
    | mk result t =>
      rw [hrun] at hlast hfault
      obtain ⟨pending, hresult⟩ := hp.outcome hrun
      rw [hresult]
      cases result with
      | error f => exact hfault f rfl
      | ok _ =>
        cases hsettle : settle t.balance t.emitted with
        | error f => exact throwsMessage_of_settle hsettle
        | ok rest => exact ⟨hlast.emitted, hlast.events⟩

theorem sendsMessages_deliver (hframes : (Arena.ofFrozen state.frames).Binds Value.MessagesPure)
    (hstore : store.Clean) (hmessage : PureArguments d.message) :
    (deliver depthLimit m state store d).SendsMessages depthLimit m := by
  have hclean : ∀ p, (deliver depthLimit m state store d).Starts depthLimit m p → p.Clean :=
    fun p hp ↦ hp.clean hframes hstore hmessage
  have houtcome := outgoing_outcome hclean
  refine ⟨?_, ?_, ?_, ?_⟩
  · intro p q hp hq
    have hq := hq.clean (hclean p hp)
    obtain ⟨hlast, hfault⟩ := hq.run ((deliver depthLimit m state store d).setting depthLimit)
    exact ⟨hq.session.toEmits, hlast.toEmits, hfault⟩
  · intro p q x site v items _ _ hcode hv hitems hmalformed
    obtain ⟨f, hf⟩ := ExecM.send_of_malformed hv hitems hmalformed
    refine ⟨f, ?_⟩
    rw [Point.run, hcode]
    exact hf
  · intro r hr
    rw [hr] at houtcome
    exact houtcome
  · intro f hf
    rw [hf] at houtcome
    exact houtcome

end Handling

open Handling

/-- What a deployed contract sends out is well formed and free of closures: if nothing that goes
into a call holds a closure, then at each point of the call all emitted messages and events and all
exceptions are messages with the entries they need, and no closure occurs in them at any depth. -/
theorem outgoing_well_formed (deployLimit : Nat) (m : Module) (args : List (String × Value))
    (balance₀ : Tokens) (store₀ : Store) (gas : Nat) (deployed : Deployed)
    (hargs : PureArguments args)
    (hdeploy : (deploy deployLimit m args balance₀ store₀ gas).result = .ok deployed)
    (depthLimit : Nat) (balance : Tokens) (store : Store) (d : Delivery) (hstore : store.Pure)
    (hremote : store.RemotePure) (hmessage : PureArguments d.message) :
    let c := deliver depthLimit m { deployed.state with balance } store d
    c.SendsMessages depthLimit m ∧ ∃ rest, c.after = { deployed.state with balance := rest } := by
  intro c
  refine ⟨?_, exists_balance_after depthLimit m { deployed.state with balance } store d⟩
  exact sendsMessages_deliver (binds_of_deploy hargs hdeploy) (hstore.clean hremote) hmessage

namespace Courier

/-- A contract that keeps a function next to the message that it sends. -/
def code : Module where
  name := "Courier"
  imports := []
  library := none
  params := []
  constraint := none
  fields := []
  components :=
    [ ⟨.transition, "post", [⟨"to", .bystr20⟩],
        [ .bind "f" (.fn "x" .uint32 (.var "x")),
          .bind "msg" (.message [(Label.tag, .lit (.str "")), (Label.recipient, .var "to"),
            (Label.amount, .var Label.amount)]),
          .bind "both" (.construct "Pair" [.fn .uint32 .uint32, .message] ["f", "msg"]),
          .bind "none" (.construct "Nil" [.message] []),
          .matching "both" [⟨.constructor "Pair" [.wildcard, .binder "sent"],
            [ .bind "msgs" (.construct "Cons" [.message] ["sent", "none"]),
              .accept,
              .send "msgs" ]⟩],
          .bind "done" (.message [(Label.eventName, .lit (.str "posted"))]),
          .event "done" ]⟩ ]

def address (b : UInt8) : Value := .bystrx (List.replicate addressWidth b)

def args : List (String × Value) :=
  [ (Label.thisAddress, address 9),
    (Label.creationBlock, .bnum 1),
    (Label.languageVersion, .int (.ofUInt32 0)) ]

def deployed : Deployed where
  state :=
    { env := ⟨some 2⟩
      frames := #[⟨Label.thisAddress, .value (address 9), ⟨none⟩⟩,
        ⟨Label.creationBlock, .value (.bnum 1), ⟨some 0⟩⟩,
        ⟨Label.languageVersion, .value (.int (.ofUInt32 0)), ⟨some 1⟩⟩]
      fields := []
      balance := .zero
      datatypes := .standard }
  pending := []

def parcel : Delivery where
  message :=
    [ (Label.tag, .str "post"),
      (Label.amount, .int (.ofTokens .zero)),
      (Label.sender, address 2),
      ("to", address 3) ]
  chain := .empty
  gas := 100

end Courier

theorem outgoing_well_formed_courier :
    (deploy 4 Courier.code Courier.args .zero .empty 100).result = .ok Courier.deployed ∧
      let c := deliver 4 Courier.code Courier.deployed.state .empty Courier.parcel
      c.outcome.result.toOption.map (fun r ↦ (r.emitted.length, r.events.length)) = some (1, 1) ∧
        c.SendsMessages 4 Courier.code ∧
        ∃ rest, c.after = { Courier.deployed.state with balance := rest } := by
  have hdeploy :
      (deploy 4 Courier.code Courier.args .zero .empty 100).result = .ok Courier.deployed := rfl
  have hargs : PureArguments Courier.args := by decide +kernel
  have hmessage : PureArguments Courier.parcel.message := by decide +kernel
  have hremote : Store.empty.RemotePure := nofun
  exact ⟨hdeploy, by decide +kernel, outgoing_well_formed 4 Courier.code Courier.args .zero .empty
    100 Courier.deployed hargs hdeploy 4 .zero .empty Courier.parcel Store.pure_empty hremote
    hmessage⟩

end MeteredContract
