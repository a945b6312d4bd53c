import Mathlib.Algebra.Order.Ring.Int
import MeteredContract.Proofs.Contract.Arguments
import MeteredContract.Proofs.Contract.Deployment
import MeteredContract.Proofs.Contract.History
import MeteredContract.Proofs.Execution.Effect

/-!
Tokens are conserved. The statements of a transition take the incoming tokens once or not at all
(`Credited`), whatever calls and matches they stand in; what the emitted messages carry is summed in
unbounded integers and leaves the balance when the transition is done. Over a whole history the
balance is the initial one, plus what was taken, minus what was sent.
-/

set_option autoImplicit false
set_option relaxedAutoImplicit false

namespace MeteredContract

/-- The integer in the first amount of a message that comes in. -/
def incomingAmount? (message : List (String × Value)) : Option Int :=
  match Arguments.value? message Label.amount with
  | some (.int i) => some i.val
  | _ => none

/-- The integer in the first amount of an emitted message. -/
def sentAmount? : Value → Option Int
  | .message es =>
    match messageValue? es Label.amount with
    | some (.int i) => some i.val
    | _ => none
  | _ => none

def sentTotal (emitted : List Value) : Int := (emitted.map fun v ↦ (sentAmount? v).getD 0).sum

/-- What a call takes of the amount that came with its message. -/
def creditedAmount (message : List (String × Value)) (accepted : Bool) : Int :=
  if accepted then (incomingAmount? message).getD 0 else 0

/-! ### Taking the incoming tokens -/

/-- Either nothing was taken, or the incoming tokens were taken for the first time. -/
def Credited (incoming : Tokens) (t u : Session) : Prop :=
  u.balance = t.balance ∧ u.accepted = t.accepted ∨
    t.accepted = false ∧ u.accepted = true ∧ u.balance.val = t.balance.val + incoming.val

instance (incoming : Tokens) : Passable (Credited incoming) where
  refl _ := .inl ⟨rfl, rfl⟩
  trans t u v := by
    rintro (⟨hb, ha⟩ | ⟨hfresh, htaken, hb⟩) (⟨hb', ha'⟩ | ⟨hfresh', htaken', hb'⟩)
    · exact .inl ⟨hb'.trans hb, ha'.trans ha⟩
    · exact .inr ⟨ha ▸ hfresh', htaken', hb ▸ hb'⟩
    · exact .inr ⟨hfresh, ha' ▸ htaken, hb' ▸ hb⟩
    · simp [htaken] at hfresh'
  enter _ _ _ := .inl ⟨rfl, rfl⟩
  leave _ _ := .inl ⟨rfl, rfl⟩

theorem Effect.credited {scene : Scene} {st : Stmt} {t u : Session} (h : Effect scene st t u) :
    Credited scene.incoming t u := by
  cases h with
  | credit hfresh hbalance =>
    exact .inr ⟨hfresh, rfl, (Tokens.add?_eq_some_iff _ _ _).mp hbalance⟩
  | _ => exact .inl ⟨rfl, rfl⟩

theorem credited_of_reaches {s : Setting} {p q : Point} (h : Reaches s p q) (hq : q.IsSimple) :
    Credited p.scene.incoming q.session (q.run s).2 := by
  obtain ⟨st, site, hcode, hst⟩ := hq
  rw [← h.shares.incoming]
  exact (Point.effect hcode hst).credited

/-- A run takes the incoming tokens at most once. -/
theorem Point.run_credited (s : Setting) (p : Point) :
    Credited p.scene.incoming p.session (p.run s).2 :=
  Point.run_of_simple p fun _ ↦ credited_of_reaches

/-- The same holds up to each point on the way. -/
theorem Reaches.credited {s : Setting} {p q : Point} (h : Reaches s p q) :
    Credited p.scene.incoming p.session q.session :=
  h.session_of_simple fun _ ↦ credited_of_reaches

/-! ### The amount of the incoming message -/

theorem tokensOf_eq_ok {v : Value} {t : Tokens} (h : tokensOf v = .ok t) :
    ∃ i : FixedInt, v = .int i ∧ (t.val : Int) = i.val := by
  cases v with
  | int i =>
    refine ⟨i, rfl, ?_⟩
    simp only [tokensOf, FixedInt.toTokens?] at h
    split at h
    · next t' ht =>
      cases h
      split at ht
      · next hnonneg =>
        rw [(Tokens.ofNat?_eq_some_iff _ _).mp ht]
        exact Int.toNat_of_nonneg hnonneg
      · simp at ht
    · simp at h
  | _ => simp [tokensOf] at h

/-- Only tags are taken away from the entries of a message, and only an origin is added. -/
theorem value?_argumentsOf_of_ne (message : List (String × Value)) {name : String}
    (htag : name ≠ Label.tag) (horigin : Label.origin ≠ name) :
    Arguments.value? (argumentsOf message) name = Arguments.value? message name := by
  unfold argumentsOf
  dsimp only
  split
  · rw [Arguments.value?_append_ne _ horigin, Arguments.value?_filter_ne _ htag]
  · rw [Arguments.value?_filter_ne _ htag]

/-- The incoming tokens of a selected transition are the amount of the message. -/
theorem incoming_of_select {m : Module} {message : List (String × Value)} {sel : Selected}
    (h : select m message = .ok sel) : incomingAmount? message = some (sel.incoming.val : Int) := by
  unfold select at h
  obtain ⟨tag, -, h⟩ := except_bind_eq_ok.mp h
  split at h
  · cases h
  · next callee hcallee =>
    obtain ⟨args, hargs, h⟩ := except_bind_eq_ok.mp h
    have hname : Label.amount ∈ callee.procedure.allParams.map Param.name := by
      simp [Component.allParams, implicitComponentParams]
    obtain ⟨v, hv⟩ :=
      Arguments.exists_value?_iff.mpr (((fit_of_admitArguments hargs).names _).mpr hname)
    rw [value?_named hargs, hv] at h
    rw [value?_argumentsOf_of_ne _ (by decide) (by decide)] at hv
    obtain ⟨incoming, htokens, h⟩ := except_bind_eq_ok.mp h
    cases h
    obtain ⟨i, rfl, hval⟩ := tokensOf_eq_ok htokens
    rw [incomingAmount?, hv, hval]

/-! ### Settling what was sent -/

/-- The tokens sent are the sum of the amounts, each of which is there. -/
theorem sentTokens_eq_ok {acc total : Tokens} {emitted : List Value}
    (h : sentTokens acc emitted = .ok total) :
    (∀ v ∈ emitted, (sentAmount? v).isSome) ∧ (total.val : Int) = acc.val + sentTotal emitted := by
  induction emitted generalizing acc with
  | nil =>
    cases h
    simp [sentTotal]
  | cons v rest ih =>
    cases v with
    | message es =>
      unfold sentTokens at h
      split at h
      · simp at h
      · next v hv =>
        obtain ⟨amount, hamount, hrest⟩ := except_bind_eq_ok.mp h
        obtain ⟨i, rfl, hval⟩ := tokensOf_eq_ok hamount
        have hsent : sentAmount? (.message es) = some i.val := by rw [sentAmount?, hv]
        split at hrest
        · cases hrest
        · next total' htotal =>
          obtain ⟨hsome, hsum⟩ := ih hrest
          have hadd := (Tokens.add?_eq_some_iff _ _ _).mp htotal
          constructor
          · intro w hw
            rcases List.mem_cons.mp hw with rfl | hw
            · rw [hsent]
              rfl
            · exact hsome w hw
          · have hcons : sentTotal (.message es :: rest) = i.val + sentTotal rest := by
              simp [sentTotal, hsent]
            rw [hcons]
            omega
    | _ => simp [sentTokens] at h

theorem settle_eq_ok {balance rest : Tokens} {emitted : List Value}
    (h : settle balance emitted = .ok rest) :
    (∀ v ∈ emitted, (sentAmount? v).isSome) ∧
      (rest.val : Int) = balance.val - sentTotal emitted := by
  unfold settle at h
  split at h
  · simp at h
  · next sent hsent =>
    obtain ⟨hsome, htotal⟩ := sentTokens_eq_ok hsent
    refine ⟨hsome, ?_⟩
    split at h
    · next rest' hrest =>
      cases h
      unfold Tokens.sub? at hrest
      split at hrest
      · next hle =>
        cases hrest
        have hzero : (Tokens.zero.val : Int) = 0 := rfl
        simp only
        omega
      · simp at hrest
    · simp at h

/-! ### Calls and histories -/

namespace Handling

/-- The tokens that a call moved: what it took minus what it sent. A call that failed moved none. -/
def moved (c : Handling) : Int :=
  match c.outcome.result with
  | .ok h => creditedAmount c.delivery.message h.accepted - sentTotal h.emitted
  | .error _ => 0

/-- What a call does to the balance. -/
structure Conserves (depthLimit : Nat) (m : Module) (c : Handling) : Prop where
  /-- Wherever the transition has got to, the balance is the one before, with the amount of the
  message on top as soon as that is accepted, and this amount is not added again. -/
  credited : ∀ p q, c.Starts depthLimit m p → Reaches (c.setting depthLimit) p q →
    (q.session.balance.val : Int) =
      c.before.balance.val + creditedAmount c.delivery.message q.session.accepted
  /-- A call that succeeds has paid what it sent, and is left with an amount of tokens. -/
  balanced : ∀ h, c.outcome.result = .ok h →
    (incomingAmount? c.delivery.message).isSome ∧ (∀ v ∈ h.emitted, (sentAmount? v).isSome) ∧
      (h.state.balance.val : Int) = c.before.balance.val +
        creditedAmount c.delivery.message h.accepted - sentTotal h.emitted ∧
      h.state.balance.val < 2 ^ 128
  /-- If what was sent cannot be paid, the call fails. -/
  overdrawn : ∀ p t, c.Starts depthLimit m p → p.run (c.setting depthLimit) = (.ok (), t) →
    c.before.balance.val + creditedAmount c.delivery.message t.accepted < sentTotal t.emitted →
    ∃ f, c.outcome.result = .error f
  failed : ∀ f, c.outcome.result = .error f → c.after.balance = c.before.balance

theorem balance_of_credited {depthLimit : Nat} {m : Module} {c : Handling} {p : Point}
    (hp : c.Starts depthLimit m p) {t : Session} (ht : Credited p.scene.incoming p.session t) :
    (t.balance.val : Int) =
      c.before.balance.val + creditedAmount c.delivery.message t.accepted := by
  obtain ⟨sel, hsel, rfl⟩ := hp
  rcases ht with ⟨hbalance, haccepted⟩ | ⟨-, haccepted, hbalance⟩
  · rw [hbalance, haccepted]
    simp [Selected.session, creditedAmount]
  · rw [haccepted, creditedAmount, if_pos rfl, incoming_of_select hsel, hbalance]
    simp [Selected.session, Selected.scene]

theorem deliver_conserves (depthLimit : Nat) (m : Module) (state : ContractState) (store : Store)
    (d : Delivery) : (deliver depthLimit m state store d).Conserves depthLimit m := by
  have hfailed : ∀ f, (deliver depthLimit m state store d).outcome.result = .error f →
      (deliver depthLimit m state store d).after.balance = state.balance := by
    intro f hf
    rw [after, hf]
    rfl
  rcases deliver_cases depthLimit m state store d with ⟨c, hsel, houtcome⟩ | ⟨p, hp, hended⟩
  · refine ⟨fun p q hp hq ↦ balance_of_credited hp hq.credited, ?_, ?_, hfailed⟩
    · intro h hh
      rw [houtcome] at hh
      cases hh
    · intro _ _ _ _ _
      rw [houtcome]
      exact ⟨_, rfl⟩
  · have hbody := balance_of_credited hp
      (p.run_credited ((deliver depthLimit m state store d).setting depthLimit))
    refine ⟨fun p q hp hq ↦ balance_of_credited hp hq.credited, ?_, ?_, hfailed⟩
    · intro h hh
      obtain ⟨-, hsettle, hemitted, haccepted⟩ := hended.ok h hh
      obtain ⟨hsent, hrest⟩ := settle_eq_ok hsettle
      obtain ⟨sel, hsel, -⟩ := hp
      rw [hemitted, haccepted]
      refine ⟨?_, hsent, ?_, h.state.balance.isLt⟩
      · rw [incoming_of_select hsel]
        rfl
      · rw [hrest, hbody]
    · intro p' t hp' hrun hlt
      rw [← hp.unique hp'] at hrun
      cases hresult : (deliver depthLimit m state store d).outcome.result with
      | error f => exact ⟨f, rfl⟩
      | ok h =>
        obtain ⟨-, hsettle, -, -⟩ := hended.ok h hresult
        obtain ⟨-, hrest⟩ := settle_eq_ok hsettle
        rw [hrun] at hrest hbody
        dsimp only at hrest hbody
        omega

theorem balance_after (depthLimit : Nat) (m : Module) (state : ContractState) (store : Store)
    (d : Delivery) :
    ((deliver depthLimit m state store d).after.balance.val : Int) =
      state.balance.val + (deliver depthLimit m state store d).moved := by
  have hconserves := deliver_conserves depthLimit m state store d
  unfold after moved
  cases hresult : (deliver depthLimit m state store d).outcome.result with
  | error f => simp [deliver]
  | ok h =>
    obtain ⟨-, -, hbalance, -⟩ := hconserves.balanced h hresult
    show (h.state.balance.val : Int) =
      state.balance.val + (creditedAmount d.message h.accepted - sentTotal h.emitted)
    rw [hbalance]
    simp only [deliver]
    omega

end Handling

/-- Over a history the balance changes by what the calls moved. -/
theorem balance_lastState (depthLimit : Nat) (m : Module) (state : ContractState) (store : Store)
    (ds : List Delivery) :
    ((lastState state (history depthLimit m state store ds)).balance.val : Int) =
      state.balance.val + ((history depthLimit m state store ds).map Handling.moved).sum := by
  induction ds generalizing state store with
  | nil => simp [history, lastState]
  | cons d ds ih =>
    simp only [history, lastState, List.map_cons, List.sum_cons]
    rw [ih, Handling.balance_after]
    omega

theorem deploy_balance {depthLimit : Nat} {m : Module} {args : List (String × Value)}
    {balance : Tokens} {store : Store} {gas : Nat} {d : Deployed}
    (h : (deploy depthLimit m args balance store gas).result = .ok d) :
    d.state.balance = balance := by
  obtain ⟨_, _, _, _, -, -, -, hbalance⟩ := exists_initFields_of_deploy h
  exact hbalance

/-- The balance is conserved over every history of a deployed contract: it begins with the one at
deployment, changes by what the calls moved, and each call takes and pays what it says. -/
theorem balance_conserved (depthLimit : Nat) (m : Module) (args : List (String × Value))
    (balance : Tokens) (store : Store) (gas : Nat) (d : Deployed)
    (hdeploy : (deploy depthLimit m args balance store gas).result = .ok d) (ds : List Delivery) :
    let calls := history depthLimit m d.state (deploy depthLimit m args balance store gas).store ds
    ((lastState d.state calls).balance.val : Int) =
        balance.val + (calls.map Handling.moved).sum ∧
      ∀ c ∈ calls, c.Conserves depthLimit m := by
  intro calls
  refine ⟨?_, fun c hc ↦ ?_⟩
  · rw [balance_lastState, deploy_balance hdeploy]
  · obtain ⟨state, store', del, rfl⟩ := exists_deliver_of_mem_history hc
    exact Handling.deliver_conserves depthLimit m state store' del

namespace Till

/-- A contract that tries to accept three times before it pays. -/
def code : Module where
  name := "Till"
  imports := []
  library := none
  params := []
  constraint := none
  fields := []
  components :=
    [ ⟨.procedure, "take", [], [.accept, .accept]⟩,
      ⟨.transition, "pay", [⟨"to", .bystr20⟩, ⟨"amount", .uint128⟩],
        [ .call "take" [],
          .accept,
          .bind "msg" (.message [(Label.tag, .lit (.str "")), (Label.recipient, .var "to"),
            (Label.amount, .var "amount")]),
          .bind "none" (.construct "Nil" [.message] []),
          .bind "msgs" (.construct "Cons" [.message] ["msg", "none"]),
          .send "msgs" ]⟩ ]

def address (b : UInt8) : Value := .bystrx (List.replicate addressWidth b)

def args : List (String × Value) :=
  [ (Label.thisAddress, address 9),
    (Label.creationBlock, .bnum 1),
    (Label.languageVersion, .int (.ofUInt32 0)) ]

def deployed : Deployed where
  state :=
    { env := ⟨some 2⟩
      frames := #[⟨Label.thisAddress, .value (address 9), ⟨none⟩⟩,
        ⟨Label.creationBlock, .value (.bnum 1), ⟨some 0⟩⟩,
        ⟨Label.languageVersion, .value (.int (.ofUInt32 0)), ⟨some 1⟩⟩]
      fields := []
      balance := ⟨100, by decide⟩
      datatypes := .standard }
  pending := []

/-- Fifty come in and thirty go out. -/
def payment : Delivery where
  message :=
    [ (Label.tag, .str "pay"),
      (Label.amount, .int (.ofTokens ⟨50, by decide⟩)),
      (Label.sender, address 2),
      ("to", address 3),
      ("amount", .int (.ofTokens ⟨30, by decide⟩)) ]
  chain := .empty
  gas := 10

end Till

theorem balance_conserved_till :
    (deploy 4 Till.code Till.args ⟨100, by decide⟩ .empty 50).result = .ok Till.deployed ∧
      let calls := history 4 Till.code Till.deployed.state .empty [Till.payment, Till.payment]
      calls.map Handling.moved = [20, 20] ∧
        ((lastState Till.deployed.state calls).balance.val : Int) =
          100 + (calls.map Handling.moved).sum ∧
        ∀ c ∈ calls, c.Conserves 4 Till.code := by
  have hdeploy :
      (deploy 4 Till.code Till.args ⟨100, by decide⟩ .empty 50).result = .ok Till.deployed := rfl
  exact ⟨hdeploy, by decide +kernel, balance_conserved 4 Till.code Till.args ⟨100, by decide⟩
    .empty 50 Till.deployed hdeploy [Till.payment, Till.payment]⟩

end MeteredContract
