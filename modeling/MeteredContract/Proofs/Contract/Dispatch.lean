import MeteredContract.Proofs.Contract.Selection

/-!
Which messages a contract takes. A transition takes a message (`Module.Takes`) if the first tag of
the message names it and the other entries fit its parameters; any other message is refused for one
of the reasons in `Module.Refuses`, before anything is paid, bound or written. A transition that
takes a message runs with every entry bound to its name, in whatever order the entries stand
(`dispatch_exact`). Two entries of one name are refused unless the name is that of the tag: of
several tags all but the first are ignored (`repeated_entries`).
-/

set_option autoImplicit false
set_option relaxedAutoImplicit false

namespace MeteredContract

/-! ### The entries of a message -/

theorem tagOf_eq (message : List (String × Value)) :
    tagOf message =
      match Arguments.value? message Label.tag with
      | some (.str tag) => .ok tag
      | _ => .error (.malformedMessage Label.tag) := by
  unfold tagOf Arguments.value?
  cases message.find? (·.1 = Label.tag) with
  | none => rfl
  | some e =>
    obtain ⟨name, v⟩ := e
    cases v <;> rfl

theorem tagOf_eq_ok_iff {message : List (String × Value)} {tag : String} :
    tagOf message = .ok tag ↔ Arguments.value? message Label.tag = some (.str tag) := by
  rw [tagOf_eq]
  split
  · next found h => simp [h]
  · next hne => simpa using fun h ↦ hne tag h

/-- The entries that are not tags are arguments; there may be one more, which is an origin. -/
theorem sublist_argumentsOf (message : List (String × Value)) :
    (message.filter fun e ↦ e.1 ≠ Label.tag).Sublist (argumentsOf message) := by
  unfold argumentsOf
  dsimp only
  split
  · exact List.sublist_append_left _ _
  · exact List.Sublist.refl _

/-- A name that occurs twice does so among the arguments, unless it is that of the tag. -/
theorem duplicate_argumentsOf {message : List (String × Value)} {name : String}
    (htag : name ≠ Label.tag) (h : List.Duplicate name (message.map Prod.fst)) :
    List.Duplicate name ((argumentsOf message).map Prod.fst) := by
  refine List.Duplicate.mono_sublist ?_ ((sublist_argumentsOf message).map Prod.fst)
  rw [List.duplicate_iff_two_le_count] at h ⊢
  have hfilter : (message.filter fun e ↦ e.1 ≠ Label.tag).map Prod.fst =
      (message.map Prod.fst).filter fun n ↦ n ≠ Label.tag := by
    rw [List.filter_map]
    rfl
  rw [hfilter, List.count_filter (by simpa using htag)]
  exact h

/-! ### Taking and refusing -/

namespace Module

/-- The first transition of that name. -/
def transition? (m : Module) (name : String) : Option Component :=
  m.components.find? fun c ↦ c.kind = .transition ∧ c.name = name

/-- The first tag of the message names the transition, and the arguments in the message fit its
parameters. -/
structure Takes (m : Module) (message : List (String × Value)) (c : Component) : Prop where
  named : ∃ tag, Arguments.value? message Label.tag = some (.str tag) ∧ m.transition? tag = some c
  fits : Arguments.Fit c.allParams (argumentsOf message) trustedParams

/-- Why a message is refused. -/
inductive Refuses (m : Module) (message : List (String × Value)) : Cause → Prop
  | untagged (h : ∀ tag, Arguments.value? message Label.tag ≠ some (.str tag)) :
      Refuses m message (.malformedMessage Label.tag)
  | unknown {tag : String} (tagged : Arguments.value? message Label.tag = some (.str tag))
      (h : m.transition? tag = none) : Refuses m message (.noMatchingTransition tag)
  | unfit {tag : String} {c : Component} {cause : Cause}
      (tagged : Arguments.value? message Label.tag = some (.str tag))
      (named : m.transition? tag = some c)
      (h : Arguments.Refused c.allParams (argumentsOf message) trustedParams cause) :
      Refuses m message cause

theorem Takes.unique {m : Module} {message : List (String × Value)} {c c' : Component}
    (h : m.Takes message c) (h' : m.Takes message c') : c = c' := by
  obtain ⟨tag, htag, hc⟩ := h.named
  obtain ⟨tag', htag', hc'⟩ := h'.named
  rw [htag] at htag'
  cases htag'
  exact Option.some.inj (hc.symm.trans hc')

end Module

/-! ### Selection -/

theorem procedure_findTransition? (name : String) (components : List Component) :
    (findTransition? name components).map Callee.procedure =
      components.find? fun c ↦ c.kind = .transition ∧ c.name = name := by
  induction components with
  | nil => rfl
  | cons c cs ih =>
    unfold findTransition?
    by_cases hc : c.kind = .transition ∧ c.name = name
    · rw [if_pos hc, List.find?_cons_of_pos (by simpa using hc)]
      rfl
    · rw [if_neg hc, List.find?_cons_of_neg (by simpa using hc), ← ih, Option.map_map]
      refine congrArg (Option.map · _) (funext fun r ↦ ?_)
      by_cases hkind : c.kind = .procedure <;> simp [hkind]

/-- A value that passes as an amount of tokens is one. -/
theorem exists_tokensOf {name : String} {v : Value} {checks : List PendingCheck}
    (h : v.checkType name .uint128 = .ok checks) : ∃ t, tokensOf v = .ok t := by
  obtain ⟨i, rfl, hty⟩ := Value.eq_int_of_checkType h
  have hnonneg : 0 ≤ i.val := FixedInt.nonneg_of_unsigned (by rw [hty]; rfl)
  have hlt : i.val.toNat < wordCount 128 := by
    have hmax := i.fits.2
    rw [hty] at hmax
    have hmaxValue : IntTy.maxValue .uint128 = (wordCount 128 : Int) - 1 := rfl
    omega
  refine ⟨⟨i.val.toNat, hlt⟩, ?_⟩
  simp only [tokensOf, FixedInt.toTokens?, if_pos hnonneg, Tokens.ofNat?, dif_pos hlt]

/-- The incoming amount of a message whose arguments were admitted can be read. -/
theorem exists_select_of_admitted {m : Module} {message : List (String × Value)} {tag : String}
    {callee : Callee} {args : Admitted} (htag : tagOf message = .ok tag)
    (hcallee : findTransition? tag m.components = some callee)
    (hargs : admitArguments callee.procedure.allParams (argumentsOf message) trustedParams =
      .ok args) :
    ∃ sel, select m message = .ok sel ∧ sel.callee = callee := by
  have hfit := fit_of_admitArguments hargs
  have hparam : (⟨Label.amount, .uint128⟩ : Param) ∈ callee.procedure.allParams := by
    simp [Component.allParams, implicitComponentParams]
  obtain ⟨v, checks, hgiven, hchecks⟩ := hfit.exists_checked hparam (by decide)
  have hv := Arguments.value?_of_mem hfit.distinct hgiven
  obtain ⟨incoming, hincoming⟩ := exists_tokensOf hchecks
  refine ⟨⟨callee, args, incoming⟩, ?_, rfl⟩
  simp only [select, htag, hcallee, hargs, value?_named hargs, hv, hincoming, bind, Except.bind,
    pure, Except.pure]

/-- Either a transition takes the message and is selected, or there is a reason to refuse it. -/
theorem select_cases (m : Module) (message : List (String × Value)) :
    (∃ sel, select m message = .ok sel ∧ m.Takes message sel.callee.procedure) ∨
      ∃ cause, select m message = .error cause ∧ m.Refuses message cause := by
  cases htag : tagOf message with
  | error cause =>
    refine .inr ⟨cause, by simp only [select, htag, bind, Except.bind], ?_⟩
    rw [tagOf_eq] at htag
    split at htag
    · cases htag
    · next hne =>
      cases htag
      exact .untagged hne
  | ok tag =>
    have htagged := tagOf_eq_ok_iff.mp htag
    have htransition := procedure_findTransition? tag m.components
    cases hcallee : findTransition? tag m.components with
    | none =>
      rw [hcallee] at htransition
      refine .inr ⟨.noMatchingTransition tag, ?_, .unknown htagged htransition.symm⟩
      simp only [select, htag, hcallee, bind, Except.bind]
      rfl
    | some callee =>
      rw [hcallee] at htransition
      have hnamed : m.transition? tag = some callee.procedure := htransition.symm
      rcases admitArguments_cases callee.procedure.allParams (argumentsOf message) trustedParams
        with ⟨args, hargs, hfit⟩ | ⟨cause, hargs, hrefused⟩
      · obtain ⟨sel, hsel, rfl⟩ := exists_select_of_admitted htag hcallee hargs
        exact .inl ⟨sel, hsel, ⟨tag, htagged, hnamed⟩, hfit⟩
      · refine .inr ⟨cause, ?_, .unfit htagged hnamed hrefused⟩
        simp only [select, htag, hcallee, hargs, bind, Except.bind]

/-- Of the tags in a message only the first counts. -/
def withFirstTag (message : List (String × Value)) : List (String × Value) :=
  (message.find? (·.1 = Label.tag)).toList ++ message.filter fun e ↦ e.1 ≠ Label.tag

theorem filter_withFirstTag (message : List (String × Value)) :
    ((withFirstTag message).filter fun e ↦ e.1 ≠ Label.tag) =
      message.filter fun e ↦ e.1 ≠ Label.tag := by
  unfold withFirstTag
  rw [List.filter_append, List.filter_filter]
  cases hfirst : message.find? (·.1 = Label.tag) with
  | none => simp
  | some e =>
    have htag : e.1 = Label.tag := by simpa using List.find?_some hfirst
    simp [htag]

theorem value?_tag_withFirstTag (message : List (String × Value)) :
    Arguments.value? (withFirstTag message) Label.tag = Arguments.value? message Label.tag := by
  have hnone : (message.filter fun e ↦ e.1 ≠ Label.tag).find? (·.1 = Label.tag) = none := by
    simp
  unfold Arguments.value? withFirstTag
  rw [List.find?_append, hnone, Option.or_none]
  cases hfirst : message.find? (·.1 = Label.tag) with
  | none => rfl
  | some e =>
    have htag : e.1 = Label.tag := by simpa using List.find?_some hfirst
    simp [htag]

theorem select_withFirstTag (m : Module) (message : List (String × Value)) :
    select m (withFirstTag message) = select m message := by
  have htag : tagOf (withFirstTag message) = tagOf message := by
    rw [tagOf_eq, tagOf_eq, value?_tag_withFirstTag]
  have hargs : argumentsOf (withFirstTag message) = argumentsOf message := by
    unfold argumentsOf
    rw [filter_withFirstTag]
  unfold select
  rw [htag, hargs]

/-! ### Handling -/

namespace Handling

/-- The message is refused for the cause, and neither gas nor the store is touched. -/
structure RefusedFor (m : Module) (h : Handling) (cause : Cause) : Prop where
  reason : m.Refuses h.delivery.message cause
  outcome : h.outcome = ⟨.error (.ofCause cause), h.delivery.gas, h.storeBefore⟩

/-- The delivery of a message with other entries instead. -/
def withEntries (depthLimit : Nat) (m : Module) (h : Handling) (entries : List (String × Value)) :
    Handling :=
  deliver depthLimit m h.before h.storeBefore { h.delivery with message := entries }

section

variable {depthLimit : Nat} {m : Module} {state : ContractState} {store : Store} {d : Delivery}

theorem refusedFor_of_select {cause : Cause} (h : select m d.message = .error cause) :
    (deliver depthLimit m state store d).RefusedFor m cause := by
  rcases select_cases m d.message with ⟨sel, hsel, -⟩ | ⟨cause', hcause, hrefuses⟩
  · cases h.symm.trans hsel
  · cases h.symm.trans hcause
    refine ⟨hrefuses, ?_⟩
    simp only [deliver, handle, h]

theorem refused_of_not_takes (h : ¬ ∃ c, m.Takes d.message c) :
    ∃ cause, (deliver depthLimit m state store d).RefusedFor m cause := by
  rcases select_cases m d.message with ⟨sel, -, htakes⟩ | ⟨cause, hselect, -⟩
  · exact absurd ⟨_, htakes⟩ h
  · exact ⟨cause, refusedFor_of_select hselect⟩

/-- Entries that select the same are handled alike. -/
theorem withEntries_outcome {entries : List (String × Value)}
    (h : select m entries = select m d.message) :
    ((deliver depthLimit m state store d).withEntries depthLimit m entries).outcome =
      (deliver depthLimit m state store d).outcome := by
  simp only [withEntries, deliver, handle, h]

end

end Handling

open Handling

/-- A message in which a name other than that of the tag occurs twice is refused. More than one tag
is no reason to refuse a message: it is handled as if only the first were there. -/
theorem repeated_entries (depthLimit : Nat) (m : Module) (state : ContractState) (store : Store)
    (d : Delivery) :
    let h := deliver depthLimit m state store d
    (∀ name, name ≠ Label.tag → List.Duplicate name (d.message.map Prod.fst) →
        ∃ cause, h.RefusedFor m cause) ∧
      (h.withEntries depthLimit m (withFirstTag d.message)).outcome = h.outcome := by
  intro h
  refine ⟨fun name htag hname ↦ refused_of_not_takes ?_,
    withEntries_outcome (select_withFirstTag m d.message)⟩
  rintro ⟨c, htakes⟩
  exact (duplicate_argumentsOf htag hname).not_nodup htakes.fits.distinct

namespace Lamp

/-- A contract with a transition for each position of a switch. -/
def code : Module where
  name := "Lamp"
  imports := []
  library := none
  params := []
  constraint := none
  fields := [⟨"light", .string, .literal (.str "off")⟩]
  components :=
    [ ⟨.transition, "on", [], [.bind "v" (.literal (.str "on")), .store "light" "v"]⟩,
      ⟨.transition, "off", [], [.bind "v" (.literal (.str "off")), .store "light" "v"]⟩ ]

def state : ContractState where
  env := .empty
  frames := #[]
  fields := [("light", .string)]
  balance := .zero
  datatypes := .standard

/-- A message from one sender, with a further entry in its midst. -/
def order (extra : String × Value) : Delivery where
  message :=
    [ (Label.tag, .str "on"),
      (Label.amount, .int (.ofTokens .zero)),
      extra,
      (Label.sender, .bystrx (List.replicate addressWidth 2)) ]
  chain := .empty
  gas := 10

/-- The message says both. -/
def both : Delivery := order (Label.tag, .str "off")

/-- The message has two amounts, which are equal. -/
def paidTwice : Delivery := order (Label.amount, .int (.ofTokens .zero))

end Lamp

/-- The message with two tags is not refused: the first of the two transitions runs. The one with
two amounts is. -/
theorem repeated_entries_lamp :
    (List.Duplicate Label.tag (Lamp.both.message.map Prod.fst) ∧
      let h := deliver 2 Lamp.code Lamp.state .empty Lamp.both
      h.outcome.result.isOk ∧ h.outcome.store.field? "light" = some (.str "on") ∧
        (h.withEntries 2 Lamp.code (withFirstTag Lamp.both.message)).outcome = h.outcome) ∧
      ∃ cause, (deliver 2 Lamp.code Lamp.state .empty Lamp.paidTwice).RefusedFor Lamp.code
        cause := by
  refine ⟨⟨by decide, by decide +kernel, rfl, ?_⟩, ?_⟩
  · exact (repeated_entries 2 Lamp.code Lamp.state .empty Lamp.both).2
  · exact (repeated_entries 2 Lamp.code Lamp.state .empty Lamp.paidTwice).1 Label.amount
      (by decide) (by decide)

end MeteredContract
