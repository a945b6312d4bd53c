import MeteredContract.Proofs.Evaluation.Messages
import MeteredContract.Proofs.Execution.Effect
import MeteredContract.Proofs.Store.Purity

/-!
What leaves a contract. Statements do not check that messages, events and exceptions are free of
closures; they only check that they are messages with certain entries. It follows from an invariant
(`Session.Clean`): all messages in the arena, in the fields and in the fields of other contracts are
pure, wherever they stand in a value. Every statement keeps it, so at each point that a run reaches
what was emitted so far is well formed and pure (`Reaches.clean`).
-/

set_option autoImplicit false
set_option relaxedAutoImplicit false

namespace MeteredContract

/-! ### Stores -/

/-- All messages in fields, own and of other contracts, are pure. -/
structure Store.Clean (s : Store) : Prop where
  fields : ∀ field v, s.field? field = some v → v.MessagesPure
  remote : ∀ address field f, s.remoteField address field = .ok f → f.2.MessagesPure

namespace KeyPath

variable {field : String} {m : MapValue} {key : Value} {rest : List Value}

theorem messagesPure_of_entry? (hm : (Value.map m).MessagesPure) {v : Value}
    (h : entry? field m key rest = .ok (some v)) : v.MessagesPure := by
  induction rest generalizing m key with
  | nil =>
    have hget : m.get? key = some v := Except.ok.inj h
    exact hm.part (TypedMap.part_of_get? hget)
  | cons next rest ih =>
    unfold entry? at h
    split at h
    · cases h
    · next inner hget => exact ih (hm.part (TypedMap.part_of_get? hget)) h
    · cases h

theorem messagesPure_of_read {v w : Value} (hv : v.MessagesPure) {keys : List Value} {fetch : Bool}
    (h : read field v keys fetch = .ok w) : w.MessagesPure := by
  unfold read at h
  split at h
  · cases h
  · split at h
    · cases h
    · obtain ⟨found, hfound, h⟩ := except_bind_eq_ok.mp h
      cases h
      split
      · refine Value.messagesPure_ofOption ?_
        rintro w rfl
        exact messagesPure_of_entry? hv hfound
      · refine Value.messagesPure_of_isPure ?_
        rw [Value.isPure_iff]
        exact Value.each_bool _
  · cases h

theorem messagesPure_of_update {val : Option Value} (hval : ∀ v, val = some v → v.MessagesPure)
    {m' : MapValue} (hm : (Value.map m).MessagesPure)
    (hkeys : ∀ k ∈ key :: rest, k.MessagesPure) (h : update field val m key rest = .ok m') :
    (Value.map m').MessagesPure := by
  induction rest generalizing m m' key with
  | nil =>
    have hkey : key.MessagesPure := hkeys key List.mem_cons_self
    cases val with
    | none =>
      cases h
      exact TypedMap.messagesPure_erase key hm
    | some v =>
      cases h
      exact TypedMap.messagesPure_insert hm hkey (hval v rfl)
  | cons next rest ih =>
    obtain ⟨hkey, hrest⟩ := List.forall_mem_cons.mp hkeys
    unfold update at h
    split at h
    · next inner hget =>
      obtain ⟨inner', hinner', h⟩ := except_bind_eq_ok.mp h
      cases h
      have hinner : (Value.map inner).MessagesPure := hm.part (TypedMap.part_of_get? hget)
      exact TypedMap.messagesPure_insert hm hkey (ih hinner hrest hinner')
    · cases h
    · cases h
      exact hm
    · obtain ⟨inner', hinner', h⟩ := except_bind_eq_ok.mp h
      cases h
      have hempty : ∀ k v, (Value.map (.empty k v)).MessagesPure :=
        fun k v ↦ Value.messagesPure_of_isPure rfl
      exact TypedMap.messagesPure_insert hm hkey (ih (hempty _ _) hrest hinner')
    · cases h

end KeyPath

namespace Store.Clean

variable {s s' : Store}

theorem put (hs : s.Clean) (field : String) {v : Value} (hv : v.MessagesPure) :
    (s.put field v).Clean where
  fields name w hw := by
    rw [field?_put] at hw
    split at hw
    · cases hw
      exact hv
    · exact hs.fields name w hw
  remote := hs.remote

theorem load (hs : s.Clean) {field : String} {v : Value} (h : s.load field = .ok v) :
    v.MessagesPure := by
  unfold Store.load at h
  split at h
  · next hfield =>
    cases h
    exact hs.fields _ _ hfield
  · cases h

theorem mapGet (hs : s.Clean) {field : String} {keys : List Value} {fetch : Bool} {v : Value}
    (h : s.mapGet field keys fetch = .ok v) : v.MessagesPure := by
  obtain ⟨w, hw, h⟩ := except_bind_eq_ok.mp h
  exact KeyPath.messagesPure_of_read (hs.load hw) h

theorem remoteLoad (hs : s.Clean) {address : Address} {field : String} {v : Value}
    (h : s.remoteLoad address field = .ok v) : v.MessagesPure := by
  obtain ⟨f, hf, h⟩ := except_bind_eq_ok.mp h
  cases h
  exact hs.remote address field f hf

theorem remoteMapGet (hs : s.Clean) {address : Address} {field : String} {keys : List Value}
    {fetch : Bool} {v : Value} (h : s.remoteMapGet address field keys fetch = .ok v) :
    v.MessagesPure := by
  obtain ⟨w, hw, h⟩ := except_bind_eq_ok.mp h
  exact KeyPath.messagesPure_of_read (hs.remoteLoad hw) h

theorem mapUpdate (hs : s.Clean) {field : String} {keys : List Value} {val : Option Value}
    (hkeys : ∀ k ∈ keys, k.MessagesPure) (hval : ∀ v, val = some v → v.MessagesPure)
    (h : s.mapUpdate field keys val = .ok s') : s'.Clean := by
  obtain ⟨m, m', key, rest, rfl, hfield, hm', rfl⟩ := mapUpdate_eq_ok h
  exact hs.put field (KeyPath.messagesPure_of_update hval (hs.fields _ _ hfield) hkeys hm')

end Store.Clean

/-! ### Sessions -/

/-- The labels that messages to other contracts must have. -/
def sentLabels : List String := [Label.tag, Label.recipient, Label.amount]

/-- What was emitted so far can leave the contract. -/
structure Session.Emits (t : Session) : Prop where
  emitted : ∀ v ∈ t.emitted, v.Outgoing sentLabels
  events : ∀ v ∈ t.events, v.Outgoing [Label.eventName]

/-- What was emitted can leave the contract, and so can the messages in the values there are. -/
structure Session.Clean (t : Session) : Prop extends t.Emits where
  machine : t.machine.Clean
  store : t.store.Clean

namespace ExecM

variable {α : Type}

abbrev Clean (x : ExecM α) (post : α → Prop) : Prop :=
  Run.Maintains Session.Clean Fault.ThrowsMessage x post

theorem clean_onMachine {x : EvalM α} {post : α → Prop} (hx : EvalM.Clean x post) :
    Clean (onMachine x) post :=
  .zoom (fun _ ht ↦ ht.machine) (fun _ _ ht hm ↦ ⟨⟨ht.emitted, ht.events⟩, hm, ht.store⟩) hx

theorem clean_within (env : Env) {x : ExecM α} {post : α → Prop} (hx : Clean x post) :
    Clean (within env x) post := by
  show Clean (x.zoom (fun s : Session ↦ { s with env }) fun s t ↦ { t with env := s.env }) post
  exact .zoom (fun _ ht ↦ ⟨⟨ht.emitted, ht.events⟩, ht.machine, ht.store⟩)
    (fun _ _ _ ht ↦ ⟨⟨ht.emitted, ht.events⟩, ht.machine, ht.store⟩) hx

theorem clean_withBindings (env : Env) {bs : List (String × Value)}
    (hbs : ∀ b ∈ bs, b.2.MessagesPure) {x : ExecM α} {post : α → Prop} (hx : Clean x post) :
    Clean (withBindings env bs x) post :=
  (clean_onMachine (EvalM.clean_bindAll env hbs)).bind fun inner _ ↦ clean_within inner hx

theorem clean_read {f : Session → Except Cause α} {post : α → Prop}
    (hok : ∀ t r, t.Clean → f t = .ok r → post r) (hordinary : ∀ t, Ordinary (f t)) :
    Clean (Run.read f) post :=
  .read hok fun t c _ hc ↦ Fault.throwsMessage_of_isOrdinary (hordinary t c hc)

theorem clean_ofExcept {x : Except Cause α} {post : α → Prop} (hok : ∀ r, x = .ok r → post r)
    (hordinary : Ordinary x) : Clean (Run.ofExcept x) post :=
  clean_read (fun _ r _ ↦ hok r) fun _ ↦ hordinary

theorem clean_fail {c : Cause} (h : c.isOrdinary = true) (post : α → Prop) :
    Clean (Run.fail c) post :=
  .fail (Fault.throwsMessage_of_isOrdinary h)

theorem clean_env : Clean (inspect fun _ env ↦ .ok env) fun _ ↦ True :=
  clean_read (fun _ _ _ _ ↦ trivial) fun _ ↦ .ok _

theorem clean_lookup (x : String) : Clean (lookup x) Value.MessagesPure :=
  clean_read (fun _ _ ht hv ↦ ht.machine.lookup hv) fun t ↦ t.machine.arena.ordinary_lookup t.env x

theorem clean_lookupAll (xs : List String) :
    Clean (lookupAll xs) fun vs ↦ ∀ v ∈ vs, v.MessagesPure :=
  clean_read (fun _ _ ht hvs ↦ ht.machine.lookupAll hvs)
    fun t ↦ t.machine.arena.ordinary_lookupAll t.env xs

theorem clean_readStore {f : Store → Except StoreFault α} {post : α → Prop}
    (hok : ∀ s : Store, s.Clean → ∀ r, f s = .ok r → post r) : Clean (readStore f) post := by
  refine clean_read (fun t r ht hr ↦ ?_) fun t ↦ ?_
  · split at hr
    · next hf =>
      cases hr
      exact hok t.store ht.store r hf
    · cases hr
  · split
    · exact .ok _
    · exact StoreFault.ordinary_cause _

theorem clean_writeStore {f : Store → Except StoreFault Store}
    (hok : ∀ s : Store, s.Clean → ∀ s', f s = .ok s' → s'.Clean) :
    Clean (writeStore f) fun _ ↦ True :=
  (clean_readStore hok).bind fun _ hstore _ ht ↦
    ⟨⟨⟨ht.emitted, ht.events⟩, ht.machine, hstore⟩, trivial⟩

theorem clean_bind (x : String) {v : Value} (hv : v.MessagesPure) :
    Clean (bind x v) fun _ ↦ True :=
  fun t ht ↦ ⟨⟨⟨ht.emitted, ht.events⟩, ht.machine.bind t.env x hv, ht.store⟩, trivial⟩

theorem clean_checkField (scene : Scene) (field : String) :
    Clean (checkField scene field) fun _ ↦ True := by
  unfold checkField
  split
  · exact .pure trivial
  · exact clean_fail rfl _

theorem clean_checkPure (field : String) (v : Value) : Clean (checkPure field v) fun _ ↦ True := by
  unfold checkPure
  split
  · exact .pure trivial
  · exact clean_fail rfl _

theorem clean_load (scene : Scene) (field : String) :
    Clean (load scene field) Value.MessagesPure := by
  unfold load
  split
  · refine clean_read (fun t v _ hv ↦ ?_) fun _ ↦ .ok _
    cases hv
    exact Value.messagesPure_of_isPure rfl
  · exact (clean_checkField scene field).bind fun _ _ ↦ clean_readStore fun _ hs _ ↦ hs.load

theorem clean_store (scene : Scene) (field x : String) :
    Clean (store scene field x) fun _ ↦ True := by
  unfold store
  split
  · exact clean_fail rfl _
  · refine (clean_checkField scene field).bind fun _ _ ↦ (clean_lookup x).bind fun v hv ↦ ?_
    refine (clean_checkPure field v).bind fun _ _ ↦ clean_writeStore ?_
    rintro s hs _ ⟨⟩
    exact hs.put field hv

theorem clean_mapUpdate (scene : Scene) (map : String) (keys : List String) (x : Option String) :
    Clean (mapUpdate scene map keys x) fun _ ↦ True := by
  refine (clean_checkField scene map).bind fun _ _ ↦ (clean_lookupAll keys).bind fun ks hks ↦ ?_
  cases x with
  | none => exact clean_writeStore fun _ hs _ ↦ hs.mapUpdate hks nofun
  | some x =>
    refine (clean_lookup x).bind fun v hv ↦ (clean_checkPure map v).bind fun _ _ ↦ ?_
    refine clean_writeStore fun _ hs _ ↦ hs.mapUpdate hks ?_
    rintro _ ⟨⟩
    exact hv

theorem clean_address (x : String) : Clean (address x) fun _ ↦ True := by
  refine (clean_lookup x).bind fun v _ ↦ ?_
  split
  · split
    · exact .pure trivial
    · exact clean_fail rfl _
  · exact clean_fail rfl _
  · exact clean_fail rfl _

theorem clean_readChain (chain : Chain) (query : ChainQuery) :
    Clean (readChain chain query) Value.MessagesPure := by
  cases query with
  | blockNumber | chainId => exact .pure (Value.messagesPure_of_isPure rfl)
  | timestamp x =>
    refine (clean_lookup x).bind fun v _ ↦ ?_
    split
    · refine .pure (Value.messagesPure_ofOption fun w hw ↦ ?_)
      obtain ⟨n, -, rfl⟩ := Option.map_eq_some_iff.mp hw
      exact Value.messagesPure_of_isPure rfl
    · exact clean_fail rfl _

theorem clean_cast (x : String) (t : Ty) : Clean (cast x t) Value.MessagesPure := by
  refine clean_read (fun u r hu hr ↦ ?_) fun u ↦ ?_
  · obtain ⟨v, hv, hr⟩ := except_bind_eq_ok.mp hr
    split at hr
    · split at hr
      · cases hr
        exact Value.messagesPure_of_isPure rfl
      · cases hr
        exact Value.messagesPure_of_isPure rfl
    · cases hr
      exact Value.messagesPure_of_isPure rfl
  · refine (u.machine.arena.ordinary_lookup u.env x).bind fun v ↦ ?_
    split
    · split
      · exact .ok _
      · exact .ok _
    · exact .ok _

theorem clean_accept (scene : Scene) : Clean (accept scene) fun _ ↦ True := by
  intro t ht
  unfold accept
  split
  · exact ⟨ht, trivial⟩
  · split
    · exact ⟨⟨⟨ht.emitted, ht.events⟩, ht.machine, ht.store⟩, trivial⟩
    · exact ⟨ht, Fault.throwsMessage_of_isOrdinary rfl⟩

/-! ### Messages, events and exceptions -/

theorem requireEntries_eq_ok {labels : List String} {v : Value} :
    requireEntries labels v = .ok () ↔
      ∃ es, v = .message es ∧ ∀ label ∈ labels, messageHas es label = true := by
  cases v with
  | message es =>
    unfold requireEntries
    simp only [Value.message.injEq, exists_eq_left']
    cases hfind : labels.find? fun l ↦ !messageHas es l with
    | none => simpa using hfind
    | some l =>
      have hmem := List.mem_of_find?_eq_some hfind
      have hmissing := List.find?_some hfind
      refine iff_of_false nofun fun h ↦ ?_
      simp [h l hmem] at hmissing
  | _ =>
    refine iff_of_false nofun ?_
    rintro ⟨es, ⟨⟩, -⟩

theorem requireAll_eq_ok {labels : List String} {vs : List Value} :
    requireAll labels vs = .ok () ↔ ∀ v ∈ vs, requireEntries labels v = .ok () := by
  induction vs with
  | nil => simp [requireAll]
  | cons v vs ih =>
    rw [requireAll, except_bind_eq_ok, List.forall_mem_cons, ← ih]
    exact ⟨fun ⟨_, h⟩ ↦ h, fun h ↦ ⟨(), h⟩⟩

/-- A pure value that passes the check can leave the contract. -/
theorem outgoing_of_requireEntries {labels : List String} {v : Value} (hv : v.MessagesPure)
    (h : requireEntries labels v = .ok ()) : v.Outgoing labels := by
  obtain ⟨es, rfl, hlabels⟩ := requireEntries_eq_ok.mp h
  exact ⟨⟨es, rfl, hlabels⟩, (Value.isPure_iff _).mp hv.isPure⟩

theorem messagesPure_of_elements {operation : String} {v : Value} {items : List Value}
    (hv : v.MessagesPure) (h : elements operation v = .ok items) :
    ∀ w ∈ items, w.MessagesPure := by
  unfold elements at h
  split at h
  · next hlist =>
    cases h
    exact fun w hw ↦ hv.part (Value.part_of_toList? hlist w hw)
  · cases h

theorem clean_elements (operation : String) {v : Value} (hv : v.MessagesPure) :
    Clean (Run.ofExcept (elements operation v)) fun items ↦ ∀ w ∈ items, w.MessagesPure :=
  clean_ofExcept (fun _ ↦ messagesPure_of_elements hv) (ordinary_elements _ v)

theorem clean_send (x : String) : Clean (send x) fun _ ↦ True := by
  refine (clean_lookup x).bind fun v hv ↦ (clean_elements "send" hv).bind fun items hpure ↦ ?_
  have hall : Clean (Run.ofExcept (requireAll sentLabels items)) fun _ ↦
      ∀ w ∈ items, w.Outgoing sentLabels :=
    clean_ofExcept (fun _ h w hw ↦ outgoing_of_requireEntries (hpure w hw)
      (requireAll_eq_ok.mp h w hw)) (ordinary_requireAll _ _)
  refine hall.bind fun _ hout t ht ↦ ⟨⟨⟨?_, ht.events⟩, ht.machine, ht.store⟩, trivial⟩
  exact List.forall_mem_append.mpr ⟨ht.emitted, hout⟩

theorem clean_event (x : String) : Clean (event x) fun _ ↦ True := by
  refine (clean_lookup x).bind fun v hv ↦ ?_
  have hentries : Clean (Run.ofExcept (requireEntries [Label.eventName] v)) fun _ ↦
      v.Outgoing [Label.eventName] :=
    clean_ofExcept (fun _ h ↦ outgoing_of_requireEntries hv h) (ordinary_requireEntries _ v)
  refine hentries.bind fun _ hout t ht ↦ ⟨⟨⟨ht.emitted, ?_⟩, ht.machine, ht.store⟩, trivial⟩
  refine List.forall_mem_append.mpr ⟨ht.events, ?_⟩
  simpa using hout

theorem clean_throwException (x : Option String) : Clean (throwException x) fun _ ↦ True := by
  cases x with
  | none => exact .fail (Fault.throwsMessage_of_ne nofun)
  | some x =>
    refine (clean_lookup x).bind fun v hv ↦ ?_
    split
    · next es =>
      refine .fail ?_
      rintro _ ⟨⟩
      exact ⟨⟨es, rfl, nofun⟩, (Value.isPure_iff _).mp hv.isPure⟩
    · exact clean_fail rfl _

/-- A list with an element that is no message with the entries of one is not sent at all. -/
theorem send_of_malformed {t : Session} {x : String} {v : Value} {items : List Value}
    (hv : t.machine.arena.lookup t.env x = .ok v) (hitems : v.toList? = some items)
    (hmalformed : ∃ w ∈ items, ¬ ∃ es, w = .message es ∧
      ∀ label ∈ sentLabels, messageHas es label = true) :
    ∃ e, send x t = (.error e, t) := by
  have helements : elements "send" v = .ok items := by rw [elements, hitems]
  have hrefused : ∃ c, requireAll sentLabels items = .error c := by
    cases hall : requireAll sentLabels items with
    | error c => exact ⟨c, rfl⟩
    | ok _ =>
      obtain ⟨w, hw, hnot⟩ := hmalformed
      exact absurd (requireEntries_eq_ok.mp (requireAll_eq_ok.mp hall w hw)) hnot
  obtain ⟨c, hc⟩ := hrefused
  refine ⟨.ofCause c, ?_⟩
  simp only [send, lookup, inspect, Run.ofExcept, Run.read_bind, hv, helements]
  rw [show [Label.tag, Label.recipient, Label.amount] = sentLabels from rfl, hc]

end ExecM

/-! ### Blocks -/

open ExecM

/-- What lies outside of a block keeps sessions clean. -/
structure Outside.IsClean (o : Outside) : Prop where
  eval : ∀ e env, EvalM.CleanValue (o.eval e env)
  invoke : ∀ scene bs body, (∀ b ∈ bs, b.2.MessagesPure) →
    Clean (o.invoke scene bs body) fun _ ↦ True

theorem messagesPure_of_positionalBindings {params : List Param} {args : List Value}
    {bs : List (String × Value)} (hargs : ∀ v ∈ args, v.MessagesPure)
    (h : positionalBindings params args = .ok bs) : ∀ b ∈ bs, b.2.MessagesPure := by
  unfold positionalBindings at h
  split at h
  · cases h
  · split at h
    · cases h
    · cases h
      intro b hb
      exact hargs b.2 (List.of_mem_zip hb).2

theorem clean_execBlock_of_mem {o : Outside} {scene : Scene} {block : List Stmt}
    (h : ∀ st ∈ block, ∀ site, Clean (st.execWith o scene site) fun _ ↦ True) :
    Clean (execBlock o scene block) fun _ ↦ True := by
  induction block with
  | nil => exact .pure trivial
  | cons st rest ih =>
    obtain ⟨hfirst, hrest⟩ := List.forall_mem_cons.mp h
    have hattach := (hfirst .dummy).annotate fun f hf ↦ hf.of_cause (f.attach_cause scene.trail)
    unfold execBlock
    exact hattach.bind fun _ _ ↦ ih hrest

section Blocks

variable {o : Outside} (ho : o.IsClean)

include ho

theorem Outside.clean_call (scene : Scene) (site : Span) (name : String) {args : List Value}
    (hargs : ∀ v ∈ args, v.MessagesPure) : Clean (o.call scene site name args) fun _ ↦ True := by
  unfold call
  split
  · exact clean_fail rfl _
  · next p visible _ =>
    have hown : Clean (Run.ofExcept (positionalBindings p.params args)) fun own ↦
        ∀ b ∈ own, b.2.MessagesPure :=
      clean_ofExcept (fun _ ↦ messagesPure_of_positionalBindings hargs)
        (ordinary_positionalBindings _ args)
    refine hown.bind fun own hown ↦ (clean_lookup _).bind fun sender hsender ↦ ?_
    refine (clean_lookup _).bind fun origin horigin ↦ (clean_lookup _).bind fun amount hamount ↦ ?_
    refine ho.invoke _ _ _ (List.forall_mem_append.mpr ⟨?_, hown⟩)
    simpa using ⟨hsender, horigin, hamount⟩

theorem Outside.clean_callEach (scene : Scene) (site : Span) (name : String) {items : List Value}
    (hitems : ∀ v ∈ items, v.MessagesPure) :
    Clean (o.callEach scene site name items) fun _ ↦ True := by
  induction items with
  | nil => exact .pure trivial
  | cons v vs ih =>
    obtain ⟨hv, hvs⟩ := List.forall_mem_cons.mp hitems
    exact (clean_call ho scene site name (by simpa using hv)).bind fun _ _ ↦ ih hvs

theorem Stmt.clean_execWith (scene : Scene) (st : Stmt) (site : Span) :
    Clean (st.execWith o scene site) fun _ ↦ True := by
  induction st generalizing site with
  | load x field => exact (clean_load scene field).bind fun v hv ↦ clean_bind x hv
  | remoteLoad x addr field =>
    refine (clean_address addr).bind fun a _ ↦ ?_
    exact (clean_readStore fun _ hs _ ↦ hs.remoteLoad).bind fun v hv ↦ clean_bind x hv
  | store field x => exact clean_store scene field x
  | bind x e =>
    refine clean_env.bind fun env _ ↦ ?_
    exact (clean_onMachine (ho.eval e env)).bind fun v hv ↦ clean_bind x hv
  | mapUpdate map keys x => exact clean_mapUpdate scene map keys x
  | mapGet x map keys fetch =>
    refine (clean_checkField scene map).bind fun _ _ ↦ (clean_lookupAll keys).bind fun ks _ ↦ ?_
    exact (clean_readStore fun _ hs _ ↦ hs.mapGet).bind fun v hv ↦ clean_bind x hv
  | remoteMapGet x addr map keys fetch =>
    refine (clean_address addr).bind fun a _ ↦ (clean_lookupAll keys).bind fun ks _ ↦ ?_
    exact (clean_readStore fun _ hs _ ↦ hs.remoteMapGet).bind fun v hv ↦ clean_bind x hv
  | readChain x query =>
    exact (clean_readChain scene.chain query).bind fun v hv ↦ clean_bind x hv
  | cast x addr t => exact (clean_cast addr t).bind fun v hv ↦ clean_bind x hv
  | matching x clauses ih =>
    refine (clean_lookup x).bind fun v hv ↦ ?_
    split
    · exact clean_fail rfl _
    · next i binds hmatch =>
      obtain ⟨clause, hclause⟩ := exists_clause hmatch
      refine clean_env.bind fun env _ ↦ clean_withBindings env ?_ ?_
      · exact fun b hb ↦ hv.part (Pattern.part_of_firstMatch hmatch b hb)
      · rw [execClause_eq x hclause]
        exact clean_execBlock_of_mem (ih clause (List.mem_of_getElem? hclause))
  | accept => exact clean_accept scene
  | send x => exact clean_send x
  | event x => exact clean_event x
  | call name args =>
    exact (clean_lookupAll args).bind fun vs hvs ↦ Outside.clean_call ho scene site name hvs
  | forEach list name =>
    refine (clean_lookup list).bind fun v hv ↦ ?_
    exact (clean_elements "forall" hv).bind fun items hitems ↦
      Outside.clean_callEach ho scene site name hitems
  | throw x => exact clean_throwException x
  | gas c =>
    exact clean_env.bind fun env _ ↦ clean_onMachine (EvalM.clean_charge env c)
  | located sp st ih => exact (ih sp).annotate fun f hf ↦ hf.of_cause (f.withSpan_cause sp)

theorem clean_execBlock (scene : Scene) (block : List Stmt) :
    Clean (execBlock o scene block) fun _ ↦ True :=
  clean_execBlock_of_mem fun st _ site ↦ st.clean_execWith ho scene site

end Blocks

theorem isClean_outside (s : Setting) (room : Nat) : (outside s room).IsClean := by
  induction room with
  | zero => exact ⟨clean_eval s 0, fun _ _ _ _ ↦ clean_fail rfl _⟩
  | succ room ih =>
    refine ⟨clean_eval s (room + 1), fun scene bs body hbs ↦ ?_⟩
    exact clean_withBindings scene.initEnv hbs (clean_execBlock ih scene body)

/-! ### Points -/

/-- All messages in the values that the code was given are pure. -/
def Code.Clean : Code → Prop
  | .stmt _ _ => True
  | .block _ => True
  | .call _ _ args => ∀ v ∈ args, v.MessagesPure
  | .each _ _ items => ∀ v ∈ items, v.MessagesPure

structure Point.Clean (p : Point) : Prop where
  session : p.session.Clean
  code : p.code.Clean

theorem Code.Clean.run {code : Code} (h : code.Clean) (s : Setting) (room : Nat) (scene : Scene) :
    ExecM.Clean (code.run (outside s room) scene) fun _ ↦ True := by
  have ho := isClean_outside s room
  cases code with
  | stmt st site => exact st.clean_execWith ho scene site
  | block body => exact clean_execBlock ho scene body
  | call site name args => exact Outside.clean_call ho scene site name h
  | each site name items => exact Outside.clean_callEach ho scene site name h

/-- A run from a clean point leaves a clean session, and what it throws is a pure message. -/
theorem Point.Clean.run {p : Point} (hp : p.Clean) (s : Setting) :
    (p.run s).2.Clean ∧ ∀ f, (p.run s).1 = .error f → f.ThrowsMessage := by
  obtain ⟨hsession, hyields⟩ := hp.code.run s p.room p.scene p.session hp.session
  refine ⟨hsession, fun f hf ↦ ?_⟩
  have hresult : (p.code.run (outside s p.room) p.scene p.session).1 = .error f := hf
  rw [hresult] at hyields
  exact hyields

theorem Session.Clean.bound {t : Session} (ht : t.Clean) (env : Env) {bs : List (String × Value)}
    (hbs : ∀ b ∈ bs, b.2.MessagesPure) : (t.bound env bs).Clean :=
  ⟨⟨ht.emitted, ht.events⟩, ht.machine.bindAll env hbs, ht.store⟩

theorem Leads.clean {s : Setting} {p q : Point} (h : Leads s p q) (hp : p.Clean) : q.Clean := by
  cases h with
  | located | head => exact ⟨hp.session, trivial⟩
  | clause hv hmatch hclause =>
    have hpure : Value.MessagesPure _ := hp.session.machine.lookup hv
    refine ⟨hp.session.bound _ fun b hb ↦ ?_, trivial⟩
    exact hpure.part (Pattern.part_of_firstMatch hmatch b hb)
  | call hargs => exact ⟨hp.session, hp.session.machine.lookupAll hargs⟩
  | forEach hv hitems =>
    exact ⟨hp.session, messagesPure_of_elements (hp.session.machine.lookup hv) hitems⟩
  | @tail room scene st rest t u hst =>
    have hfirst : Point.Clean ⟨room, scene, .stmt st .dummy, t⟩ := ⟨hp.session, trivial⟩
    have hrun := (hfirst.run s).1
    simp only [Point.run, Code.run, hst] at hrun
    exact ⟨hrun, trivial⟩
  | invoke hcall =>
    refine ⟨hp.session.bound _ (List.forall_mem_append.mpr ⟨?_, ?_⟩), trivial⟩
    · have hbinds := hp.session.machine
      simpa using ⟨hbinds.lookup hcall.sender, hbinds.lookup hcall.origin,
        hbinds.lookup hcall.amount⟩
    · exact messagesPure_of_positionalBindings hp.code hcall.own
  | first room scene site name item items t =>
    obtain ⟨hitem, -⟩ := List.forall_mem_cons.mp hp.code
    exact ⟨hp.session, List.forall_mem_singleton.mpr hitem⟩
  | @next room scene site name item items t u hcall =>
    obtain ⟨hitem, hitems⟩ := List.forall_mem_cons.mp hp.code
    have hfirst : Point.Clean ⟨room, scene, .call site name [item], t⟩ :=
      ⟨hp.session, List.forall_mem_singleton.mpr hitem⟩
    have hrun := (hfirst.run s).1
    simp only [Point.run, Code.run, hcall] at hrun
    exact ⟨hrun, hitems⟩

theorem Reaches.clean {s : Setting} {p q : Point} (h : Reaches s p q) (hp : p.Clean) :
    q.Clean := by
  induction h with
  | refl => exact hp
  | tail _ hlead ih => exact hlead.clean ih

end MeteredContract
