import MeteredContract.Eval.Atom
import MeteredContract.Proofs.Run

/-!
What it takes for an atom to be read. A name has the value, or the type, of the frame that is found
for it (`Arena.lookup_eq_ok`, `Arena.lookupType?_eq_some`). Messages, constructor applications and
calls of primitives come to nothing but the values of the names in them.
-/

set_option autoImplicit false
set_option relaxedAutoImplicit false

namespace MeteredContract.Arena

variable {a : Arena} {env : Env}

/-! ### Names -/

theorem lookup_eq_ok {x : String} {v : Value} :
    a.lookup env x = .ok v ↔ ∃ f, a.find? env x = some f ∧ f.binding = .value v := by
  unfold lookup
  cases a.find? env x with
  | none => simp
  | some f =>
    obtain ⟨name, binding, parent⟩ := f
    cases binding <;> simp

theorem lookupType?_eq_some {x : String} {t : Ty} :
    a.lookupType? env x = some t ↔ ∃ f, a.find? env x = some f ∧ f.binding = .type t := by
  unfold lookupType?
  cases a.find? env x with
  | none => simp
  | some f =>
    obtain ⟨name, binding, parent⟩ := f
    cases binding <;> simp

theorem eq_of_lookup_eq_error {name : String} {c : Cause} (h : a.lookup env name = .error c) :
    c = .unboundIdentifier name := by
  unfold lookup at h
  split at h
  · cases h
  · exact (Except.error.inj h).symm

theorem lookupAll_cons_eq_ok {name : String} {names : List String} {vs : List Value} :
    a.lookupAll env (name :: names) = .ok vs ↔
      ∃ w ws, vs = w :: ws ∧ a.lookup env name = .ok w ∧ a.lookupAll env names = .ok ws := by
  rw [lookupAll, except_bind_eq_ok]
  constructor
  · rintro ⟨w, hw, h⟩
    obtain ⟨ws, hws, h⟩ := except_bind_eq_ok.mp h
    cases h
    exact ⟨w, ws, rfl, hw, hws⟩
  · rintro ⟨w, ws, rfl, hw, hws⟩
    exact ⟨w, hw, except_bind_eq_ok.mpr ⟨ws, hws, rfl⟩⟩

theorem exists_lookup_of_mem {names : List String} {vs : List Value}
    (h : a.lookupAll env names = .ok vs) {v : Value} (hv : v ∈ vs) :
    ∃ name ∈ names, a.lookup env name = .ok v := by
  induction names generalizing vs with
  | nil =>
    cases h
    cases hv
  | cons name names ih =>
    obtain ⟨w, ws, rfl, hw, hws⟩ := lookupAll_cons_eq_ok.mp h
    rcases List.mem_cons.mp hv with rfl | hv
    · exact ⟨name, List.mem_cons_self, hw⟩
    · obtain ⟨name', hmem, hlookup⟩ := ih hws hv
      exact ⟨name', List.mem_cons_of_mem name hmem, hlookup⟩

theorem exists_of_lookupAll_eq_error {names : List String} {c : Cause}
    (h : a.lookupAll env names = .error c) : ∃ name ∈ names, c = .unboundIdentifier name := by
  induction names with
  | nil => cases h
  | cons name names ih =>
    rw [lookupAll] at h
    cases hw : a.lookup env name with
    | error c' =>
      rw [hw] at h
      cases h
      exact ⟨name, List.mem_cons_self, eq_of_lookup_eq_error hw⟩
    | ok w =>
      rw [hw] at h
      cases hws : a.lookupAll env names with
      | error c' =>
        rw [hws] at h
        cases h
        obtain ⟨name', hmem, hc⟩ := ih hws
        exact ⟨name', List.mem_cons_of_mem name hmem, hc⟩
      | ok ws =>
        rw [hws] at h
        cases h

/-! ### Messages, constructors and primitives -/

/-- Every entry of a message comes from one in the code, and was found to be sendable. -/
theorem exists_payload_of_mem {entries : List (String × Payload)} {es : List MessageEntry}
    (h : a.messageEntries env entries = .ok es) {e : MessageEntry} (he : e ∈ es) :
    ∃ p, (e.name, p) ∈ entries ∧ a.payload env p = .ok e.value ∧ e.value.typeOf? = some e.ty ∧
      e.value.isSendable = true := by
  induction entries generalizing es with
  | nil =>
    cases h
    cases he
  | cons entry rest ih =>
    obtain ⟨name, payload⟩ := entry
    obtain ⟨v, hv, h⟩ := except_bind_eq_ok.mp h
    split at h
    · next t htype hsend =>
      obtain ⟨others, hothers, h⟩ := except_bind_eq_ok.mp h
      cases h
      rcases List.mem_cons.mp he with rfl | he
      · exact ⟨payload, List.mem_cons_self, hv, htype, hsend⟩
      · obtain ⟨p, hp, hfound⟩ := ih hothers he
        exact ⟨p, List.mem_cons_of_mem _ hp, hfound⟩
    · cases h

theorem exists_of_construct {types : Datatypes} {name : String} {targs : List Ty}
    {args : List String} {v : Value} (h : a.construct env types name targs args = .ok v) :
    ∃ tyName vs, a.lookupAll env args = .ok vs ∧
      v = .data tyName name (targs.map (a.runtimeTy env)) vs := by
  unfold construct at h
  split at h
  · cases h
  · split at h
    · obtain ⟨vs, hvs, h⟩ := except_bind_eq_ok.mp h
      cases h
      exact ⟨_, vs, hvs, rfl⟩
    · cases h

/-- A call is that of the primitive which was found by the types of the values of the names. -/
theorem exists_of_primitiveCall {op : String} {args : List String} {call : PrimitiveCall}
    (h : a.primitiveCall env op args = .ok call) :
    ∃ ts, a.lookupAll env args = .ok call.args ∧ Value.typesFor op call.args = .ok ts ∧
      Primitive.find op ts = .ok (call.op, call.ret) ∧ Gas.price op ts args = .ok call.price := by
  obtain ⟨vs, hvs, h⟩ := except_bind_eq_ok.mp h
  obtain ⟨ts, hts, h⟩ := except_bind_eq_ok.mp h
  obtain ⟨⟨p, ret⟩, hfind, h⟩ := except_bind_eq_ok.mp h
  obtain ⟨price, hprice, h⟩ := except_bind_eq_ok.mp h
  cases h
  exact ⟨ts, hvs, hts, hfind, hprice⟩

end MeteredContract.Arena
