import MeteredContract.Proofs.Scope.Immutability
import MeteredContract.Proofs.Scope.Renaming
import Mathlib.Data.Finset.Card

/-!
Arenas inside other arenas. An arena embeds in another one (`Arena.Embeds`) if its frames lie there,
in any places, with the handles renamed accordingly; which frames are frozen does not matter, nor
what else the other arena holds. Names then resolve to the same values up to the renaming, and so do
all parts of an evaluation that only read an environment: literals, constructor applications,
messages, prices and the choice of primitives.
-/

set_option autoImplicit false
set_option relaxedAutoImplicit false

namespace MeteredContract

/-- Two computations that agree after mapping either fail alike or give values that agree. -/
theorem except_map_eq_map {ε α β γ : Type} {x : Except ε α} {y : Except ε β} {f : α → γ}
    {g : β → γ} (h : x.map f = y.map g) :
    (∃ e, x = .error e ∧ y = .error e) ∨ ∃ u v, x = .ok u ∧ y = .ok v ∧ f u = g v := by
  cases x with
  | error e =>
    cases y with
    | error e' =>
      cases h
      exact .inl ⟨e, rfl, rfl⟩
    | ok v => cases h
  | ok u =>
    cases y with
    | error e' => cases h
    | ok v => exact .inr ⟨u, v, rfl, rfl, Except.ok.inj h⟩

def Binding.relabel (φ : Nat → Nat) : Binding → Binding
  | .value v => .value (v.relabel φ)
  | .type t => .type t
  | .pending => .pending

def Frame.relabel (φ : Nat → Nat) (f : Frame) : Frame :=
  ⟨f.name, f.binding.relabel φ, f.parent.rename φ⟩

/-- The second frame is the first one with its parent and the scopes in its value renamed. -/
def Frame.Renamed (φ : Nat → Nat) (f g : Frame) : Prop := g.relabel id = f.relabel φ

theorem Frame.Renamed.name_eq {φ : Nat → Nat} {f g : Frame} (h : f.Renamed φ g) :
    g.name = f.name := by
  have heq : (g.relabel id).name = (f.relabel φ).name := congrArg Frame.name h
  exact heq

theorem Frame.Renamed.parent_eq {φ : Nat → Nat} {f g : Frame} (h : f.Renamed φ g) :
    g.parent = f.parent.rename φ := by
  have heq : (g.relabel id).parent = (f.relabel φ).parent := congrArg Frame.parent h
  rw [relabel, relabel, Env.rename_id] at heq
  exact heq

/-! ### Renamings that agree on the frames there are -/

section Agreement

variable {φ ψ : Nat → Nat} {n : Nat} (hagree : ∀ i, i < n → ψ i = φ i)

include hagree

theorem Env.rename_congr {env : Env} (henv : env.InRange n) : env.rename ψ = env.rename φ := by
  obtain ⟨top⟩ := env
  cases top with
  | none => rfl
  | some i => rw [rename, rename, Option.map_some, Option.map_some, hagree i (henv i rfl)]

theorem Value.relabel_of_obeys {v : Value} (hv : v.Obeys .handles n) :
    v.relabel ψ = v.relabel φ :=
  relabel_congr (Each.mono hv fun _ _ hscope ↦ Env.rename_congr hagree hscope.2)

theorem Frame.relabel_of_obeys {f : Frame} (hparent : f.parent.InRange n)
    (hvalue : ∀ v, f.binding = .value v → v.Obeys .handles n) : f.relabel ψ = f.relabel φ := by
  obtain ⟨name, binding, parent⟩ := f
  have hbinding : binding.relabel ψ = binding.relabel φ := by
    cases binding with
    | value v => rw [Binding.relabel, Binding.relabel, Value.relabel_of_obeys hagree (hvalue v rfl)]
    | _ => rfl
  rw [relabel, relabel, hbinding, Env.rename_congr hagree hparent]

end Agreement

/-! ### Embeddings -/

def PrimitiveCall.relabel (φ : Nat → Nat) (call : PrimitiveCall) : PrimitiveCall :=
  { call with args := call.args.map (Value.relabel φ) }

theorem Value.typesFor_relabel (φ : Nat → Nat) (op : String) (vs : List Value) :
    typesFor op (vs.map (relabel φ)) = typesFor op vs := by
  induction vs with
  | nil => rfl
  | cons v vs ih =>
    rw [List.map_cons, typesFor, typesFor, typeFor, typeFor, typeOf?_relabel, kind_relabel, ih]

namespace Arena

variable {a b : Arena} {φ ψ : Nat → Nat} {env : Env}

/-- The frames of the first arena lie in the second one, each at the place that `φ` gives it. -/
structure Embeds (φ : Nat → Nat) (a b : Arena) : Prop where
  injective : ∀ i j, i < a.size → j < a.size → φ i = φ j → i = j
  frame : ∀ {i f}, a.frame? i = some f → ∃ g, b.frame? (φ i) = some g ∧ f.Renamed φ g

theorem Embeds.lt_size (h : a.Embeds φ b) {i : Nat} (hi : i < a.size) : φ i < b.size := by
  obtain ⟨f, hf⟩ := frame?_of_lt_size hi
  obtain ⟨g, hg, -⟩ := h.frame hf
  exact lt_size_of_frame? hg

theorem Embeds.size_le (h : a.Embeds φ b) : a.size ≤ b.size := by
  have hmaps : ∀ i ∈ Finset.range a.size, φ i ∈ Finset.range b.size := by
    intro i hi
    exact Finset.mem_range.mpr (h.lt_size (Finset.mem_range.mp hi))
  have hinj : Set.InjOn φ (Finset.range a.size) := by
    intro i hi j hj
    exact h.injective i j (Finset.mem_range.mp hi) (Finset.mem_range.mp hj)
  simpa using Finset.card_le_card_of_injOn φ hmaps hinj

/-- Every arena embeds in its frozen form. -/
theorem embeds_freeze (a : Arena) : a.Embeds id (ofFrozen a.freeze) where
  injective _ _ _ _ h := h
  frame {i f} hf := ⟨f, by rw [id, frame?_ofFrozen_freeze, hf], rfl⟩

/-- An arena embeds in those that it grows to. -/
theorem Grows.embeds (h : a.Grows b) : a.Embeds id b where
  injective _ _ _ _ h := h
  frame {_ f} hf := ⟨f, h.frame?_eq hf, rfl⟩

/-- A frame that is added to both arenas extends the renaming by its place. -/
theorem Embeds.push (h : a.Embeds φ b) (ha : a.WellFormed) {f g : Frame}
    (hparent : f.parent.InRange a.size)
    (hvalue : ∀ v, f.binding = .value v → v.Obeys .handles a.size) (hfg : f.Renamed φ g) :
    (a.push f).1.Embeds (Function.update φ a.size b.size) (b.push g).1 := by
  have hagree : ∀ i, i < a.size → Function.update φ a.size b.size i = φ i :=
    fun i hi ↦ Function.update_of_ne (Nat.ne_of_lt hi) _ _
  have htop : Function.update φ a.size b.size a.size = b.size := Function.update_self ..
  constructor
  · intro i j hi hj hij
    rw [size_push] at hi hj
    rcases Nat.lt_succ_iff_lt_or_eq.mp hi with hi | rfl
    · rcases Nat.lt_succ_iff_lt_or_eq.mp hj with hj | rfl
      · rw [hagree i hi, hagree j hj] at hij
        exact h.injective i j hi hj hij
      · rw [hagree i hi, htop] at hij
        exact absurd hij (Nat.ne_of_lt (h.lt_size hi))
    · rcases Nat.lt_succ_iff_lt_or_eq.mp hj with hj | rfl
      · rw [hagree j hj, htop] at hij
        exact absurd hij.symm (Nat.ne_of_lt (h.lt_size hj))
      · rfl
  · intro i f' hf'
    rw [frame?_push] at hf'
    split at hf'
    · next hi =>
      cases hf'
      subst hi
      refine ⟨g, by rw [htop, frame?_push, if_pos rfl], ?_⟩
      rw [Frame.Renamed, Frame.relabel_of_obeys hagree hparent hvalue]
      exact hfg
    · have hi := lt_size_of_frame? hf'
      obtain ⟨g', hg', hrenamed⟩ := h.frame hf'
      have hrange : f'.parent.InRange a.size := fun j hj ↦
        Nat.lt_trans (ha.parent hf' j hj) hi
      refine ⟨g', ?_, ?_⟩
      · rw [hagree i hi, frame?_push, if_neg (Nat.ne_of_lt (h.lt_size hi)), hg']
      · rw [Frame.Renamed, Frame.relabel_of_obeys hagree hrange fun v hv ↦ ha.sound.value hf' hv]
        exact hrenamed

/-- Giving corresponding frames values that correspond. -/
theorem Embeds.set (h : a.Embeds φ b) {i : Nat} (hi : i < a.size) {v w : Value}
    (hvw : v.Renamed φ w) : (a.set ⟨some i⟩ v).Embeds φ (b.set ⟨some (φ i)⟩ w) := by
  constructor
  · intro j k hj hk
    rw [size_set] at hj hk
    exact h.injective j k hj hk
  · intro j f' hf'
    rw [frame?_set] at hf'
    split at hf'
    · next heq =>
      cases heq
      obtain ⟨f, hf, rfl⟩ := Option.map_eq_some_iff.mp hf'
      obtain ⟨g, hg, hrenamed⟩ := h.frame hf
      refine ⟨{ g with binding := .value w }, ?_, ?_⟩
      · rw [frame?_set, if_pos rfl, hg, Option.map_some]
      · rw [Frame.Renamed, Frame.relabel, Frame.relabel, Binding.relabel, Binding.relabel,
          hrenamed.name_eq, hrenamed.parent_eq, Env.rename_id, hvw]
    · next hne =>
      obtain ⟨g, hg, hrenamed⟩ := h.frame hf'
      have hne' : ¬ (some (φ i) = some (φ j)) := by
        intro heq
        have hij := h.injective i j hi (lt_size_of_frame? hf') (Option.some.inj heq)
        exact hne (by rw [hij])
      exact ⟨g, by rw [frame?_set, if_neg hne', hg], hrenamed⟩

/-! ### Names under a renaming -/

theorem Chain.walk_eq {fs : List Frame} (h : Chain a env fs) {n : Nat} (hn : fs.length ≤ n) :
    a.walk n env = fs := by
  induction h generalizing n with
  | done => cases n <;> rfl
  | step hf _ ih =>
    obtain ⟨k, rfl⟩ : ∃ k, n = k + 1 := ⟨n - 1, by simp only [List.length_cons] at hn; omega⟩
    rw [walk, Option.bind_some, hf]
    simp only
    rw [ih (by simpa using hn)]

theorem Embeds.chain (h : a.Embeds φ b) {fs : List Frame} (hfs : Chain a env fs) :
    ∃ gs, Chain b (env.rename φ) gs ∧ gs.map (Frame.relabel id) = fs.map (Frame.relabel φ) := by
  induction hfs with
  | done => exact ⟨[], .done, rfl⟩
  | @step i f rest hf _ ih =>
    obtain ⟨gs, hgs, hrest⟩ := ih
    obtain ⟨g, hg, hrenamed⟩ := h.frame hf
    refine ⟨g :: gs, .step hg (hrenamed.parent_eq ▸ hgs), ?_⟩
    rw [List.map_cons, List.map_cons, hrenamed, hrest]

/-- A lookup reads the binding of the frame that is found, so it goes along with relabelling. -/
theorem lookup_relabel (a : Arena) (env : Env) (x : String) (χ : Nat → Nat) :
    (a.lookup env x).map (Value.relabel χ) =
      match (a.find? env x).map (Frame.relabel χ) with
      | some ⟨_, .value v, _⟩ => .ok v
      | _ => .error (.unboundIdentifier x) := by
  unfold lookup
  cases a.find? env x with
  | none => rfl
  | some f =>
    obtain ⟨name, binding, parent⟩ := f
    cases binding <;> rfl

theorem lookupType?_relabel (a : Arena) (env : Env) (x : String) (χ : Nat → Nat) :
    a.lookupType? env x =
      match (a.find? env x).map (Frame.relabel χ) with
      | some ⟨_, .type t, _⟩ => some t
      | _ => none := by
  unfold lookupType?
  cases a.find? env x with
  | none => rfl
  | some f =>
    obtain ⟨name, binding, parent⟩ := f
    cases binding <;> rfl

section Atoms

variable (h : a.Embeds φ b) (ha : a.WellFormed) (henv : env.InRange a.size)

include h ha henv

theorem Embeds.find? (x : String) :
    (b.find? (env.rename φ) x).map (Frame.relabel id) = (a.find? env x).map (Frame.relabel φ) := by
  obtain ⟨hchain, hlength⟩ := chain_complete ha.sound henv
  obtain ⟨gs, hgs, heq⟩ := h.chain hchain
  have hcount : gs.length = (a.chain env).length := by
    simpa using congrArg List.length heq
  have hwalk : b.chain (env.rename φ) = gs := by
    refine hgs.walk_eq ?_
    have hle := h.size_le
    omega
  have hfind : ∀ (χ : Nat → Nat) (fs : List Frame), (fs.find? (·.name = x)).map (Frame.relabel χ) =
      (fs.map (Frame.relabel χ)).find? (·.name = x) := by
    intro χ fs
    rw [List.find?_map]
    rfl
  rw [Arena.find?, Arena.find?, hwalk, hfind, hfind, heq]

theorem Embeds.lookup (x : String) :
    (b.lookup (env.rename φ) x).map (Value.relabel id) =
      (a.lookup env x).map (Value.relabel φ) := by
  rw [lookup_relabel, lookup_relabel, h.find? ha henv x]

theorem Embeds.resolveTy (t : Ty) : b.resolveTy (env.rename φ) t = a.resolveTy env t := by
  have htypes : b.lookupType? (env.rename φ) = a.lookupType? env := by
    ext1 x
    rw [lookupType?_relabel b _ x id, lookupType?_relabel a _ x φ, h.find? ha henv x]
  rw [Arena.resolveTy, Arena.resolveTy, htypes]

theorem Embeds.lookupAll (xs : List String) :
    (b.lookupAll (env.rename φ) xs).map (List.map (Value.relabel id)) =
      (a.lookupAll env xs).map (List.map (Value.relabel φ)) := by
  induction xs with
  | nil => rfl
  | cons x xs ih =>
    rw [Arena.lookupAll, Arena.lookupAll]
    rcases except_map_eq_map (h.lookup ha henv x) with ⟨e, hb, hx⟩ | ⟨w, v, hb, hx, hv⟩
    · rw [hb, hx]
      rfl
    · rw [hb, hx]
      rcases except_map_eq_map ih with ⟨e, hb, hxs⟩ | ⟨ws, vs, hb, hxs, hvs⟩
      · rw [hb, hxs]
        rfl
      · rw [hb, hxs]
        show Except.ok (w.relabel id :: ws.map (Value.relabel id)) =
          .ok (v.relabel φ :: vs.map (Value.relabel φ))
        rw [hv, hvs]

theorem Embeds.runtimeTy (t : Ty) : b.runtimeTy (env.rename φ) t = a.runtimeTy env t := by
  rw [Arena.runtimeTy, Arena.runtimeTy, h.resolveTy ha henv]

theorem Embeds.literal (l : Literal) :
    (b.literal (env.rename φ) l).map (Value.relabel id) =
      (a.literal env l).map (Value.relabel φ) := by
  have heq : b.literal (env.rename φ) l = a.literal env l := by
    cases l with
    | emptyMap k v =>
      rw [Arena.literal, Arena.literal, h.runtimeTy ha henv, h.runtimeTy ha henv]
    | _ => rfl
  rw [heq]
  cases hl : a.literal env l with
  | error e => rfl
  | ok v =>
    have hv : v.isPure = true := (Value.isPure_iff v).mpr (a.eachOk_literal env l v hl)
    rw [Except.map, Except.map, Value.relabel_of_isPure hv, Value.relabel_of_isPure hv]

theorem Embeds.construct (types : Datatypes) (name : String) (targs : List Ty)
    (args : List String) :
    (b.construct (env.rename φ) types name targs args).map (Value.relabel id) =
      (a.construct env types name targs args).map (Value.relabel φ) := by
  have htargs : targs.map (b.runtimeTy (env.rename φ)) = targs.map (a.runtimeTy env) :=
    List.map_congr_left fun t _ ↦ h.runtimeTy ha henv t
  unfold Arena.construct
  split
  · rfl
  · next info _ =>
    split
    · rw [htargs]
      rcases except_map_eq_map (h.lookupAll ha henv args) with ⟨e, hb, hxs⟩ | ⟨ws, vs, hb, hxs, hvs⟩
      · rw [hb, hxs]
        rfl
      · rw [hb, hxs]
        show Except.ok (Value.relabel id (.data info.tyName name _ ws)) =
          .ok (Value.relabel φ (.data info.tyName name _ vs))
        rw [Value.relabel_data, Value.relabel_data, hvs]
    · rfl

theorem Embeds.payload (p : Payload) :
    (b.payload (env.rename φ) p).map (Value.relabel id) =
      (a.payload env p).map (Value.relabel φ) := by
  cases p with
  | lit l => exact h.literal ha henv l
  | var x => exact h.lookup ha henv x

theorem Embeds.messageEntries (entries : List (String × Payload)) :
    (b.messageEntries (env.rename φ) entries).map (Value.relabelMessage id) =
      (a.messageEntries env entries).map (Value.relabelMessage φ) := by
  induction entries with
  | nil => rfl
  | cons entry rest ih =>
    obtain ⟨name, p⟩ := entry
    rw [Arena.messageEntries, Arena.messageEntries]
    rcases except_map_eq_map (h.payload ha henv p) with ⟨e, hb, hp⟩ | ⟨w, v, hb, hp, hv⟩
    · rw [hb, hp]
      rfl
    · have htype : w.typeOf? = v.typeOf? := by
        rw [← Value.typeOf?_relabel id w, hv, Value.typeOf?_relabel]
      have hsend : w.isSendable = v.isSendable := by
        rw [← Value.isSendable_relabel id w, hv, Value.isSendable_relabel]
      rw [hb, hp]
      simp only [Bind.bind, Except.bind, htype, hsend]
      split
      · next t _ _ =>
        rcases except_map_eq_map ih with ⟨e, hb, hes⟩ | ⟨es', es, hb, hes, heq⟩
        · rw [hb, hes]
          rfl
        · rw [hb, hes]
          show Except.ok (⟨name, t, w.relabel id⟩ :: Value.relabelMessage id es') =
            .ok (⟨name, t, v.relabel φ⟩ :: Value.relabelMessage φ es)
          rw [hv, heq]
      · rfl

theorem Embeds.resolve (c : Charge) :
    Gas.resolve (b.lookup (env.rename φ)) c = Gas.resolve (a.lookup env) c := by
  have hlookup : (fun x ↦ (b.lookup (env.rename φ) x).map (Value.relabel id)) =
      fun x ↦ (a.lookup env x).map (Value.relabel φ) := funext (h.lookup ha henv)
  rw [Gas.resolve, Gas.resolve, ← Gas.evaluate_relabel id, ← Gas.evaluate_relabel φ (a.lookup env),
    hlookup]

theorem Embeds.primitiveCall (op : String) (args : List String) :
    (b.primitiveCall (env.rename φ) op args).map (PrimitiveCall.relabel id) =
      (a.primitiveCall env op args).map (PrimitiveCall.relabel φ) := by
  rw [Arena.primitiveCall, Arena.primitiveCall]
  rcases except_map_eq_map (h.lookupAll ha henv args) with ⟨e, hb, hxs⟩ | ⟨ws, vs, hb, hxs, hvs⟩
  · rw [hb, hxs]
    rfl
  · have htypes : Value.typesFor op ws = Value.typesFor op vs := by
      rw [← Value.typesFor_relabel id, hvs, Value.typesFor_relabel]
    rw [hb, hxs]
    simp only [Bind.bind, Except.bind, htypes]
    -- From here on only the types of the arguments are looked at.
    cases Value.typesFor op vs with
    | error e => rfl
    | ok ts =>
      cases hfind : Primitive.find op ts with
      | error e => simp only [hfind, Except.map]
      | ok found =>
        cases hprice : Gas.price op ts args with
        | error e => simp only [hfind, hprice, Except.map]
        | ok price =>
          simp only [hfind, hprice, Pure.pure, Except.pure, Except.map, PrimitiveCall.relabel, hvs]

end Atoms

end Arena

end MeteredContract
