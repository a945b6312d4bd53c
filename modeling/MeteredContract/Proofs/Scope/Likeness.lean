import MeteredContract.Proofs.Primitive.Signature
import MeteredContract.Proofs.Scope.Embedding

/-!
Machines that are alike. Two machines are alike under a renaming of frames (`Machine.Alike`) if the
arena of the first embeds in that of the second and they have the same gas left. Computations agree
from there (`EvalM.Agree`) if they end in machines that are alike, under a renaming that also covers
the frames that were added, and in the same fault or in results that correspond. Each frame that is
pushed extends the renaming by one place, and filling in a frame keeps it. The one thing that could
tell the two apart is the order of closures, so no closure may be in the key of a map.
-/

set_option autoImplicit false
set_option relaxedAutoImplicit false

namespace MeteredContract

/-! ### Machines that are alike -/

/-- No key of a map that a frame binds holds a closure. -/
def Arena.KeysPure (a : Arena) : Prop := a.Binds Value.KeysPure

/-- The two machines have the same gas, and the frames of the first lie in the second. -/
structure Machine.Alike (φ : Nat → Nat) (m m' : Machine) : Prop where
  gas : m'.gas = m.gas
  arena : m.arena.WellFormed
  keys : m.arena.KeysPure
  embeds : m.arena.Embeds φ m'.arena

/-- The renaming `ψ` for the later arenas `c` and `d` extends `φ` to the frames that were added,
which lie among those that were added to the other arena. -/
structure Renaming.Extends (φ ψ : Nat → Nat) (a b c d : Arena) : Prop where
  size_le : a.size ≤ c.size
  size_le' : b.size ≤ d.size
  old : ∀ i, i < a.size → ψ i = φ i
  new : ∀ i, a.size ≤ i → i < c.size → b.size ≤ ψ i

/-- The closures of the first value lie in an arena of that many frames, and the second value is the
same up to the renaming. -/
structure Value.Twin (φ : Nat → Nat) (frames : Nat) (v w : Value) : Prop where
  obeys : v.Obeys .handles frames
  renamed : v.Renamed φ w

namespace Renaming.Extends

variable {φ ψ χ : Nat → Nat} {a b c d a' b' : Arena}

theorem of_size_eq (φ : Nat → Nat) (hac : c.size = a.size) (hbd : d.size = b.size) :
    Extends φ φ a b c d where
  size_le := Nat.le_of_eq hac.symm
  size_le' := Nat.le_of_eq hbd.symm
  old _ _ := rfl
  new _ hle hlt := absurd (hac ▸ hlt) (Nat.not_lt.mpr hle)

theorem refl (φ : Nat → Nat) (a b : Arena) : Extends φ φ a b a b := of_size_eq φ rfl rfl

theorem trans (h : Extends φ ψ a b c d) (h' : Extends ψ χ c d a' b') : Extends φ χ a b a' b' where
  size_le := Nat.le_trans h.size_le h'.size_le
  size_le' := Nat.le_trans h.size_le' h'.size_le'
  old i hi := (h'.old i (Nat.lt_of_lt_of_le hi h.size_le)).trans (h.old i hi)
  new i hle hlt := by
    by_cases hi : i < c.size
    · rw [h'.old i hi]
      exact h.new i hle hi
    · exact Nat.le_trans h.size_le' (h'.new i (Nat.not_lt.mp hi) hlt)

theorem twin (h : Extends φ ψ a b c d) {v w : Value} (hvw : v.Twin φ a.size w) :
    v.Twin ψ c.size w where
  obeys := hvw.obeys.mono h.size_le
  renamed := hvw.renamed.trans (Value.relabel_of_obeys h.old hvw.obeys).symm

end Renaming.Extends

open Renaming

/-- What is asked of a frame that is added to an arena of that many frames. -/
structure Frame.Fits (frames : Nat) (f : Frame) : Prop where
  parent : f.parent.InRange frames
  obeys : ∀ v, f.binding = .value v → v.Obeys .handles frames
  keys : ∀ v, f.binding = .value v → v.KeysPure

theorem Frame.Fits.value {frames : Nat} (x : String) {v : Value} {env : Env}
    (henv : env.InRange frames) (hv : v.Obeys .handles frames) (hkeys : v.KeysPure) :
    Frame.Fits frames ⟨x, .value v, env⟩ where
  parent := henv
  obeys := by
    rintro _ ⟨⟩
    exact hv
  keys := by
    rintro _ ⟨⟩
    exact hkeys

theorem Frame.Renamed.value {φ : Nat → Nat} (x : String) (env : Env) {v w : Value}
    (h : v.Renamed φ w) : Frame.Renamed φ ⟨x, .value v, env⟩ ⟨x, .value w, env.rename φ⟩ := by
  rw [Renamed, relabel, relabel, Binding.relabel, Binding.relabel, Env.rename_id, h]

theorem Arena.inRange_push (a : Arena) (f : Frame) : (a.push f).2.InRange (a.push f).1.size := by
  rw [size_push, push_top]
  exact Discipline.handles.scope_top a.size

namespace Machine.Alike

variable {φ : Nat → Nat} {m m' : Machine}

/-- Names have the same values up to the renaming. -/
theorem lookup (hm : m.Alike φ m') {env : Env} (henv : env.InRange m.arena.size) (x : String) :
    (∃ c, m.arena.lookup env x = .error c ∧ m'.arena.lookup (env.rename φ) x = .error c) ∨
      ∃ v w, m.arena.lookup env x = .ok v ∧ m'.arena.lookup (env.rename φ) x = .ok w ∧
        v.Twin φ m.arena.size w ∧ v.KeysPure := by
  rcases except_map_eq_map (hm.embeds.lookup hm.arena henv x) with ⟨c, hb, ha⟩ | ⟨w, v, hb, ha, heq⟩
  · exact .inl ⟨c, ha, hb⟩
  · have htwin : v.Twin φ m.arena.size w := ⟨hm.arena.sound.lookup env x v ha, heq⟩
    exact .inr ⟨v, w, ha, hb, htwin, Arena.Binds.lookup hm.keys ha⟩

theorem push (hm : m.Alike φ m') {f g : Frame} (hf : f.Fits m.arena.size) (hfg : f.Renamed φ g) :
    ∃ ψ, Extends φ ψ m.arena m'.arena (m.arena.push f).1 (m'.arena.push g).1 ∧
      (m.scoped (m.arena.push f)).Alike ψ (m'.scoped (m'.arena.push g)) ∧
      (m'.arena.push g).2 = (m.arena.push f).2.rename ψ := by
  refine ⟨Function.update φ m.arena.size m'.arena.size, ?_, ?_, ?_⟩
  · constructor
    · exact (Arena.grows_push _ _).size_le
    · exact (Arena.grows_push _ _).size_le
    · intro i hi
      exact Function.update_of_ne (Nat.ne_of_lt hi) _ _
    · intro i hle hlt
      rw [Arena.size_push] at hlt
      obtain rfl : i = m.arena.size := by omega
      rw [Function.update_self]
  · constructor
    · exact hm.gas
    · exact (hm.arena.sound.push hf.parent hf.obeys).wellFormed
    · exact Arena.Binds.push hm.keys hf.keys
    · exact hm.embeds.push hm.arena hf.parent hf.obeys hfg
  · show Env.mk (some m'.arena.size) = ⟨some (Function.update φ _ _ m.arena.size)⟩
    rw [Function.update_self]

theorem bindAll (hm : m.Alike φ m') {env env' : Env} (henv : env.InRange m.arena.size)
    (henv' : env' = env.rename φ) {bs bs' : List (String × Value)}
    (hbs : ∀ b ∈ bs, b.2.Obeys .handles m.arena.size ∧ b.2.KeysPure)
    (heq : Pattern.relabel id bs' = Pattern.relabel φ bs) :
    ∃ ψ, Extends φ ψ m.arena m'.arena (m.arena.bindAll env bs).1 (m'.arena.bindAll env' bs').1 ∧
      (m.scoped (m.arena.bindAll env bs)).Alike ψ (m'.scoped (m'.arena.bindAll env' bs')) ∧
      (m'.arena.bindAll env' bs').2 = (m.arena.bindAll env bs).2.rename ψ := by
  induction bs generalizing φ m m' env env' bs' with
  | nil =>
    obtain rfl : bs' = [] := by simpa [Pattern.relabel] using heq
    exact ⟨φ, .refl _ _ _, hm, henv'⟩
  | cons b bs ih =>
    obtain ⟨⟨hobeys, hkeys⟩, hrest⟩ := List.forall_mem_cons.mp hbs
    cases bs' with
    | nil => cases heq
    | cons b' bs' =>
      obtain ⟨x, v⟩ := b
      obtain ⟨x', w⟩ := b'
      obtain ⟨hhead, htail⟩ := List.cons.inj heq
      obtain ⟨rfl, hvw⟩ := Prod.mk.inj hhead
      subst henv'
      obtain ⟨ψ, hext, hpush, htop⟩ :=
        hm.push (.value _ henv hobeys hkeys) (.value x' env hvw)
      have hinner : (m.arena.bind env x' v).2.InRange (m.arena.bind env x' v).1.size :=
        m.arena.inRange_push _
      have hnext : Pattern.relabel id bs' = Pattern.relabel ψ bs := by
        refine htail.trans (List.map_congr_left fun b hb ↦ ?_)
        rw [Value.relabel_of_obeys hext.old (hrest b hb).1]
      have hrest' : ∀ b ∈ bs, b.2.Obeys .handles (m.arena.bind env x' v).1.size ∧ b.2.KeysPure :=
        fun b hb ↦ ⟨(hrest b hb).1.mono hext.size_le, (hrest b hb).2⟩
      obtain ⟨χ, hext', hdone, htop'⟩ := ih hpush hinner htop hrest' hnext
      exact ⟨χ, hext.trans hext', hdone, htop'⟩

theorem set (hm : m.Alike φ m') {i : Nat} (hi : i < m.arena.size) {v w : Value}
    (hvw : v.Twin φ m.arena.size w) (hkeys : v.KeysPure) :
    Alike φ ⟨m.arena.set ⟨some i⟩ v, m.gas⟩ ⟨m'.arena.set ⟨some (φ i)⟩ w, m'.gas⟩ where
  gas := hm.gas
  arena := (hm.arena.sound.set ⟨some i⟩ hvw.obeys).wellFormed
  keys := Arena.Binds.set hm.keys _ hkeys
  embeds := hm.embeds.set hi hvw.renamed

end Machine.Alike

/-! ### Runs that agree -/

namespace EvalM

variable {α : Type} {f : Arena → Except Cause α} {m : Machine}

theorem inspect_of_ok {r : α} (h : f m.arena = .ok r) : inspect f m = (.ok r, m) := by
  simp only [inspect, Run.read, h]

theorem inspect_of_error {c : Cause} (h : f m.arena = .error c) :
    inspect f m = (.error (.ofCause c), m) := by
  simp only [inspect, Run.read, h]

end EvalM

/-- Both results are faults, the same one, or values that are related. -/
inductive SameOutcome {α β : Type} (R : α → β → Prop) :
    Except Fault α → Except Fault β → Prop
  | ok {a : α} {b : β} (h : R a b) : SameOutcome R (.ok a) (.ok b)
  | error (e : Fault) : SameOutcome R (.error e) (.error e)

/-- The two runs, which started from `m` and `m'`, end alike, under an extension of `φ`. What is
asked of results may depend on it and on the number of frames. -/
def EvalM.Agree {α β : Type} (φ : Nat → Nat) (m m' : Machine)
    (post : (Nat → Nat) → Nat → α → β → Prop) (r : Except Fault α × Machine)
    (r' : Except Fault β × Machine) : Prop :=
  ∃ ψ, Extends φ ψ m.arena m'.arena r.2.arena r'.2.arena ∧ r.2.Alike ψ r'.2 ∧
    SameOutcome (post ψ r.2.arena.size) r.1 r'.1

namespace EvalM.Agree

variable {α β γ δ : Type} {φ ψ : Nat → Nat} {m m' n n' : Machine}
  {post : (Nat → Nat) → Nat → α → β → Prop} {post' : (Nat → Nat) → Nat → γ → δ → Prop}

theorem from_extends (h : Extends φ ψ m.arena m'.arena n.arena n'.arena)
    {r : Except Fault α × Machine} {r' : Except Fault β × Machine} (hr : Agree ψ n n' post r r') :
    Agree φ m m' post r r' := by
  obtain ⟨χ, hext, halike, houtcome⟩ := hr
  exact ⟨χ, h.trans hext, halike, houtcome⟩

theorem ok (hm : m.Alike φ m') {a : α} {b : β} (h : post φ m.arena.size a b) :
    Agree φ m m' post (.ok a, m) (.ok b, m') :=
  ⟨φ, .refl _ _ _, hm, .ok h⟩

theorem error (hm : m.Alike φ m') (e : Fault) : Agree φ m m' post (.error e, m) (.error e, m') :=
  ⟨φ, .refl _ _ _, hm, .error e⟩

theorem bind {x : EvalM α} {y : EvalM β} {f : α → EvalM γ} {g : β → EvalM δ}
    (hx : Agree φ m m' post (x m) (y m'))
    (hf : ∀ ψ a b n n', x m = (.ok a, n) →
      Extends φ ψ m.arena m'.arena n.arena n'.arena → n.Alike ψ n' → post ψ n.arena.size a b →
      Agree ψ n n' post' (f a n) (g b n')) :
    Agree φ m m' post' ((x >>= f) m) ((y >>= g) m') := by
  obtain ⟨ψ, hext, halike, houtcome⟩ := hx
  cases hrun : x m with
  | mk r n =>
    cases hrun' : y m' with
    | mk r' n' =>
      rw [hrun, hrun'] at hext halike houtcome
      cases houtcome with
      | ok hpost =>
        rw [Run.bind_of_ok hrun, Run.bind_of_ok hrun']
        exact from_extends hext (hf ψ _ _ n n' hrun hext halike hpost)
      | error e =>
        rw [Run.bind_of_error hrun, Run.bind_of_error hrun']
        exact ⟨ψ, hext, halike, .error e⟩

theorem annotate {x : EvalM α} {y : EvalM β} (hx : Agree φ m m' post (x m) (y m'))
    (h : Fault → Fault) : Agree φ m m' post (x.annotate h m) (y.annotate h m') := by
  obtain ⟨ψ, hext, halike, houtcome⟩ := hx
  unfold Run.annotate
  cases hrun : x m with
  | mk r n =>
    cases hrun' : y m' with
    | mk r' n' =>
      rw [hrun, hrun'] at hext halike houtcome
      cases houtcome with
      | ok hpost => exact ⟨ψ, hext, halike, .ok hpost⟩
      | error e => exact ⟨ψ, hext, halike, .error (h e)⟩

/-- Reading the arena and going on with what is read. -/
theorem inspect_bind (hm : m.Alike φ m') {f : Arena → Except Cause α} {g : Arena → Except Cause β}
    {k : α → EvalM γ} {l : β → EvalM δ}
    (h : (∃ c, f m.arena = .error c ∧ g m'.arena = .error c) ∨
      ∃ a b, f m.arena = .ok a ∧ g m'.arena = .ok b ∧ Agree φ m m' post' (k a m) (l b m')) :
    Agree φ m m' post' ((EvalM.inspect f >>= k) m) ((EvalM.inspect g >>= l) m') := by
  rcases h with ⟨c, hf, hg⟩ | ⟨a, b, hf, hg, hagree⟩
  · rw [Run.bind_of_error (inspect_of_error hf), Run.bind_of_error (inspect_of_error hg)]
    exact .error hm _
  · rw [Run.bind_of_ok (inspect_of_ok hf), Run.bind_of_ok (inspect_of_ok hg)]
    exact hagree

theorem lookup_bind (hm : m.Alike φ m') {env : Env} (henv : env.InRange m.arena.size) (x : String)
    {k : Value → EvalM γ} {l : Value → EvalM δ}
    (h : ∀ v w, m.arena.lookup env x = .ok v → v.Twin φ m.arena.size w → v.KeysPure →
      Agree φ m m' post' (k v m) (l w m')) :
    Agree φ m m' post' ((lookup env x >>= k) m) ((lookup (env.rename φ) x >>= l) m') := by
  refine inspect_bind hm ?_
  rcases hm.lookup henv x with ⟨c, hx, hx'⟩ | ⟨v, w, hx, hx', hvw, hkeys⟩
  · exact .inl ⟨c, hx, hx'⟩
  · exact .inr ⟨v, w, hx, hx', h v w hx hvw hkeys⟩

/-- Values that only depend on the environment. -/
theorem inspect (hm : m.Alike φ m') {f g : Arena → Except Cause Value}
    (heq : (g m'.arena).map (Value.relabel id) = (f m.arena).map (Value.relabel φ))
    (hobeys : ∀ v, f m.arena = .ok v → v.Obeys .handles m.arena.size) :
    Agree φ m m' Value.Twin (EvalM.inspect f m) (EvalM.inspect g m') := by
  rcases except_map_eq_map heq with ⟨c, hg, hf⟩ | ⟨w, v, hg, hf, hvw⟩
  · rw [inspect_of_error hf, inspect_of_error hg]
    exact .error hm _
  · rw [inspect_of_ok hf, inspect_of_ok hg]
    exact .ok hm ⟨hobeys v hf, hvw⟩

end EvalM.Agree

/-! ### Primitives -/

theorem Value.isPure_of_isComparable {v : Value} {t : Ty} (ht : v.typeOf? = some t)
    (h : t.isComparable = true) : v.isPure = true := by
  cases v with
  | closure | tyClosure => cases ht
  | data | map | message =>
    cases ht
    cases h
  | _ => rfl

/-- Comparing takes no closures. -/
theorem Primitive.isPure_of_find {op : String} {vs : List Value} {ts : List Ty} {ret : Ty}
    (hts : Value.typesFor op vs = .ok ts) (hfind : find op ts = .ok (.eq, ret)) :
    ∀ v ∈ vs, v.isPure = true := by
  cases takes_of_find (Value.haveTypes_of_typesFor hts) hfind with
  | eq ht hv hw =>
    simp only [List.mem_cons, List.not_mem_nil, or_false]
    rintro u (rfl | rfl)
    · exact Value.isPure_of_isComparable hv ht
    · exact Value.isPure_of_isComparable hw ht
  | arithmetic hp => exact absurd hp (by decide)

/-- A call that was chosen goes along with relabelling its arguments. -/
theorem Arena.run_of_primitiveCall {a : Arena} {env : Env} {op : String} {args : List String}
    {call : PrimitiveCall} (hcall : a.primitiveCall env op args = .ok call)
    (hkeys : ∀ v ∈ call.args, v.KeysPure) (φ : Nat → Nat) :
    (call.op.run call.args call.ret).map (Value.relabel φ) =
      call.op.run (call.args.map (Value.relabel φ)) call.ret := by
  obtain ⟨ts, -, hts, hfind, -⟩ := exists_of_primitiveCall hcall
  refine (Primitive.run_relabel hkeys (fun heq ↦ ?_) call.ret).symm
  rw [heq] at hfind
  exact Primitive.isPure_of_find hts hfind

theorem Arena.keysPure_of_primitiveCall {a : Arena} (ha : a.KeysPure) {env : Env} {op : String}
    {args : List String} {call : PrimitiveCall} (hcall : a.primitiveCall env op args = .ok call) :
    ∀ v ∈ call.args, v.KeysPure := by
  obtain ⟨ts, hvs, -⟩ := exists_of_primitiveCall hcall
  exact Binds.lookupAll ha hvs

namespace EvalM

variable {φ : Nat → Nat} {m m' : Machine} (hm : m.Alike φ m') {env : Env}
  (henv : env.InRange m.arena.size)

include hm henv

theorem agree_charge (c : Charge) :
    Agree φ m m' (fun _ _ _ _ ↦ True) (charge env c m) (charge (env.rename φ) c m') := by
  refine .inspect_bind hm ?_
  rw [hm.embeds.resolve hm.arena henv c]
  cases Gas.resolve (m.arena.lookup env) c with
  | error e => exact .inl ⟨e, rfl, rfl⟩
  | ok amount =>
    refine .inr ⟨amount, amount, rfl, rfl, ?_⟩
    unfold pay
    rw [hm.gas]
    cases Gas.pay m.gas amount with
    | error e => exact .error hm _
    | ok rest =>
      exact ⟨φ, .refl φ m.arena m'.arena, ⟨rfl, hm.arena, hm.keys, hm.embeds⟩, .ok trivial⟩

theorem agree_primitive (op : String) (args : List String) :
    Agree φ m m' Value.Twin (primitive env op args m) (primitive (env.rename φ) op args m') := by
  refine .inspect_bind hm ?_
  rcases except_map_eq_map (hm.embeds.primitiveCall hm.arena henv op args) with
    ⟨c, hcall', hcall⟩ | ⟨call', call, hcall', hcall, heq⟩
  · exact .inl ⟨c, hcall, hcall'⟩
  · refine .inr ⟨call, call', hcall, hcall', ?_⟩
    have hobeys := Arena.each_of_primitiveCall (hm.arena.sound.lookup env) hcall
    obtain ⟨op', args', ret', price'⟩ := call'
    obtain ⟨rfl, hargs, rfl, rfl⟩ := PrimitiveCall.mk.inj heq
    have hkeys := Arena.keysPure_of_primitiveCall hm.keys hcall
    have hkeys' : ∀ w ∈ args', w.KeysPure := by
      intro w hw
      obtain ⟨v, hv, hvw⟩ := List.mem_map.mp (hargs ▸ List.mem_map_of_mem hw)
      exact Value.Renamed.keysPure (v := v) hvw.symm (hkeys v hv)
    have hresult : (call.op.run args' call.ret).map (Value.relabel id) =
        (call.op.run call.args call.ret).map (Value.relabel φ) := by
      have hrun' := Arena.run_of_primitiveCall hcall' hkeys' id
      rw [Arena.run_of_primitiveCall hcall hkeys φ, ← hargs]
      exact hrun'
    refine .bind (agree_charge hm henv call.price) fun ψ _ _ n n' _ hext hn _ ↦ ?_
    rcases except_map_eq_map hresult with ⟨c, hrun', hrun⟩ | ⟨w, v, hrun', hrun, hvw⟩
    · rw [hrun', hrun]
      exact .error hn _
    · rw [hrun', hrun]
      exact .ok hn (hext.twin ⟨hobeys v hrun, hvw⟩)

end EvalM

end MeteredContract
