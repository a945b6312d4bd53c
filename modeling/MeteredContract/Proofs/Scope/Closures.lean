import MeteredContract.Proofs.Evaluation.Atom
import MeteredContract.Proofs.Induction
import MeteredContract.Proofs.Primitive
import MeteredContract.Proofs.Run
import MeteredContract.Proofs.Value.Entries
import MeteredContract.Proofs.Value.Match

/-!
The closures in a value. `Value.Captures` finds them at any depth, in constructor arguments, map
keys and values and message entries; `Value.Each` says something of all of them. What values are
taken apart into, and what is built from values, holds no other closures than they do.
-/

set_option autoImplicit false
set_option relaxedAutoImplicit false

namespace MeteredContract

namespace Value

/-- A closure or type closure with this body and scope occurs in the value. -/
inductive Captures (body : Expr) (env : Env) : Value → Prop
  | closure (id : ClosureId) (param : String) (ty : Ty) :
    Captures body env (.closure id param ty body env)
  | tyClosure (id : ClosureId) (tvar : String) : Captures body env (.tyClosure id tvar body env)
  | arg {tyName constructor : String} {targs : List Ty} {args : List Value} {v : Value}
    (hv : v ∈ args) (h : Captures body env v) :
    Captures body env (.data tyName constructor targs args)
  | key {m : MapValue} {e : Value × Value} (he : e ∈ m.entries) (h : Captures body env e.1) :
    Captures body env (.map m)
  | val {m : MapValue} {e : Value × Value} (he : e ∈ m.entries) (h : Captures body env e.2) :
    Captures body env (.map m)
  | entry {es : List MessageEntry} {e : MessageEntry} (he : e ∈ es)
    (h : Captures body env e.value) : Captures body env (.message es)

/-- Every closure in the value satisfies `p`. -/
def Each (p : Expr → Env → Prop) (v : Value) : Prop := ∀ body env, Captures body env v → p body env

variable {p : Expr → Env → Prop}

theorem Each.mono {q : Expr → Env → Prop} {v : Value} (h : v.Each p)
    (himp : ∀ body env, p body env → q body env) : v.Each q :=
  fun body env hv ↦ himp body env (h body env hv)

@[simp] theorem each_int (i : FixedInt) : (int i).Each p := nofun

@[simp] theorem each_str (s : String) : (str s).Each p := nofun

@[simp] theorem each_bnum (n : Nat) : (bnum n).Each p := nofun

@[simp] theorem each_bystrx (b : List UInt8) : (bystrx b).Each p := nofun

@[simp] theorem each_bystr (b : List UInt8) : (bystr b).Each p := nofun

@[simp] theorem each_closure (id : ClosureId) (param : String) (ty : Ty) (body : Expr)
    (env : Env) : (closure id param ty body env).Each p ↔ p body env := by
  constructor
  · intro h
    exact h body env (.closure id param ty)
  · rintro h _ _ ⟨⟩
    exact h

@[simp] theorem each_tyClosure (id : ClosureId) (tvar : String) (body : Expr) (env : Env) :
    (tyClosure id tvar body env).Each p ↔ p body env := by
  constructor
  · intro h
    exact h body env (.tyClosure id tvar)
  · rintro h _ _ ⟨⟩
    exact h

@[simp] theorem each_data (tyName constructor : String) (targs : List Ty) (args : List Value) :
    (data tyName constructor targs args).Each p ↔ ∀ v ∈ args, v.Each p := by
  constructor
  · intro h v hv body env hcap
    exact h body env (.arg hv hcap)
  · rintro h body env (_ | _ | ⟨hv, hcap⟩)
    exact h _ hv body env hcap

@[simp] theorem each_map (m : MapValue) :
    (map m).Each p ↔ ∀ e ∈ m.entries, e.1.Each p ∧ e.2.Each p := by
  constructor
  · intro h e he
    exact ⟨fun body env hcap ↦ h body env (.key he hcap),
      fun body env hcap ↦ h body env (.val he hcap)⟩
  · intro h body env hm
    cases hm with
    | key he hcap => exact (h _ he).1 body env hcap
    | val he hcap => exact (h _ he).2 body env hcap

@[simp] theorem each_message (es : List MessageEntry) :
    (message es).Each p ↔ ∀ e ∈ es, e.value.Each p := by
  constructor
  · intro h e he body env hcap
    exact h body env (.entry he hcap)
  · intro h body env hm
    cases hm with
    | entry he hcap => exact h _ he body env hcap

/-! ### Purity -/

theorem allPure_iff (vs : List Value) : allPure vs = true ↔ ∀ v ∈ vs, v.isPure = true := by
  induction vs with
  | nil => simp [allPure]
  | cons v vs ih => simp [allPure, ih]

theorem entriesPure_iff (es : List (Value × Value)) :
    entriesPure es = true ↔ ∀ e ∈ es, e.1.isPure = true ∧ e.2.isPure = true := by
  induction es with
  | nil => simp [entriesPure]
  | cons e es ih => simp [entriesPure, ih]

theorem messagePure_iff (es : List MessageEntry) :
    messagePure es = true ↔ ∀ e ∈ es, e.value.isPure = true := by
  induction es with
  | nil => simp [messagePure]
  | cons e es ih => simp [messagePure, ih]

/-- A value is pure if no closure occurs in it, at any depth. -/
theorem isPure_iff (v : Value) : v.isPure = true ↔ ∀ body env, ¬ Captures body env v := by
  show v.isPure = true ↔ v.Each fun _ _ ↦ False
  induction v with
  | data tyName constructor targs args ih =>
    rw [isPure, allPure_iff, each_data]
    exact forall₂_congr ih
  | map m ih =>
    rw [isPure, entriesPure_iff, each_map]
    exact forall₂_congr fun e he ↦ and_congr (ih e he).1 (ih e he).2
  | message es ih =>
    rw [isPure, messagePure_iff, each_message]
    exact forall₂_congr ih
  | _ => simp [isPure]

/-! ### Values made of values -/

@[simp] theorem each_bool (b : Bool) : (bool b).Each p := by simp [bool]

theorem each_ofOption {t : Ty} {o : Option Value} (h : ∀ v, o = some v → v.Each p) :
    (ofOption t o).Each p := by
  cases o with
  | none => simp [ofOption, absent]
  | some v => simpa [ofOption, present] using h v rfl

theorem each_ofOption_int (t : Ty) (o : Option FixedInt) : (ofOption t (o.map int)).Each p := by
  refine each_ofOption fun v hv ↦ ?_
  obtain ⟨i, -, rfl⟩ := Option.map_eq_some_iff.mp hv
  exact each_int i

theorem each_of_ofLiteral? {l : Literal} {v : Value} (h : ofLiteral? l = some v) : v.Each p := by
  cases l with
  | int t n =>
    obtain ⟨i, -, rfl⟩ := Option.map_eq_some_iff.mp h
    exact each_int i
  | _ =>
    cases h
    simp

end Value

open Value

theorem TypedMap.each_of_get? {p : Expr → Env → Prop} {m : MapValue} {key v : Value}
    (hm : (Value.map m).Each p) (h : m.get? key = some v) : v.Each p := by
  obtain ⟨e, he, -, rfl⟩ := exists_of_get? h
  exact ((each_map m).mp hm e he).2

theorem TypedMap.each_insert {p : Expr → Env → Prop} {m : MapValue} {key val : Value}
    (hm : (Value.map m).Each p) (hkey : key.Each p) (hval : val.Each p) :
    (Value.map (m.insert key val)).Each p := by
  rw [each_map] at hm ⊢
  exact forall_insert (p := Each p) (q := Each p) hm hkey hval

theorem TypedMap.each_erase {p : Expr → Env → Prop} {m : MapValue} (key : Value)
    (hm : (Value.map m).Each p) : (Value.map (m.erase key)).Each p := by
  rw [each_map] at hm ⊢
  exact fun e he ↦ hm e (mem_of_mem_erase he)

namespace Pattern

/-- All bound values satisfy `p`. -/
def EachBound (p : Expr → Env → Prop) (binds : List (String × Value)) : Prop :=
  ∀ b ∈ binds, b.2.Each p

variable {p : Expr → Env → Prop}

/-- What a match binds are parts of the value. -/
theorem each_of_firstMatch {ps : List Pattern} {v : Value} {i : Nat}
    {binds : List (String × Value)} (h : firstMatch ps v = some (i, binds)) (hv : v.Each p) :
    EachBound p binds := by
  refine forall_of_firstMatch (fun v hv w hw ↦ ?_) h hv
  cases v with
  | data tyName c targs args => exact (each_data ..).mp hv w hw
  | _ => cases hw

end Pattern

/-! ### Computed values -/

/-- Every closure in the value that a computation gives satisfies `p`. -/
def EachOk (p : Expr → Env → Prop) (x : Except Cause Value) : Prop := ∀ v, x = .ok v → v.Each p

section Computed

variable {p : Expr → Env → Prop}

theorem EachOk.ok {v : Value} (h : v.Each p) : EachOk p (.ok v) := by
  rintro _ ⟨⟩
  exact h

theorem EachOk.error (c : Cause) : EachOk p (.error c) := nofun

/-- A primitive puts closures into its result only from its arguments, and only if they are a map
and what is put into it. -/
theorem Primitive.eachOk_run {args : List Value} (hargs : ∀ w ∈ args, w.Each p) (op : Primitive)
    (ret : Ty) : EachOk p (op.run args ret) := by
  have hgives := op.gives_run args ret
  generalize op.run args ret = result at hgives
  cases hgives with
  | failure | overflow => exact .error _
  | int i => exact .ok (each_int i)
  | bool b => exact .ok (each_bool b)
  | str s => exact .ok (each_str s)
  | bnum n => exact .ok (each_bnum n)
  | bystrx b => exact .ok (each_bystrx b)
  | bystr b => exact .ok (each_bystr b)
  | converted t o => exact .ok (each_ofOption_int t o)
  | inserted heq =>
    subst heq
    exact .ok (TypedMap.each_insert (hargs _ (by simp)) (hargs _ (by simp)) (hargs _ (by simp)))
  | erased heq =>
    subst heq
    exact .ok (TypedMap.each_erase _ (hargs _ (by simp)))
  | found t heq =>
    subst heq
    exact .ok (each_ofOption fun _ ↦ TypedMap.each_of_get? (hargs _ (by simp)))

end Computed

namespace Arena

variable {p : Expr → Env → Prop} {a : Arena} {env : Env}

/-- Every value that an environment binds satisfies `p`. -/
def EachLookup (p : Expr → Env → Prop) (a : Arena) (env : Env) : Prop :=
  ∀ x, EachOk p (a.lookup env x)

theorem eachOk_literal (a : Arena) (env : Env) (l : Literal) : EachOk p (a.literal env l) := by
  unfold literal
  split
  · exact .ok (by simp [TypedMap.empty])
  · split
    · next h => exact .ok (each_of_ofLiteral? h)
    · exact .error _

theorem each_of_lookupAll (h : EachLookup p a env) {xs : List String} {vs : List Value}
    (hvs : a.lookupAll env xs = .ok vs) : ∀ v ∈ vs, v.Each p := by
  intro v hv
  obtain ⟨x, -, hx⟩ := exists_lookup_of_mem hvs hv
  exact h x v hx

theorem eachOk_construct (h : EachLookup p a env) (types : Datatypes) (name : String)
    (targs : List Ty) (args : List String) : EachOk p (a.construct env types name targs args) := by
  intro v hv
  obtain ⟨tyName, vs, hvs, rfl⟩ := exists_of_construct hv
  rw [each_data]
  exact each_of_lookupAll h hvs

theorem each_of_messageEntries (h : EachLookup p a env) {entries : List (String × Payload)}
    {es : List MessageEntry} (hes : a.messageEntries env entries = .ok es) :
    (Value.message es).Each p := by
  rw [each_message]
  intro e he
  obtain ⟨payload, -, hv, -⟩ := exists_payload_of_mem hes he
  cases payload with
  | lit l => exact eachOk_literal a env l _ hv
  | var x => exact h x _ hv

theorem each_of_primitiveCall (h : EachLookup p a env) {op : String} {args : List String}
    {call : PrimitiveCall} (hcall : a.primitiveCall env op args = .ok call) :
    EachOk p (call.op.run call.args call.ret) := by
  obtain ⟨ts, hvs, -⟩ := exists_of_primitiveCall hcall
  exact Primitive.eachOk_run (each_of_lookupAll h hvs) _ _

end Arena

end MeteredContract
