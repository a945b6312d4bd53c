import MeteredContract.Proofs.Scope.Closures

/-!
The values that a value is made of. `Value.Part` finds them at any depth, `Value.All` says something
of all of them. Two such properties matter for evaluation: that the keys of maps hold no closures
(`Value.KeysPure`), since closures are ordered by when they were made, and that messages hold none
(`Value.MessagesPure`), since messages leave the contract.
-/

set_option autoImplicit false
set_option relaxedAutoImplicit false

namespace MeteredContract

namespace Value

/-- The value occurs in the other one, which may be the same. -/
inductive Part (w : Value) : Value → Prop
  | self : Part w w
  | arg {tyName constructor : String} {targs : List Ty} {args : List Value} {v : Value}
    (hv : v ∈ args) (h : Part w v) : Part w (.data tyName constructor targs args)
  | key {m : MapValue} {e : Value × Value} (he : e ∈ m.entries) (h : Part w e.1) : Part w (.map m)
  | val {m : MapValue} {e : Value × Value} (he : e ∈ m.entries) (h : Part w e.2) : Part w (.map m)
  | entry {es : List MessageEntry} {e : MessageEntry} (he : e ∈ es) (h : Part w e.value) :
    Part w (.message es)

theorem Part.trans {u w v : Value} (huw : Part u w) (hwv : Part w v) : Part u v := by
  induction hwv with
  | self => exact huw
  | arg hv _ ih => exact .arg hv ih
  | key he _ ih => exact .key he ih
  | val he _ ih => exact .val he ih
  | entry he _ ih => exact .entry he ih

theorem Part.captures {w v : Value} (h : Part w v) {body : Expr} {env : Env}
    (hw : Captures body env w) : Captures body env v := by
  induction h with
  | self => exact hw
  | arg hv _ ih => exact .arg hv ih
  | key he _ ih => exact .key he ih
  | val he _ ih => exact .val he ih
  | entry he _ ih => exact .entry he ih

theorem Part.each {w v : Value} (h : Part w v) {p : Expr → Env → Prop} (hv : v.Each p) :
    w.Each p :=
  fun body env hw ↦ hv body env (h.captures hw)

theorem Part.isPure {w v : Value} (h : Part w v) (hv : v.isPure = true) : w.isPure = true := by
  rw [isPure_iff] at hv ⊢
  exact fun body env hw ↦ hv body env (h.captures hw)

/-- Every part of the value satisfies `p`. -/
def All (p : Value → Prop) (v : Value) : Prop := ∀ w, Part w v → p w

variable {p : Value → Prop}

theorem All.self {v : Value} (h : v.All p) : p v := h v .self

theorem All.part {w v : Value} (hv : v.All p) (h : Part w v) : w.All p :=
  fun u hu ↦ hv u (hu.trans h)

/-- A property that does not concern constructor values holds of all parts of one if it does so of
all parts of its arguments. -/
theorem all_data {tyName constructor : String} {targs : List Ty} {args : List Value}
    (hself : p (.data tyName constructor targs args)) (hargs : ∀ v ∈ args, v.All p) :
    (data tyName constructor targs args).All p := by
  intro w hw
  cases hw with
  | self => exact hself
  | arg hv hw => exact hargs _ hv w hw

theorem all_map {m : MapValue} (hself : p (.map m))
    (hentries : ∀ e ∈ m.entries, e.1.All p ∧ e.2.All p) : (map m).All p := by
  intro w hw
  cases hw with
  | self => exact hself
  | key he hw => exact (hentries _ he).1 w hw
  | val he hw => exact (hentries _ he).2 w hw

theorem All.entry {m : MapValue} (h : (map m).All p) {e : Value × Value} (he : e ∈ m.entries) :
    e.1.All p ∧ e.2.All p :=
  ⟨h.part (.key he .self), h.part (.val he .self)⟩

theorem all_ofOption {t : Ty} {o : Option Value} (hself : p (ofOption t o))
    (h : ∀ v, o = some v → v.All p) : (ofOption t o).All p := by
  cases o with
  | none => exact all_data hself (List.forall_mem_nil _)
  | some v => exact all_data hself (List.forall_mem_singleton.mpr (h v rfl))

/-- No closure occurs in a key of a map, wherever the map stands in the value. -/
def KeysPure (v : Value) : Prop :=
  v.All fun w ↦ ∀ m, w = .map m → ∀ e ∈ m.entries, e.1.isPure = true

theorem KeysPure.key {m : MapValue} (h : (map m).KeysPure) {e : Value × Value}
    (he : e ∈ m.entries) : e.1.isPure = true :=
  All.self h m rfl e he

/-! ### Messages without closures -/

/-- Every message in the value, at any depth, holds no closure. -/
def MessagesPure (v : Value) : Prop := v.All fun w ↦ ∀ es, w = .message es → w.isPure = true

theorem MessagesPure.isPure {es : List MessageEntry} (h : (message es).MessagesPure) :
    (message es).isPure = true :=
  All.self h es rfl

theorem messagesPure_of_isPure {v : Value} (h : v.isPure = true) : v.MessagesPure :=
  fun _ hw _ _ ↦ hw.isPure h

theorem messagesPure_closure (id : ClosureId) (param : String) (ty : Ty) (body : Expr) (env : Env) :
    (closure id param ty body env).MessagesPure := by
  rintro _ ⟨⟩ es ⟨⟩

theorem messagesPure_tyClosure (id : ClosureId) (tvar : String) (body : Expr) (env : Env) :
    (tyClosure id tvar body env).MessagesPure := by
  rintro _ ⟨⟩ es ⟨⟩

theorem messagesPure_data {tyName constructor : String} {targs : List Ty} {args : List Value}
    (h : ∀ v ∈ args, v.MessagesPure) : (data tyName constructor targs args).MessagesPure :=
  all_data nofun h

theorem messagesPure_ofOption {t : Ty} {o : Option Value} (h : ∀ v, o = some v → v.MessagesPure) :
    (ofOption t o).MessagesPure :=
  all_ofOption (by cases o <;> nofun) h

/-- What may stand in a message is pure. -/
theorem isPure_of_isSendable {v : Value} (h : v.isSendable = true) : v.isPure = true := by
  induction v with
  | data tyName constructor targs args ih =>
    rw [isSendable] at h
    rw [isPure]
    induction args with
    | nil => rfl
    | cons v vs ihvs =>
      obtain ⟨hv, hvs⟩ := List.forall_mem_cons.mp ih
      rw [allSendable, Bool.and_eq_true] at h
      rw [allPure, hv h.1, ihvs hvs h.2]
      rfl
  | closure | tyClosure | map | message => cases h
  | _ => rfl

end Value

/-! ### Parts that are taken out -/

theorem TypedMap.part_of_get? {m : MapValue} {key v : Value} (h : m.get? key = some v) :
    v.Part (.map m) := by
  obtain ⟨e, he, -, rfl⟩ := exists_of_get? h
  exact .val he .self

/-- The elements of a list. -/
theorem Value.part_of_toList? {v : Value} {items : List Value} (h : v.toList? = some items) :
    ∀ w ∈ items, w.Part v := by
  fun_induction toList? v generalizing items with
  | case1 targs =>
    cases h
    exact nofun
  | case2 targs head tail ih =>
    obtain ⟨rest, hrest, rfl⟩ := Option.map_eq_some_iff.mp h
    rw [List.forall_mem_cons]
    refine ⟨.arg List.mem_cons_self .self, fun w hw ↦ ?_⟩
    exact .arg (List.mem_cons_of_mem _ List.mem_cons_self) (ih hrest w hw)
  | case3 => cases h

/-- What a match binds are parts of the value. -/
theorem Pattern.part_of_firstMatch {ps : List Pattern} {v : Value} {i : Nat}
    {binds : List (String × Value)} (h : firstMatch ps v = some (i, binds)) :
    ∀ b ∈ binds, b.2.Part v := by
  refine forall_of_firstMatch (q := (Value.Part · v)) (fun u hu w hw ↦ ?_) h .self
  cases u with
  | data tyName c targs args => exact .trans (.arg hw .self) hu
  | _ => cases hw

/-! ### Maps and primitives -/

namespace TypedMap

variable {m : MapValue} {key val : Value}

theorem all_insert {p : Value → Prop} (hself : p (.map (m.insert key val)))
    (hm : (Value.map m).All p) (hkey : key.All p) (hval : val.All p) :
    (Value.map (m.insert key val)).All p :=
  Value.all_map hself
    (forall_insert (p := Value.All p) (q := Value.All p) (fun _ he ↦ hm.entry he) hkey hval)

theorem all_erase {p : Value → Prop} (hself : p (.map (m.erase key))) (hm : (Value.map m).All p) :
    (Value.map (m.erase key)).All p :=
  Value.all_map hself fun _ he ↦ hm.entry (mem_of_mem_erase he)

theorem messagesPure_insert (hm : (Value.map m).MessagesPure) (hkey : key.MessagesPure)
    (hval : val.MessagesPure) : (Value.map (m.insert key val)).MessagesPure :=
  all_insert nofun hm hkey hval

theorem messagesPure_erase (key : Value) (hm : (Value.map m).MessagesPure) :
    (Value.map (m.erase key)).MessagesPure :=
  all_erase nofun hm

end TypedMap

namespace Primitive

variable {op : Primitive} {args : List Value} {ret : Ty} {v : Value}

/-- The parts of a result, apart from itself, are integers or come from the arguments. -/
theorem all_of_run {p : Value → Prop} (hself : p v) (hint : ∀ i, p (.int i))
    (hargs : ∀ w ∈ args, w.All p) (h : op.run args ret = .ok v) : v.All p := by
  have hgives := op.gives_run args ret
  rw [h] at hgives
  generalize hresult : Except.ok v = result at hgives
  cases hgives with
  | failure | overflow => cases hresult
  | bool b =>
    cases hresult
    exact Value.all_data hself (List.forall_mem_nil _)
  | converted t o =>
    cases hresult
    refine Value.all_ofOption hself fun w hw ↦ ?_
    obtain ⟨i, -, rfl⟩ := Option.map_eq_some_iff.mp hw
    rintro _ ⟨⟩
    exact hint i
  | inserted heq =>
    subst heq
    cases hresult
    exact TypedMap.all_insert hself (hargs _ (by simp)) (hargs _ (by simp)) (hargs _ (by simp))
  | erased heq =>
    subst heq
    cases hresult
    exact TypedMap.all_erase hself (hargs _ (by simp))
  | found t heq =>
    subst heq
    cases hresult
    refine Value.all_ofOption hself fun w hw ↦ ?_
    exact (hargs _ (by simp)).part (TypedMap.part_of_get? hw)
  | _ =>
    cases hresult
    rintro _ ⟨⟩
    exact hself

/-- Primitives make no messages. -/
theorem ne_message_of_run (h : op.run args ret = .ok v) (es : List MessageEntry) :
    v ≠ .message es := by
  rintro rfl
  have hgives := op.gives_run args ret
  rw [h] at hgives
  generalize hresult : Except.ok (Value.message es) = result at hgives
  cases hgives with
  | converted t o => cases o <;> cases hresult
  | found t heq =>
    generalize TypedMap.get? _ _ = o at hresult
    cases o <;> cases hresult
  | _ => cases hresult

theorem messagesPure_of_run (hargs : ∀ w ∈ args, w.MessagesPure) (h : op.run args ret = .ok v) :
    v.MessagesPure := by
  refine all_of_run (fun es heq ↦ absurd heq (ne_message_of_run h es)) (fun i es heq ↦ ?_) hargs h
  cases heq

end Primitive

end MeteredContract
