import MeteredContract.Eval.Expr
import MeteredContract.Proofs.Value.Form

/-!
Values under a renaming of frames. `Value.relabel` renames the scopes of all closures in a value and
forgets which closure is which; two values are the same up to a renaming (`Value.Renamed`) if they
agree after that. Nothing that evaluation does with values tells them from their relabelled forms,
as long as no closure stands in the key of a map: not their shapes, types and sizes, not matching,
not the prices, and not the primitives (`Primitive.run_relabel`).
-/

set_option autoImplicit false
set_option relaxedAutoImplicit false

namespace MeteredContract

def Env.rename (φ : Nat → Nat) (env : Env) : Env := ⟨env.top.map φ⟩

@[simp] theorem Env.rename_id (env : Env) : env.rename id = env := by
  simp [rename]

namespace Value

mutual

/-- The value with the scopes of its closures renamed, and their identities forgotten. -/
def relabel (φ : Nat → Nat) : Value → Value
  | .closure _ param ty body env => .closure (.given 0) param ty body (env.rename φ)
  | .tyClosure _ tvar body env => .tyClosure (.given 0) tvar body (env.rename φ)
  | .data tyName constructor targs args => .data tyName constructor targs (relabelAll φ args)
  | .map ⟨keyTy, valTy, es⟩ => .map ⟨keyTy, valTy, relabelEntries φ es⟩
  | .message es => .message (relabelMessage φ es)
  | .int i => .int i
  | .str s => .str s
  | .bnum n => .bnum n
  | .bystrx b => .bystrx b
  | .bystr b => .bystr b

def relabelAll (φ : Nat → Nat) : List Value → List Value
  | [] => []
  | v :: vs => relabel φ v :: relabelAll φ vs

def relabelEntries (φ : Nat → Nat) : List (Value × Value) → List (Value × Value)
  | [] => []
  | (k, v) :: es => (relabel φ k, relabel φ v) :: relabelEntries φ es

def relabelMessage (φ : Nat → Nat) : List (EntryOf Value) → List (EntryOf Value)
  | [] => []
  | ⟨n, t, v⟩ :: es => ⟨n, t, relabel φ v⟩ :: relabelMessage φ es

end

end Value

/-- The map with its keys and values relabelled. -/
def TypedMap.relabel (φ : Nat → Nat) (m : MapValue) : MapValue :=
  { m with entries := m.entries.map fun e ↦ (e.1.relabel φ, e.2.relabel φ) }

theorem TypedMap.entries_relabel (φ : Nat → Nat) (m : MapValue) :
    (m.relabel φ).entries = m.entries.map fun e ↦ (e.1.relabel φ, e.2.relabel φ) := rfl

namespace Value

variable {φ ψ : Nat → Nat}

@[simp] theorem relabelAll_eq (φ : Nat → Nat) (vs : List Value) :
    relabelAll φ vs = vs.map (relabel φ) := by
  induction vs with
  | nil => rfl
  | cons v vs ih => rw [relabelAll, ih, List.map_cons]

@[simp] theorem relabelEntries_eq (φ : Nat → Nat) (es : List (Value × Value)) :
    relabelEntries φ es = es.map fun e ↦ (e.1.relabel φ, e.2.relabel φ) := by
  induction es with
  | nil => rfl
  | cons e es ih => rw [relabelEntries, ih, List.map_cons]

@[simp] theorem relabelMessage_eq (φ : Nat → Nat) (es : List MessageEntry) :
    relabelMessage φ es = es.map fun e ↦ { e with value := e.value.relabel φ } := by
  induction es with
  | nil => rfl
  | cons e es ih => rw [relabelMessage, ih, List.map_cons]

theorem relabel_closure (φ : Nat → Nat) (id : ClosureId) (param : String) (ty : Ty) (body : Expr)
    (env : Env) :
    (closure id param ty body env).relabel φ =
      .closure (.given 0) param ty body (env.rename φ) := rfl

theorem relabel_tyClosure (φ : Nat → Nat) (id : ClosureId) (tvar : String) (body : Expr)
    (env : Env) :
    (tyClosure id tvar body env).relabel φ = .tyClosure (.given 0) tvar body (env.rename φ) := rfl

theorem relabel_data (φ : Nat → Nat) (tyName constructor : String) (targs : List Ty)
    (args : List Value) :
    (data tyName constructor targs args).relabel φ =
      .data tyName constructor targs (args.map (relabel φ)) :=
  congrArg (data tyName constructor targs) (relabelAll_eq φ args)

theorem relabel_map (φ : Nat → Nat) (m : MapValue) :
    (map m).relabel φ = .map (m.relabel φ) :=
  congrArg (fun es ↦ map { m with entries := es }) (relabelEntries_eq φ m.entries)

theorem relabel_message (φ : Nat → Nat) (es : List MessageEntry) :
    (message es).relabel φ = .message (es.map fun e ↦ { e with value := e.value.relabel φ }) :=
  congrArg message (relabelMessage_eq φ es)

/-- The second value is the first one with the scopes of closures renamed; which closure is which
does not count. -/
def Renamed (φ : Nat → Nat) (v w : Value) : Prop := w.relabel id = v.relabel φ

/-- Only the scopes that occur in the value matter. -/
theorem relabel_congr {v : Value}
    (h : v.Each fun _ scope ↦ scope.rename ψ = scope.rename φ) : v.relabel ψ = v.relabel φ := by
  induction v with
  | closure id param ty body env => rw [relabel_closure, relabel_closure, (each_closure ..).mp h]
  | tyClosure id tvar body env =>
    rw [relabel_tyClosure, relabel_tyClosure, (each_tyClosure ..).mp h]
  | data tyName constructor targs args ih =>
    rw [each_data] at h
    rw [relabel_data, relabel_data, List.map_congr_left fun v hv ↦ ih v hv (h v hv)]
  | map m ih =>
    rw [each_map] at h
    rw [relabel_map, relabel_map, TypedMap.relabel, List.map_congr_left fun e he ↦ ?_]
    rfl
    rw [(ih e he).1 (h e he).1, (ih e he).2 (h e he).2]
  | message es ih =>
    rw [each_message] at h
    rw [relabel_message, relabel_message, List.map_congr_left fun e he ↦ ?_]
    rw [ih e he (h e he)]
  | _ => rfl

/-- A value without closures is the same under all renamings. -/
theorem relabel_of_isPure {v : Value} (h : v.isPure = true) (φ : Nat → Nat) :
    v.relabel φ = v := by
  induction v with
  | closure | tyClosure => cases h
  | data tyName constructor targs args ih =>
    rw [isPure, allPure_iff] at h
    have hargs : args.map (relabel φ) = args.map id :=
      List.map_congr_left fun v hv ↦ ih v hv (h v hv)
    rw [relabel_data, hargs, List.map_id]
  | map m ih =>
    rw [isPure, entriesPure_iff] at h
    have hes : m.entries.map (fun e ↦ (e.1.relabel φ, e.2.relabel φ)) = m.entries.map id :=
      List.map_congr_left fun e he ↦ by rw [(ih e he).1 (h e he).1, (ih e he).2 (h e he).2, id]
    rw [relabel_map, TypedMap.relabel, hes, List.map_id]
  | message es ih =>
    rw [isPure, messagePure_iff] at h
    have hes : es.map (fun e ↦ { e with value := e.value.relabel φ }) = es.map id :=
      List.map_congr_left fun e he ↦ by rw [ih e he (h e he), id]
    rw [relabel_message, hes, List.map_id]
  | _ => rfl

/-! ### What is seen of a value -/

@[simp] theorem isPure_relabel (φ : Nat → Nat) (v : Value) : (v.relabel φ).isPure = v.isPure := by
  induction v with
  | data tyName constructor targs args ih =>
    rw [Bool.eq_iff_iff, relabel_data, isPure, isPure, allPure_iff, allPure_iff,
      List.forall_mem_map]
    exact forall₂_congr fun v hv ↦ by rw [ih v hv]
  | map m ih =>
    rw [Bool.eq_iff_iff, relabel_map, isPure, isPure, entriesPure_iff, entriesPure_iff,
      TypedMap.entries_relabel, List.forall_mem_map]
    exact forall₂_congr fun e he ↦ by rw [(ih e he).1, (ih e he).2]
  | message es ih =>
    rw [Bool.eq_iff_iff, relabel_message, isPure, isPure, messagePure_iff, messagePure_iff,
      List.forall_mem_map]
    exact forall₂_congr fun e he ↦ by rw [ih e he]
  | _ => rfl

theorem Renamed.eq_of_isPure {v w : Value} (h : Renamed φ v w) (hv : v.isPure = true) : w = v := by
  have hw : w.isPure = true := by
    rw [← isPure_relabel id w, h, isPure_relabel, hv]
  rw [Renamed, relabel_of_isPure hw, relabel_of_isPure hv] at h
  exact h

@[simp] theorem kind_relabel (φ : Nat → Nat) (v : Value) : (v.relabel φ).kind = v.kind := by
  cases v <;> rfl

theorem dataHom_relabel (φ : Nat → Nat) : DataHom (relabel φ) where
  data _ _ _ _ := ⟨_, relabel_data φ _ _ _ _⟩
  kind := kind_relabel φ

theorem Renamed.kind_eq {v w : Value} (h : Renamed φ v w) : w.kind = v.kind := by
  rw [← kind_relabel id w, h, kind_relabel]

theorem Renamed.of_closure {id : ClosureId} {param : String} {ty : Ty} {body : Expr} {scope : Env}
    {w : Value} (h : Renamed φ (.closure id param ty body scope) w) :
    ∃ id', w = .closure id' param ty body (scope.rename φ) := by
  cases w with
  | closure id' param' ty' body' scope' =>
    rw [Renamed, relabel_closure, relabel_closure, Env.rename_id] at h
    cases h
    exact ⟨id', rfl⟩
  | _ => cases h

theorem Renamed.of_tyClosure {id : ClosureId} {tvar : String} {body : Expr} {scope : Env}
    {w : Value} (h : Renamed φ (.tyClosure id tvar body scope) w) :
    ∃ id', w = .tyClosure id' tvar body (scope.rename φ) := by
  cases w with
  | tyClosure id' tvar' body' scope' =>
    rw [Renamed, relabel_tyClosure, relabel_tyClosure, Env.rename_id] at h
    cases h
    exact ⟨id', rfl⟩
  | _ => cases h

@[simp] theorem typeOf?_relabel (φ : Nat → Nat) (v : Value) :
    (v.relabel φ).typeOf? = v.typeOf? := by
  cases v <;> rfl

@[simp] theorem magnitude?_relabel (φ : Nat → Nat) (v : Value) :
    (v.relabel φ).magnitude? = v.magnitude? := by
  cases v <;> rfl

@[simp] theorem isSendable_relabel (φ : Nat → Nat) (v : Value) :
    (v.relabel φ).isSendable = v.isSendable := by
  induction v with
  | data tyName constructor targs args ih =>
    rw [relabel_data, isSendable, isSendable]
    induction args with
    | nil => rfl
    | cons v vs ihvs =>
      obtain ⟨hv, hvs⟩ := List.forall_mem_cons.mp ih
      rw [List.map_cons, allSendable, allSendable, hv, ihvs hvs]
  | _ => rfl

@[simp] theorem size_relabel (φ : Nat → Nat) (v : Value) : (v.relabel φ).size = v.size := by
  induction v with
  | data tyName constructor targs args ih =>
    rw [relabel_data, size, size]
    induction args with
    | nil => rfl
    | cons v vs ihvs =>
      obtain ⟨hv, hvs⟩ := List.forall_mem_cons.mp ih
      rw [List.map_cons, sizeAll, sizeAll, hv, ihvs hvs]
  | map m ih =>
    obtain ⟨keyTy, valTy, es⟩ := m
    rw [relabel_map, size, size, TypedMap.entries_relabel]
    induction es with
    | nil => rfl
    | cons e es ihes =>
      obtain ⟨⟨hkey, hval⟩, hes⟩ := List.forall_mem_cons.mp ih
      rw [List.map_cons, sizeEntries, sizeEntries, hkey, hval, ihes hes]
  | message es ih =>
    rw [relabel_message, size, size]
    induction es with
    | nil => rfl
    | cons e es ihes =>
      obtain ⟨hval, hes⟩ := List.forall_mem_cons.mp ih
      rw [List.map_cons, sizeMessage, sizeMessage, hval, ihes hes]
  | _ => rfl

/-! ### The order of values -/

/-- Values without closures do not tell a value from its relabelled form. -/
theorem cmp_relabel (φ : Nat → Nat) (v : Value) {w : Value} (hw : w.isPure = true) :
    (v.relabel φ).cmp w = v.cmp w := by
  induction v generalizing w with
  | data tyName constructor targs args ih =>
    cases w with
    | data tyName' constructor' targs' args' =>
      rw [isPure, allPure_iff] at hw
      rw [relabel_data, cmp, cmp]
      congr 2
      induction args generalizing args' with
      | nil => rfl
      | cons v vs ihvs =>
        obtain ⟨hv, hvs⟩ := List.forall_mem_cons.mp ih
        cases args' with
        | nil => rfl
        | cons w ws =>
          obtain ⟨hw, hws⟩ := List.forall_mem_cons.mp hw
          rw [List.map_cons, cmpAll, cmpAll, hv hw, ihvs hvs ws hws]
    | _ => rfl
  | map m ih =>
    cases w with
    | map m' =>
      obtain ⟨keyTy, valTy, es⟩ := m
      obtain ⟨keyTy', valTy', es'⟩ := m'
      rw [isPure, entriesPure_iff] at hw
      rw [relabel_map, cmp, cmp, TypedMap.entries_relabel]
      induction es generalizing es' with
      | nil => rfl
      | cons e es ihes =>
        obtain ⟨⟨hkey, hval⟩, hes⟩ := List.forall_mem_cons.mp ih
        cases es' with
        | nil => rfl
        | cons e' es' =>
          obtain ⟨⟨hkey', hval'⟩, hes'⟩ := List.forall_mem_cons.mp hw
          rw [List.map_cons, cmpEntries, cmpEntries, hkey hkey', hval hval', ihes hes es' hes']
    | _ => rfl
  | message es ih =>
    cases w with
    | message es' =>
      rw [isPure, messagePure_iff] at hw
      rw [relabel_message, cmp, cmp]
      induction es generalizing es' with
      | nil => rfl
      | cons e es ihes =>
        obtain ⟨hval, hes⟩ := List.forall_mem_cons.mp ih
        cases es' with
        | nil => rfl
        | cons e' es' =>
          obtain ⟨hval', hes'⟩ := List.forall_mem_cons.mp hw
          rw [List.map_cons, cmpMessage, cmpMessage, hval hval', ihes hes es' hes']
    | _ => rfl
  | closure | tyClosure =>
    cases w with
    | closure | tyClosure => cases hw
    | _ => rfl
  | _ => rfl

theorem cmp_relabel_key (φ : Nat → Nat) (v : Value) {key : Value} (hkey : key.isPure = true) :
    (v.relabel φ).cmp (key.relabel φ) = v.cmp key := by
  rw [relabel_of_isPure hkey, cmp_relabel φ v hkey]

theorem same_relabel_key (φ : Nat → Nat) (v : Value) {key : Value} (hkey : key.isPure = true) :
    (v.relabel φ).same (key.relabel φ) = v.same key := by
  rw [same, same, cmp_relabel_key φ v hkey]

end Value

open Value

variable {φ : Nat → Nat}

/-! ### Parts and keys -/

namespace Value

theorem Part.relabel {w v : Value} (h : Part w v) (φ : Nat → Nat) :
    Part (w.relabel φ) (v.relabel φ) := by
  induction h with
  | self => exact .self
  | arg hv _ ih =>
    rw [relabel_data]
    exact .arg (List.mem_map_of_mem hv) ih
  | key he _ ih =>
    rw [relabel_map]
    exact .key (List.mem_map_of_mem he) ih
  | val he _ ih =>
    rw [relabel_map]
    exact .val (List.mem_map_of_mem he) ih
  | entry he _ ih =>
    rw [relabel_message]
    exact .entry (List.mem_map_of_mem he) ih

theorem Part.of_relabel {u v : Value} (h : Part u (v.relabel φ)) :
    ∃ w, Part w v ∧ w.relabel φ = u := by
  induction v with
  | data tyName constructor targs args ih =>
    rw [relabel_data] at h
    cases h with
    | self => exact ⟨_, .self, relabel_data ..⟩
    | arg hmem h =>
      obtain ⟨v, hv, rfl⟩ := List.mem_map.mp hmem
      obtain ⟨w, hw, hu⟩ := ih v hv h
      exact ⟨w, .arg hv hw, hu⟩
  | map m ih =>
    rw [relabel_map] at h
    cases h with
    | self => exact ⟨_, .self, relabel_map φ m⟩
    | key hmem h =>
      obtain ⟨e, he, rfl⟩ := List.mem_map.mp hmem
      obtain ⟨w, hw, hu⟩ := (ih e he).1 h
      exact ⟨w, .key he hw, hu⟩
    | val hmem h =>
      obtain ⟨e, he, rfl⟩ := List.mem_map.mp hmem
      obtain ⟨w, hw, hu⟩ := (ih e he).2 h
      exact ⟨w, .val he hw, hu⟩
  | message es ih =>
    rw [relabel_message] at h
    cases h with
    | self => exact ⟨_, .self, relabel_message φ es⟩
    | entry hmem h =>
      obtain ⟨e, he, rfl⟩ := List.mem_map.mp hmem
      obtain ⟨w, hw, hu⟩ := ih e he h
      exact ⟨w, .entry he hw, hu⟩
  | _ =>
    cases h
    exact ⟨_, .self, rfl⟩

@[simp] theorem keysPure_relabel (φ : Nat → Nat) (v : Value) :
    (v.relabel φ).KeysPure ↔ v.KeysPure := by
  constructor
  · rintro h _ hw m rfl e he
    have hpart := hw.relabel φ
    rw [relabel_map] at hpart
    rw [← isPure_relabel φ]
    exact h _ hpart _ rfl (e.1.relabel φ, e.2.relabel φ) (List.mem_map_of_mem he)
  · rintro h _ hu m rfl e he
    obtain ⟨w, hw, hmap⟩ := hu.of_relabel
    cases w with
    | map m' =>
      rw [relabel_map] at hmap
      cases hmap
      obtain ⟨e', he', rfl⟩ := List.mem_map.mp he
      rw [isPure_relabel]
      exact h _ hw m' rfl e' he'
    | _ => cases hmap

theorem Renamed.keysPure {v w : Value} (h : Renamed φ v w) (hv : v.KeysPure) : w.KeysPure := by
  rw [← keysPure_relabel id, h, keysPure_relabel]
  exact hv

end Value

/-! ### Maps and patterns -/

namespace TypedMap

variable {m : MapValue}

theorem get?_relabel (hm : (Value.map m).KeysPure) (key : Value) :
    (m.relabel φ).get? (key.relabel φ) = (m.get? key).map (Value.relabel φ) := by
  replace hm : ∀ e ∈ m.entries, e.1.isPure = true := fun e he ↦ hm.key he
  obtain ⟨keyTy, valTy, es⟩ := m
  simp only [get?, relabel]
  induction es with
  | nil => rfl
  | cons e es ih =>
    obtain ⟨hfirst, hrest⟩ := List.forall_mem_cons.mp hm
    rw [List.map_cons, MapEntries.get?, MapEntries.get?, same_relabel_key φ key hfirst]
    split
    · rfl
    · exact ih hrest

theorem insert_relabel (hm : (Value.map m).KeysPure) (key val : Value) :
    (m.relabel φ).insert (key.relabel φ) (val.relabel φ) = (m.insert key val).relabel φ := by
  replace hm : ∀ e ∈ m.entries, e.1.isPure = true := fun e he ↦ hm.key he
  obtain ⟨keyTy, valTy, es⟩ := m
  simp only [insert, relabel, mk.injEq, true_and]
  induction es with
  | nil => rfl
  | cons e es ih =>
    obtain ⟨hfirst, hrest⟩ := List.forall_mem_cons.mp hm
    rw [List.map_cons, MapEntries.insert, MapEntries.insert, cmp_relabel_key φ key hfirst]
    split
    · rfl
    · rfl
    · rw [List.map_cons, ih hrest]

theorem erase_relabel (hm : (Value.map m).KeysPure) (key : Value) :
    (m.relabel φ).erase (key.relabel φ) = (m.erase key).relabel φ := by
  simp only [erase, relabel, MapEntries.erase, mk.injEq, true_and, List.filter_map]
  refine congrArg _ (List.filter_congr fun e he ↦ ?_)
  simp only [Function.comp_apply, same_relabel_key φ key (hm.key he)]

end TypedMap

namespace Pattern

/-- Bindings whose values are relabelled. -/
def relabel (φ : Nat → Nat) (bs : List (String × Value)) : List (String × Value) :=
  bs.map fun b ↦ (b.1, b.2.relabel φ)

theorem firstMatch_relabel (ps : List Pattern) (v : Value) :
    firstMatch ps (v.relabel φ) = (firstMatch ps v).map fun r ↦ (r.1, relabel φ r.2) :=
  (Value.dataHom_relabel φ).firstMatch_map ps v

end Pattern

/-- Renamed values match the same patterns, with renamed parts. -/
theorem Value.Renamed.firstMatch {v w : Value} (h : Renamed φ v w) (ps : List Pattern) :
    (Pattern.firstMatch ps w).map (fun r ↦ (r.1, Pattern.relabel id r.2)) =
      (Pattern.firstMatch ps v).map fun r ↦ (r.1, Pattern.relabel φ r.2) := by
  rw [← Pattern.firstMatch_relabel, ← Pattern.firstMatch_relabel, h]

/-! ### Prices and primitives -/

theorem Gas.evaluate_relabel (φ : Nat → Nat) (lookup : String → Except Cause Value) (c : Charge) :
    evaluate (fun x ↦ (lookup x).map (Value.relabel φ)) c = evaluate lookup c := by
  induction c with
  | static n => rfl
  | sizeOf x =>
    rw [evaluate, evaluate]
    cases lookup x with
    | error c => rfl
    | ok v =>
      show Except.ok (Amount.whole (v.relabel φ).size) = .ok (.whole v.size)
      rw [size_relabel]
  | valueOf x =>
    rw [evaluate, evaluate]
    cases lookup x with
    | error c => rfl
    | ok v =>
      simp only [Except.map, bind, Except.bind, magnitude?_relabel]
  | lengthOf x =>
    rw [evaluate, evaluate]
    cases lookup x with
    | error c => rfl
    | ok v =>
      simp only [Except.map, bind, Except.bind]
      cases v with
      | map m => rw [relabel_map]; simp [TypedMap.relabel]
      | data tyName constructor targs args =>
        have hlist := (Value.dataHom_relabel φ).toList?_map (.data tyName constructor targs args)
        simp only [relabel_data] at hlist ⊢
        rw [hlist]
        cases (Value.data tyName constructor targs args).toList? with
        | none => rfl
        | some items => simp
      | _ => rfl
  | mapSortCost x =>
    rw [evaluate, evaluate]
    cases lookup x with
    | error c => rfl
    | ok v =>
      cases v with
      | map m => simp [relabel_map, TypedMap.relabel, Except.map, bind, Except.bind]
      | _ => rfl
  | sum a b iha ihb | prod a b iha ihb | min a b iha ihb => rw [evaluate, evaluate, iha, ihb]
  | divCeil a d ih => rw [evaluate, evaluate, ih]
  | log a ih => rw [evaluate, evaluate, ih]

namespace Primitive

/-- The calls that look into a map. -/
inductive OnMap : Primitive → List Value → Prop
  | put (m : MapValue) (key val : Value) : OnMap .put [.map m, key, val]
  | get (m : MapValue) (key : Value) : OnMap .get [.map m, key]
  | remove (m : MapValue) (key : Value) : OnMap .remove [.map m, key]
  | contains (m : MapValue) (key : Value) : OnMap .contains [.map m, key]
  | size (m : MapValue) : OnMap .size [.map m]

theorem OnMap.of_relabel {p : Primitive} {args : List Value}
    (h : p.OnMap (args.map (Value.relabel φ))) : p.OnMap args := by
  have hhead : ∀ {v : Value} {m : MapValue}, v.relabel φ = .map m → ∃ m', v = .map m' := by
    intro v m hv
    cases v with
    | map m' => exact ⟨m', rfl⟩
    | _ => cases hv
  generalize hws : args.map (Value.relabel φ) = ws at h
  cases h with
  | put m key val =>
    obtain ⟨v, vs, rfl, hv, hvs⟩ := List.map_eq_cons_iff.mp hws
    obtain ⟨m', rfl⟩ := hhead hv
    obtain ⟨k, vs, rfl, -, hvs⟩ := List.map_eq_cons_iff.mp hvs
    obtain ⟨w, vs, rfl, -, hvs⟩ := List.map_eq_cons_iff.mp hvs
    obtain rfl := List.map_eq_nil_iff.mp hvs
    exact .put m' k w
  | size m =>
    obtain ⟨v, vs, rfl, hv, hvs⟩ := List.map_eq_cons_iff.mp hws
    obtain ⟨m', rfl⟩ := hhead hv
    obtain rfl := List.map_eq_nil_iff.mp hvs
    exact .size m'
  | get m key | remove m key | contains m key =>
    obtain ⟨v, vs, rfl, hv, hvs⟩ := List.map_eq_cons_iff.mp hws
    obtain ⟨m', rfl⟩ := hhead hv
    obtain ⟨k, vs, rfl, -, hvs⟩ := List.map_eq_cons_iff.mp hvs
    obtain rfl := List.map_eq_nil_iff.mp hvs
    constructor

theorem OnMap.run_relabel {p : Primitive} {args : List Value} (h : p.OnMap args)
    (hkeys : ∀ v ∈ args, v.KeysPure) (ret : Ty) :
    p.run (args.map (Value.relabel φ)) ret = (p.run args ret).map (Value.relabel φ) := by
  cases h with
  | put m key val =>
    have hm : (Value.map m).KeysPure := hkeys _ (by simp)
    simp only [List.map_cons, List.map_nil, relabel_map, run, Except.map,
      TypedMap.insert_relabel hm]
  | get m key =>
    have hm : (Value.map m).KeysPure := hkeys _ (by simp)
    simp only [List.map_cons, List.map_nil, relabel_map, run, Except.map,
      TypedMap.get?_relabel hm]
    cases m.get? key <;> rfl
  | remove m key =>
    have hm : (Value.map m).KeysPure := hkeys _ (by simp)
    simp only [List.map_cons, List.map_nil, relabel_map, run, Except.map,
      TypedMap.erase_relabel hm]
  | contains m key =>
    have hm : (Value.map m).KeysPure := hkeys _ (by simp)
    simp only [List.map_cons, List.map_nil, relabel_map, run, Except.map,
      TypedMap.get?_relabel hm, Option.isSome_map]
    rfl
  | size m =>
    have hsize : (m.relabel φ).size = m.size := by simp [TypedMap.size, TypedMap.relabel]
    simp only [List.map_cons, List.map_nil, relabel_map, run, hsize]
    unfold lengthResult
    cases FixedInt.ofInt? .uint32 m.size <;> rfl

/-- Apart from looking into maps and comparing, primitives do not take closures. -/
theorem run_of_impure {p : Primitive} {args : List Value} (hne : p ≠ .eq)
    (himpure : ¬ ∀ v ∈ args, v.isPure = true) (hmap : ¬ p.OnMap args) (ret : Ty) :
    p.run args ret = p.fail .shape := by
  unfold run
  split
  case h_1 => exact absurd rfl hne
  all_goals first
    | rfl
    | exact absurd (by constructor) hmap
    | exact absurd (by simp [isPure]) himpure

/-- A primitive whose arguments are relabelled gives the relabelled result. Only comparing could
tell closures apart, but it takes none. -/
theorem run_relabel {p : Primitive} {args : List Value} (hkeys : ∀ v ∈ args, v.KeysPure)
    (heq : p = .eq → ∀ v ∈ args, v.isPure = true) (ret : Ty) :
    p.run (args.map (Value.relabel φ)) ret = (p.run args ret).map (Value.relabel φ) := by
  by_cases hpure : ∀ v ∈ args, v.isPure = true
  · have hargs : args.map (Value.relabel φ) = args.map id :=
      List.map_congr_left fun v hv ↦ relabel_of_isPure (hpure v hv) φ
    have hresult : EachOk (fun _ _ ↦ False) (p.run args ret) :=
      eachOk_run (fun v hv ↦ (isPure_iff v).mp (hpure v hv)) p ret
    rw [hargs, List.map_id]
    cases hrun : p.run args ret with
    | error c => rfl
    | ok v =>
      have hv : v.isPure = true := (isPure_iff v).mpr (hresult v hrun)
      rw [Except.map, relabel_of_isPure hv]
  · by_cases hmap : p.OnMap args
    · exact hmap.run_relabel hkeys ret
    · have hne : p ≠ .eq := fun h ↦ hpure (heq h)
      have himpure : ¬ ∀ v ∈ args.map (Value.relabel φ), v.isPure = true := by
        simpa only [List.forall_mem_map, isPure_relabel] using hpure
      rw [run_of_impure hne himpure (mt OnMap.of_relabel hmap), run_of_impure hne hpure hmap]
      rfl

end Primitive

end MeteredContract
