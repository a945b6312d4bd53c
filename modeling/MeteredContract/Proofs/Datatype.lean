import MeteredContract.Proofs.Contract.Deployment
import Mathlib.Data.List.Induction

/-!
Which constructors are known after datatypes were registered. A datatype brings in its constructors
and takes the place of an earlier definition of the type, while the other constructors of that
definition stay (`Datatypes.lists_register_of_mem`, `Datatypes.lists_register_of_notMem`). So a
constructor never becomes unknown, and the type it belongs to is always defined, but the definition
need not list it, unless every definition has the constructors of the one it replaces
(`Datatypes.Consistent.register`). Over a sequence of registrations, what is known is listed unless
its type was registered without it and it was not registered again (`Datatypes.Drops`,
`Datatypes.lists_registered_iff`); the libraries of a contract are such a sequence
(`datatypes_of_deploy`).
-/

set_option autoImplicit false
set_option relaxedAutoImplicit false

namespace MeteredContract

/-! ### Tables -/

namespace Table

variable {κ ν : Type} [DecidableEq κ] {entries : List (κ × ν)} {key : κ} {val : ν}

theorem mem_of_get? {t : Table κ ν} (h : t.get? key = some val) : (key, val) ∈ t := by
  induction t with
  | nil => cases h
  | cons e rest ih =>
    obtain ⟨k, v⟩ := e
    by_cases hk : k = key
    · rw [get?, if_pos hk] at h
      cases h
      rw [hk]
      exact List.mem_cons_self
    · rw [get?, if_neg hk] at h
      exact List.mem_cons_of_mem _ (ih h)

theorem get?_putAll_of_notMem (t : Table κ ν) (h : key ∉ entries.map Prod.fst) :
    (t.putAll entries).get? key = t.get? key := by
  induction entries generalizing t with
  | nil => rfl
  | cons e rest ih =>
    rw [List.map_cons, List.mem_cons, not_or] at h
    exact (ih (t.put e.1 e.2) h.2).trans (by rw [get?_put, if_neg (Ne.symm h.1)])

/-- What a key has in the end is one of the entries for it, the last one. -/
theorem exists_get?_putAll (t : Table κ ν) (h : key ∈ entries.map Prod.fst) :
    ∃ v, (key, v) ∈ entries ∧ (t.putAll entries).get? key = some v := by
  induction entries generalizing t with
  | nil => cases h
  | cons e rest ih =>
    by_cases hrest : key ∈ rest.map Prod.fst
    · obtain ⟨v, hv, hget⟩ := ih (t.put e.1 e.2) hrest
      exact ⟨v, List.mem_cons_of_mem e hv, hget⟩
    · obtain rfl : key = e.1 := (List.mem_cons.mp h).resolve_right hrest
      refine ⟨e.2, List.mem_cons_self, (get?_putAll_of_notMem (t.put e.1 e.2) hrest).trans ?_⟩
      rw [get?_put, if_pos rfl]

end Table

/-- The names of the constructors that the definition lists. -/
def Datatype.constructorNames (d : Datatype) : List String := d.constructors.map (·.name)

namespace Datatypes

variable {r : Datatypes} {d : Datatype} {ds : List Datatype} {c tyName : String}
  {info : ConstructorInfo}

/-- The definition of the type lists a constructor of that name with that many arguments. -/
def Lists (r : Datatypes) (c : String) (info : ConstructorInfo) : Prop :=
  ∃ d ∈ r.type? info.tyName, ∃ k ∈ d.constructors, k.name = c ∧ k.argTypes.length = info.arity

instance (r : Datatypes) (c : String) (info : ConstructorInfo) : Decidable (r.Lists c info) :=
  inferInstanceAs (Decidable (∃ _ ∈ r.type? info.tyName, _))

/-- Every constructor that is known is listed by the definition of its type. -/
def Consistent (r : Datatypes) : Prop :=
  ∀ c info, r.constructor? c = some info → r.Lists c info

theorem consistent_standard : standard.Consistent := by
  have hall : ∀ e ∈ standard.constructors, standard.Lists e.1 e.2 := by decide
  intro c info h
  exact hall (c, info) (Table.mem_of_get? h)

/-! ### One registration -/

theorem type?_register (r : Datatypes) (d : Datatype) (tyName : String) :
    (r.register d).type? tyName = if d.name = tyName then some d else r.type? tyName :=
  Table.get?_put ..

theorem constructor?_register_of_notMem (r : Datatypes) (h : c ∉ d.constructorNames) :
    (r.register d).constructor? c = r.constructor? c := by
  refine Table.get?_putAll_of_notMem _ ?_
  rwa [List.map_map]

theorem exists_constructor?_register (r : Datatypes) (h : c ∈ d.constructorNames) :
    ∃ k ∈ d.constructors, k.name = c ∧
      (r.register d).constructor? c = some ⟨d.name, k.argTypes.length⟩ := by
  have hentry : c ∈ (d.constructors.map fun k ↦
      (k.name, (⟨d.name, k.argTypes.length⟩ : ConstructorInfo))).map Prod.fst := by
    rwa [List.map_map]
  obtain ⟨v, hv, hget⟩ := Table.exists_get?_putAll r.constructors hentry
  obtain ⟨k, hk, heq⟩ := List.mem_map.mp hv
  obtain ⟨hname, rfl⟩ := Prod.mk.inj heq
  exact ⟨k, hk, hname, hget⟩

/-- A constructor of the registered datatype is known as one of it and listed by it. -/
theorem lists_register_of_mem (h : c ∈ d.constructorNames)
    (hinfo : (r.register d).constructor? c = some info) :
    info.tyName = d.name ∧ (r.register d).Lists c info := by
  obtain ⟨k, hk, hname, hknown⟩ := exists_constructor?_register r h
  obtain rfl := Option.some.inj (hknown.symm.trans hinfo)
  refine ⟨rfl, d, ?_, k, hk, hname, rfl⟩
  rw [type?_register, if_pos rfl]
  rfl

/-- Another constructor is listed as before, but no longer if it belongs to that type. -/
theorem lists_register_of_notMem (h : c ∉ d.constructorNames) :
    (r.register d).Lists c info ↔ d.name ≠ info.tyName ∧ r.Lists c info := by
  unfold Lists
  rw [type?_register]
  by_cases hname : d.name = info.tyName
  · rw [if_pos hname]
    refine ⟨?_, fun hlists ↦ absurd hname hlists.1⟩
    rintro ⟨e, he, k, hk, hkname, -⟩
    obtain rfl := Option.some.inj he
    exact absurd (hkname ▸ List.mem_map_of_mem hk) h
  · rw [if_neg hname]
    exact ⟨fun hlists ↦ ⟨hname, hlists⟩, And.right⟩

/-- A definition that has all constructors of the one it replaces keeps the tables consistent. -/
theorem Consistent.register (hr : r.Consistent)
    (hkeeps : ∀ e, r.type? d.name = some e → e.constructorNames ⊆ d.constructorNames) :
    (r.register d).Consistent := by
  intro c info h
  by_cases hd : c ∈ d.constructorNames
  · exact (lists_register_of_mem hd h).2
  · rw [constructor?_register_of_notMem _ hd] at h
    refine (lists_register_of_notMem hd).mpr ⟨fun hname ↦ ?_, hr c info h⟩
    obtain ⟨e, he, k, hk, rfl, -⟩ := hr c info h
    exact hd (hkeeps e (hname ▸ he) (List.mem_map_of_mem hk))

/-! ### Sequences of registrations -/

/-- A definition of the type was registered, and from then on no definition had the constructor. -/
def Drops (ds : List Datatype) (c tyName : String) : Prop :=
  ∃ d after, d :: after <:+ ds ∧ d.name = tyName ∧ ∀ e ∈ d :: after, c ∉ e.constructorNames

theorem drops_append_singleton :
    Drops (ds ++ [d]) c tyName ↔
      c ∉ d.constructorNames ∧ (d.name = tyName ∨ Drops ds c tyName) := by
  constructor
  · rintro ⟨e, after, hsuffix, hname, hlacks⟩
    obtain hnil | ⟨t, ht, hsuffix⟩ := List.suffix_concat_iff.mp hsuffix
    · cases hnil
    · rw [ht, List.forall_mem_append, List.forall_mem_singleton] at hlacks
      refine ⟨hlacks.2, ?_⟩
      cases t with
      | nil =>
        cases ht
        exact .inl hname
      | cons e' t =>
        obtain ⟨rfl, -⟩ := List.cons.inj ht
        exact .inr ⟨e, t, hsuffix, hname, hlacks.1⟩
  · rintro ⟨hd, hname | ⟨e, after, hsuffix, hname, hlacks⟩⟩
    · exact ⟨d, [], List.suffix_append ds [d], hname, List.forall_mem_singleton.mpr hd⟩
    · refine ⟨e, after ++ [d], ?_, hname, ?_⟩
      · exact List.suffix_concat_iff.mpr (.inr ⟨e :: after, rfl, hsuffix⟩)
      · exact List.forall_mem_append.mpr ⟨hlacks, List.forall_mem_singleton.mpr hd⟩

/-- No registration makes a constructor unknown. -/
theorem constructor?_registered_ne_none :
    (ds.foldl register r).constructor? c ≠ none ↔
      r.constructor? c ≠ none ∨ ∃ d ∈ ds, c ∈ d.constructorNames := by
  induction ds generalizing r with
  | nil => simp
  | cons d ds ih =>
    rw [List.foldl_cons, ih]
    by_cases hd : c ∈ d.constructorNames
    · obtain ⟨k, -, -, hknown⟩ := exists_constructor?_register r hd
      simp [hknown, hd]
    · simp [constructor?_register_of_notMem r hd, hd]

/-- The type of a constructor that is known stays defined, though its definition may change. -/
theorem exists_type?_registered (hr : r.Consistent)
    (h : (ds.foldl register r).constructor? c = some info) :
    ∃ d, (ds.foldl register r).type? info.tyName = some d := by
  induction ds using List.reverseRecOn generalizing info with
  | nil =>
    obtain ⟨d, hd, -⟩ := hr c info h
    exact ⟨d, hd⟩
  | append_singleton ds d ih =>
    rw [List.foldl_append, List.foldl_cons, List.foldl_nil] at h ⊢
    rw [type?_register]
    by_cases hname : d.name = info.tyName
    · exact ⟨d, if_pos hname⟩
    · have hd : c ∉ d.constructorNames := fun hd ↦ hname (lists_register_of_mem hd h).1.symm
      rw [constructor?_register_of_notMem _ hd] at h
      rw [if_neg hname]
      exact ih h

theorem lists_registered_iff (hr : r.Consistent)
    (h : (ds.foldl register r).constructor? c = some info) :
    (ds.foldl register r).Lists c info ↔ ¬ Drops ds c info.tyName := by
  induction ds using List.reverseRecOn generalizing info with
  | nil =>
    refine ⟨fun _ ↦ ?_, fun _ ↦ hr c info h⟩
    rintro ⟨d, after, hsuffix, -⟩
    cases List.suffix_nil.mp hsuffix
  | append_singleton ds d ih =>
    rw [List.foldl_append, List.foldl_cons, List.foldl_nil] at h ⊢
    rw [drops_append_singleton]
    -- The last definition brings the constructor in, or those before it decide.
    by_cases hd : c ∈ d.constructorNames
    · exact iff_of_true (lists_register_of_mem hd h).2 fun hdrops ↦ hdrops.1 hd
    · rw [constructor?_register_of_notMem _ hd] at h
      rw [lists_register_of_notMem hd, ih h]
      simp [hd]

/-- Constructor applications ask for nothing but the constructors that are known. -/
theorem eval_construct {types : Datatypes} (h : types.constructor? c = some info)
    {depthLimit room : Nat} {targs : List Ty} {args : List String} {env : Env} {m : Machine}
    {vs : List Value} (hargs : m.arena.lookupAll env args = .ok vs)
    (harity : args.length = info.arity) :
    eval ⟨types, depthLimit⟩ room (.construct c targs args) env m =
      (.ok (.data info.tyName c (targs.map (m.arena.runtimeTy env)) vs), m) := by
  have hvalue : m.arena.construct env types c targs args =
      .ok (.data info.tyName c (targs.map (m.arena.runtimeTy env)) vs) := by
    simp only [Arena.construct, h]
    rw [if_pos harity.symm]
    exact except_bind_eq_ok.mpr ⟨vs, hargs, rfl⟩
  have hrun : (EvalM.inspect (·.construct env types c targs args) : EvalM Value) m = _ :=
    Run.read_eq_ok.mpr ⟨hvalue, rfl⟩
  exact hrun

end Datatypes

/-! ### The libraries of a contract -/

def LibraryEntry.datatype? : LibraryEntry → Option Datatype
  | .datatype name tparams constructors => some ⟨name, tparams, constructors⟩
  | .value _ _ => none

/-- The datatypes that the libraries define, in the order of their evaluation. -/
def Module.datatypes (m : Module) : List Datatype :=
  (m.libraries.flatMap (·.entries)).filterMap (·.datatype?)

theorem datatypes_of_loadEntries {depthLimit : Nat} {entries : List LibraryEntry}
    {types types' : Datatypes} {env env' : Env} {m n : Machine}
    (h : loadEntries depthLimit entries types env m = (.ok (types', env'), n)) :
    types' = (entries.filterMap (·.datatype?)).foldl Datatypes.register types := by
  induction entries generalizing types env m with
  | nil =>
    cases h
    rfl
  | cons entry rest ih =>
    cases entry with
    | datatype name tparams constructors => exact ih h
    | value x e =>
      obtain ⟨v, m₁, -, h⟩ := Run.bind_eq_ok h
      obtain ⟨_, m₂, -, h⟩ := Run.bind_eq_ok h
      obtain ⟨inner, m₃, -, h⟩ := Run.bind_eq_ok h
      exact ih h

theorem DeployM.datatypes_of_opening {depthLimit : Nat} {m : Module} {args : List (String × Value)}
    {o : Setting × Env × List PendingCheck} {d e : Deployment}
    (h : opening depthLimit m args d = (.ok o, e)) :
    o.1.datatypes = m.datatypes.foldl Datatypes.register .standard := by
  obtain ⟨⟨types, libEnv⟩, d₁, hload, h⟩ := Run.bind_eq_ok h
  obtain ⟨admitted, d₂, -, h⟩ := Run.bind_eq_ok h
  obtain ⟨env, d₃, -, h⟩ := Run.bind_eq_ok h
  obtain ⟨_, d₄, -, h⟩ := Run.bind_eq_ok h
  cases h
  exact datatypes_of_loadEntries (onMachine_eq_iff.mp hload).1

/-- A deployed contract has the standard datatypes and those that its libraries register. -/
theorem datatypes_of_deploy {depthLimit : Nat} {m : Module} {args : List (String × Value)}
    {balance : Tokens} {store : Store} {gas : Nat} {d : Deployed}
    (h : (deploy depthLimit m args balance store gas).result = .ok d) :
    d.state.datatypes = m.datatypes.foldl Datatypes.register .standard := by
  unfold deploy at h
  cases hrun : DeployM.deploy depthLimit m args balance ⟨⟨.empty, gas⟩, store⟩ with
  | mk result last =>
    rw [hrun] at h
    simp only at h
    subst h
    rw [DeployM.deploy_eq] at hrun
    obtain ⟨o, t, hopening, hrun⟩ := Run.bind_eq_ok hrun
    obtain ⟨_, u, -, hrun⟩ := Run.bind_eq_ok hrun
    obtain ⟨frames, _, -, hrun⟩ := Run.bind_eq_ok hrun
    cases hrun
    exact DeployM.datatypes_of_opening hopening

/-- In a deployed contract the definitions list the constructors that the libraries do not drop. -/
theorem lists_deployed_iff {depthLimit : Nat} {m : Module} {args : List (String × Value)}
    {balance : Tokens} {store : Store} {gas : Nat} {d : Deployed} {c : String}
    {info : ConstructorInfo} (h : (deploy depthLimit m args balance store gas).result = .ok d)
    (hinfo : d.state.datatypes.constructor? c = some info) :
    d.state.datatypes.Lists c info ↔ ¬ Datatypes.Drops m.datatypes c info.tyName := by
  rw [datatypes_of_deploy h] at hinfo ⊢
  exact Datatypes.lists_registered_iff Datatypes.consistent_standard hinfo

open Datatypes

/-- After any registrations exactly the constructors of the standard datatypes and of those
registered are known, and each builds values of its type, which is defined. The definition of its
type lists it, unless the type was registered without it after the constructor was registered for
the last time. -/
theorem constructors_outlive_definitions (ds : List Datatype) (c : String) :
    let r := ds.foldl register standard
    (r.constructor? c ≠ none ↔
      standard.constructor? c ≠ none ∨ ∃ d ∈ ds, c ∈ d.constructorNames) ∧
    ∀ info, r.constructor? c = some info →
      (∃ d, r.type? info.tyName = some d) ∧
      (r.Lists c info ↔ ¬ Drops ds c info.tyName) ∧
      ∀ (depthLimit room : Nat) (targs : List Ty) (args : List String) (env : Env) (m : Machine)
        (vs : List Value), m.arena.lookupAll env args = .ok vs → args.length = info.arity →
          eval ⟨r, depthLimit⟩ room (.construct c targs args) env m =
            (.ok (.data info.tyName c (targs.map (m.arena.runtimeTy env)) vs), m) := by
  intro r
  refine ⟨constructor?_registered_ne_none, fun info hinfo ↦ ⟨?_, ?_, ?_⟩⟩
  · exact exists_type?_registered consistent_standard hinfo
  · exact lists_registered_iff consistent_standard hinfo
  · intro depthLimit room targs args env m vs hargs harity
    exact eval_construct hinfo hargs harity

/-- Of two colours the second definition keeps one, and the other is still there to be used. -/
theorem constructors_outlive_definitions_red :
    let red : ConstructorDef := ⟨"Red", []⟩
    let green : ConstructorDef := ⟨"Green", []⟩
    let ds : List Datatype := [⟨"Color", [], [red, green]⟩, ⟨"Color", [], [green]⟩]
    let r := ds.foldl register standard
    r.constructor? "Red" = some ⟨"Color", 0⟩ ∧ Drops ds "Red" "Color" ∧
      ¬ r.Lists "Red" ⟨"Color", 0⟩ ∧
      eval ⟨r, 0⟩ 0 (.construct "Red" [] []) .empty ⟨.empty, 0⟩ =
        (.ok (.data "Color" "Red" [] []), ⟨.empty, 0⟩) := by
  intro red green ds r
  have hknown : r.constructor? "Red" = some ⟨"Color", 0⟩ := by decide
  have hdrops : Drops ds "Red" "Color" := ⟨⟨"Color", [], [green]⟩, [], ⟨[_], rfl⟩, rfl, by decide⟩
  obtain ⟨-, hlisted, heval⟩ := (constructors_outlive_definitions ds "Red").2 _ hknown
  exact ⟨hknown, hdrops, fun hlists ↦ hlisted.mp hlists hdrops, heval 0 0 [] [] _ _ [] rfl rfl⟩

end MeteredContract
