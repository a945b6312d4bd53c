import MeteredContract.Proofs.Contract.Deployment
import MeteredContract.Proofs.Scope.Bindings
import MeteredContract.Proofs.Store.Purity

/-!
What a deployment establishes. Its phases are told apart as relations: library entries are evaluated
in order (`Loads`), the parameters are bound over them and the constraint is checked (`Opens`), and
the fields are initialized, each with the gas that the last one left (`Initializes`). All phases
share one arena, which only grows, so the environment in which the parameters are bound shows the
same values to the constraint, to every initial value and, once it is frozen, to all messages. A
deployment that succeeds has gone through all phases; one that fails has either not come to the
fields, and then it leaves the store as it was, or has stored exactly the fields before the one that
failed (`deployment_establishes`).
-/

set_option autoImplicit false
set_option relaxedAutoImplicit false

namespace MeteredContract

/-! ### What names stand for -/

/-- Each argument is bound to its name; any other name has the value of the last library entry of
that name, or none. -/
structure Arena.Scopes (a : Arena) (env : Env) (library args : List (String × Value)) : Prop where
  argument : ∀ x ∈ args, a.lookup env x.1 = .ok x.2
  entry : ∀ name, name ∉ args.map Prod.fst → a.lookup env name =
    match Arguments.value? library.reverse name with
    | some v => .ok v
    | none => .error (.unboundIdentifier name)

theorem Arena.Consists.scopes {a : Arena} {env : Env} {library args bs : List (String × Value)}
    (h : a.Consists env (library ++ bs))
    (hbs : ∀ name v, (name, v) ∈ bs ↔ Arguments.value? args name = some v)
    (hdistinct : (args.map Prod.fst).Nodup) : a.Scopes env library args := by
  have hvalue (name : String) : Arguments.value? (library ++ bs).reverse name =
      (Arguments.value? args name).or (Arguments.value? library.reverse name) := by
    rw [List.reverse_append, Arguments.value?_append]
    congr 1
    exact Arguments.value?_eq_of_mem_iff fun v ↦ List.mem_reverse.trans (hbs name v)
  constructor
  · intro x hx
    rw [h.lookup, hvalue, Arguments.value?_of_mem hdistinct hx]
    rfl
  · intro name hname
    rw [h.lookup, hvalue, Arguments.value?_eq_none_iff.mpr hname]
    rfl

theorem Arena.Consists.scopes_of_admitted {a : Arena} {env : Env} {library : List (String × Value)}
    {params : List Param} {args : List (String × Value)} {trusted : List String}
    {admitted : Admitted} (h : a.Consists env (library ++ admitted.named))
    (hadmitted : admitArguments params args trusted = .ok admitted) : a.Scopes env library args :=
  h.scopes (fun _ _ ↦ mem_named_iff hadmitted) (fit_of_admitArguments hadmitted).distinct

/-! ### Libraries -/

/-- How far the libraries of a module have been evaluated. -/
structure Loaded where
  types : Datatypes
  env : Env
  machine : Machine
  /-- The entries that were bound, in order. -/
  library : List (String × Value)

namespace Loaded

def start (gas : Nat) : Loaded := ⟨.standard, .empty, ⟨.empty, gas⟩, []⟩

/-- Bind an entry to the value for which the machine has been paid. -/
def bind (l : Loaded) (x : String) (v : Value) (m : Machine) : Loaded :=
  let scope := m.arena.bind l.env x v
  ⟨l.types, scope.2, ⟨scope.1, m.gas⟩, l.library ++ [(x, v)]⟩

/-- Nothing but the entries is bound. -/
def Consists (l : Loaded) : Prop := l.machine.arena.Consists l.env l.library

theorem consists_start (gas : Nat) : (start gas).Consists := Arena.consists_empty _

theorem Consists.scopes {l : Loaded} (h : l.Consists) :
    l.machine.arena.Scopes l.env l.library [] := by
  have happend : l.machine.arena.Consists l.env (l.library ++ []) := by rwa [List.append_nil]
  exact happend.scopes (fun _ _ ↦ ⟨nofun, nofun⟩) List.nodup_nil

end Loaded

/-- Entries are evaluated one after the other: a datatype is registered, and a value, which may
refer to all entries before it, is paid for by its size and bound. -/
inductive Loads (depthLimit : Nat) : List LibraryEntry → Loaded → Loaded → Prop
  | done {l : Loaded} : Loads depthLimit [] l l
  | datatype {l l' : Loaded} {name : String} {tparams : List String}
      {constructors : List ConstructorDef} {rest : List LibraryEntry}
      (hrest : Loads depthLimit rest
        { l with types := l.types.register ⟨name, tparams, constructors⟩ } l') :
      Loads depthLimit (.datatype name tparams constructors :: rest) l l'
  | value {l l' : Loaded} {x : String} {e : Expr} {rest : List LibraryEntry} {v : Value}
      {m n : Machine} (hscope : l.machine.arena.Scopes l.env l.library [])
      (heval : eval ⟨l.types, depthLimit⟩ depthLimit e l.env l.machine = (.ok v, m))
      (hpay : EvalM.pay v.size m = (.ok (), n))
      (hrest : Loads depthLimit rest (l.bind x v n) l') :
      Loads depthLimit (.value x e :: rest) l l'

theorem Loaded.Consists.bind {l : Loaded} (h : l.Consists) {s : Setting} {e : Expr} {room : Nat}
    {v : Value} {m n : Machine} (heval : eval s room e l.env l.machine = (.ok v, m))
    (hpay : EvalM.pay v.size m = (.ok (), n)) (x : String) : (l.bind x v n).Consists := by
  have hevaluated : l.machine.Grows m := (grows_eval s room e l.env).of_eq heval
  have hpaid : m.Grows n := (EvalM.grows_pay v.size).of_eq hpay
  exact (h.grows (hevaluated.trans hpaid)).bind x v

namespace Loads

variable {depthLimit : Nat} {entries : List LibraryEntry} {l l' : Loaded}

theorem consists (h : Loads depthLimit entries l l') (hl : l.Consists) : l'.Consists := by
  induction h with
  | done => exact hl
  | datatype _ ih => exact ih hl
  | value _ heval hpay _ ih => exact ih (hl.bind heval hpay _)

theorem run (h : Loads depthLimit entries l l') :
    loadEntries depthLimit entries l.types l.env l.machine =
      (.ok (l'.types, l'.env), l'.machine) := by
  induction h with
  | done => rfl
  | datatype _ ih => exact ih
  | value _ heval hpay _ ih =>
    rw [loadEntries, Run.bind_of_ok heval, Run.bind_of_ok hpay]
    exact ih

theorem of_run (hl : l.Consists) {types : Datatypes} {env : Env} {m : Machine}
    (h : loadEntries depthLimit entries l.types l.env l.machine = (.ok (types, env), m)) :
    ∃ library, Loads depthLimit entries l ⟨types, env, m, library⟩ := by
  induction entries generalizing l with
  | nil =>
    cases h
    exact ⟨l.library, .done⟩
  | cons entry rest ih =>
    cases entry with
    | datatype name tparams constructors =>
      let registered : Loaded := { l with types := l.types.register ⟨name, tparams, constructors⟩ }
      have hregistered : registered.Consists := hl
      obtain ⟨library, hrest⟩ := ih hregistered h
      exact ⟨library, .datatype hrest⟩
    | value x e =>
      obtain ⟨v, m₁, heval, h⟩ := Run.bind_eq_ok h
      obtain ⟨_, m₂, hpay, h⟩ := Run.bind_eq_ok h
      obtain ⟨library, hrest⟩ := ih (hl.bind heval hpay x) h
      exact ⟨library, .value hl.scopes heval hpay hrest⟩

end Loads

/-! ### Parameters and constraint -/

/-- The constraint, if there is one, evaluates to true. -/
inductive Holds (s : Setting) (env : Env) : Option Expr → Machine → Machine → Prop
  | none {m : Machine} : Holds s env none m m
  | some {e : Expr} {m n : Machine} {v : Value} (heval : eval s s.depthLimit e env m = (.ok v, n))
      (htrue : v.toBool? = some true) : Holds s env (some e) m n

theorem checkConstraint_eq_ok_iff {s : Setting} {env : Env} {constraint : Option Expr}
    {m n : Machine} :
    checkConstraint s env constraint m = (.ok (), n) ↔ Holds s env constraint m n := by
  cases constraint with
  | none =>
    constructor
    · rintro ⟨⟩
      exact .none
    · rintro ⟨⟩
      rfl
  | some e =>
    constructor
    · intro h
      obtain ⟨v, m₁, heval, h⟩ := Run.bind_eq_ok h
      split at h
      · next htrue =>
        cases h
        exact .some heval htrue
      · cases h
    · intro h
      cases h with
      | some heval htrue =>
        rw [checkConstraint, Run.bind_of_ok heval, if_pos htrue]
        rfl

/-- The module is ready for its fields: the libraries are evaluated, the arguments are admitted and
bound over them, and the constraint holds there. -/
structure Opens (depthLimit : Nat) (m : Module) (args : List (String × Value)) (gas : Nat)
    (l : Loaded) (env : Env) (opened : Machine) : Prop where
  loads : Loads depthLimit (m.libraries.flatMap (·.entries)) (.start gas) l
  bound : ∃ admitted arena, admitArguments m.allParams args [] = .ok admitted ∧
    l.machine.arena.bindAll l.env admitted.named = (arena, env) ∧
    arena.Scopes env l.library args ∧
    Holds ⟨l.types, depthLimit⟩ env m.constraint ⟨arena, l.machine.gas⟩ opened

theorem Holds.grows {s : Setting} {env : Env} {constraint : Option Expr} {m n : Machine}
    (h : Holds s env constraint m n) : m.Grows n := by
  cases h with
  | none => exact Arena.Grows.refl _
  | some heval _ => exact (grows_eval s s.depthLimit _ env).of_eq heval

theorem Opens.consists {depthLimit : Nat} {m : Module} {args : List (String × Value)} {gas : Nat}
    {l : Loaded} {env : Env} {opened : Machine} (h : Opens depthLimit m args gas l env opened) :
    ∃ admitted, admitArguments m.allParams args [] = .ok admitted ∧
      opened.arena.Consists env (l.library ++ admitted.named) := by
  obtain ⟨hloads, admitted, arena, hadmitted, hbound, -, hholds⟩ := h
  have hconsists := (hloads.consists (Loaded.consists_start gas)).bindAll admitted.named
  rw [hbound] at hconsists
  exact ⟨admitted, hadmitted, hconsists.grows hholds.grows⟩

/-! ### Fields -/

section

variable (s : Setting) (env : Env) (library args : List (String × Value))

/-- The initial values of fields, which hold no closures, are evaluated one after the other, each on
the machine that the last one left. -/
inductive Initializes : List FieldDef → Machine → List (String × Value) → Machine → Prop
  | done {m : Machine} : Initializes [] m [] m
  | field {f : FieldDef} {fs : List FieldDef} {m n last : Machine} {v : Value}
      {values : List (String × Value)} (hscope : m.arena.Scopes env library args)
      (heval : eval s s.depthLimit f.init env m = (.ok v, n)) (hpure : v.isPure = true)
      (hrest : Initializes fs n values last) :
      Initializes (f :: fs) m ((f.name, v) :: values) last

/-- The initial value of the field cannot be evaluated, or it holds a closure. -/
structure InitFails (f : FieldDef) (m : Machine) : Prop where
  scope : m.arena.Scopes env library args
  fails : ∀ v, (eval s s.depthLimit f.init env m).1 = .ok v → v.isPure = false

end

/-- The named fields have these values, and all else is as it was. -/
structure Store.Receives (before : Store) (values : List (String × Value)) (after : Store) :
    Prop where
  set : ∀ x ∈ values, after.field? x.1 = some x.2
  kept : ∀ name, name ∉ values.map Prod.fst → after.field? name = before.field? name
  remote : after.remote = before.remote

def Store.putAll (store : Store) (values : List (String × Value)) : Store :=
  values.foldl (fun s x ↦ s.put x.1 x.2) store

theorem Store.receives_putAll (store : Store) {values : List (String × Value)}
    (hdistinct : (values.map Prod.fst).Nodup) : store.Receives values (store.putAll values) := by
  induction values generalizing store with
  | nil => exact ⟨List.forall_mem_nil _, fun _ _ ↦ rfl, rfl⟩
  | cons x values ih =>
    obtain ⟨hnew, hdistinct⟩ := List.nodup_cons.mp hdistinct
    obtain ⟨hset, hkept, hremote⟩ := ih (store.put x.1 x.2) hdistinct
    refine ⟨List.forall_mem_cons.mpr ⟨?_, hset⟩, fun name hname ↦ ?_, hremote⟩
    · exact (hkept x.1 hnew).trans ((store.field?_put _ _ _).trans (if_pos rfl))
    · obtain ⟨hne, hname⟩ := not_or.mp (List.mem_cons.not.mp hname)
      exact (hkept name hname).trans ((store.field?_put _ _ _).trans (if_neg (Ne.symm hne)))

section

variable {s : Setting} {env : Env} {library args : List (String × Value)}

theorem Initializes.names {fields : List FieldDef} {m last : Machine}
    {values : List (String × Value)}
    (h : Initializes s env library args fields m values last) :
    values.map Prod.fst = fields.map FieldDef.name := by
  induction h with
  | done => rfl
  | field _ _ _ _ ih => rw [List.map_cons, List.map_cons, ih]

theorem Initializes.grows {fields : List FieldDef} {m last : Machine}
    {values : List (String × Value)}
    (h : Initializes s env library args fields m values last) : m.Grows last := by
  induction h with
  | done => exact Arena.Grows.refl _
  | field _ heval _ _ ih => exact ((grows_eval s s.depthLimit _ env).of_eq heval).trans ih

namespace DeployM

theorem initField_of_pure {f : FieldDef} {d : Deployment} {v : Value} {m : Machine}
    (heval : eval s s.depthLimit f.init env d.machine = (.ok v, m)) (hpure : v.isPure = true) :
    initField s env f d = (.ok (), ⟨m, d.store.put f.name v⟩) := by
  rw [initField, Run.bind_of_ok (onMachine_of_eq heval), if_pos hpure]
  rfl

theorem initField_of_fails {f : FieldDef} {d : Deployment}
    (h : ∀ v, (eval s s.depthLimit f.init env d.machine).1 = .ok v → v.isPure = false) :
    ∃ fault m, initField s env f d = (.error fault, ⟨m, d.store⟩) := by
  cases heval : eval s s.depthLimit f.init env d.machine with
  | mk result m =>
    cases result with
    | error fault => exact ⟨fault, m, Run.bind_of_error (onMachine_of_eq heval) _⟩
    | ok v =>
      have himpure : ¬ v.isPure = true := by simp [h v (by rw [heval])]
      rw [initField, Run.bind_of_ok (onMachine_of_eq heval), if_neg himpure]
      exact ⟨_, _, rfl⟩

/-- Either all fields are initialized, or those before one for which this fails. -/
theorem initFields_cases (fields : List FieldDef) (d : Deployment)
    (hscope : ∀ a, d.machine.arena.Grows a → a.Scopes env library args) :
    (∃ values last, Initializes s env library args fields d.machine values last ∧
        initFields s env fields d = (.ok (), ⟨last, d.store.putAll values⟩)) ∨
      ∃ done f rest values last, fields = done ++ f :: rest ∧
        Initializes s env library args done d.machine values last ∧
        InitFails s env library args f last ∧
        ∃ fault m, initFields s env fields d = (.error fault, ⟨m, d.store.putAll values⟩) := by
  induction fields generalizing d with
  | nil => exact .inl ⟨[], d.machine, .done, rfl⟩
  | cons f fs ih =>
    have hhere := hscope _ (.refl _)
    by_cases hfails : ∀ v, (eval s s.depthLimit f.init env d.machine).1 = .ok v → v.isPure = false
    · obtain ⟨fault, m, hrun⟩ := initField_of_fails hfails
      exact .inr ⟨[], f, fs, [], d.machine, rfl, .done, ⟨hhere, hfails⟩, fault, m,
        Run.bind_of_error hrun _⟩
    · obtain ⟨v, hv, hpure⟩ : ∃ v, (eval s s.depthLimit f.init env d.machine).1 = .ok v ∧
          v.isPure = true := by simpa using hfails
      have heval : eval s s.depthLimit f.init env d.machine =
          (.ok v, (eval s s.depthLimit f.init env d.machine).2) := Prod.ext hv rfl
      have hgrows := (grows_eval s s.depthLimit f.init env) d.machine
      have hrun := initField_of_pure heval hpure
      have hfields : initFields s env (f :: fs) d = initFields s env fs _ := Run.bind_of_ok hrun _
      rw [hfields]
      rcases ih ⟨_, d.store.put f.name v⟩ fun a ha ↦ hscope a (hgrows.trans ha) with
        ⟨values, last, hrest, hrun⟩ |
        ⟨done, g, rest, values, last, rfl, hdone, hg, fault, m, hrun⟩
      · exact .inl ⟨(f.name, v) :: values, last, .field hhere heval hpure hrest, hrun⟩
      · exact .inr ⟨f :: done, g, rest, (f.name, v) :: values, last, rfl,
          .field hhere heval hpure hdone, hg, fault, m, hrun⟩

end DeployM

end

/-! ### Deployment -/

theorem EvalM.bindAll_eq_ok_iff {env env' : Env} {bs : List (String × Value)} {m n : Machine} :
    EvalM.bindAll env bs m = (.ok env', n) ↔
      m.arena.bindAll env bs = (n.arena, env') ∧ n.gas = m.gas := by
  constructor
  · rintro ⟨⟩
    exact ⟨rfl, rfl⟩
  · rintro ⟨hbound, hgas⟩
    obtain ⟨arena, gas⟩ := n
    cases hgas
    simp only [EvalM.bindAll, EvalM.extend, Run.step, hbound]

namespace DeployM

variable {depthLimit : Nat} {m : Module} {args : List (String × Value)} {gas : Nat} {store : Store}

theorem opens_of_opening {s : Setting} {env : Env} {pending : List PendingCheck} {d : Deployment}
    (h : opening depthLimit m args ⟨⟨.empty, gas⟩, store⟩ = (.ok (s, env, pending), d)) :
    ∃ l, Opens depthLimit m args gas l env d.machine ∧ s = ⟨l.types, depthLimit⟩ := by
  obtain ⟨⟨types, libEnv⟩, d₁, hload, h⟩ := Run.bind_eq_ok h
  obtain ⟨admitted, d₂, hargs, h⟩ := Run.bind_eq_ok h
  obtain ⟨env', d₃, hbind, h⟩ := Run.bind_eq_ok h
  obtain ⟨_, d₄, hcheck, h⟩ := Run.bind_eq_ok h
  cases h
  obtain ⟨hadmitted, rfl⟩ := Run.ofExcept_eq_ok.mp hargs
  have hstart := Loaded.consists_start gas
  obtain ⟨library, hloads⟩ := Loads.of_run hstart (onMachine_eq_iff.mp hload).1
  obtain ⟨hbound, hgas⟩ := EvalM.bindAll_eq_ok_iff.mp (onMachine_eq_iff.mp hbind).1
  have hconsists := (hloads.consists hstart).bindAll admitted.named
  rw [hbound] at hconsists
  have hscope := hconsists.scopes_of_admitted hadmitted
  have hholds := checkConstraint_eq_ok_iff.mp (onMachine_eq_iff.mp hcheck).1
  refine ⟨⟨types, libEnv, d₂.machine, library⟩, ⟨hloads, admitted, d₃.machine.arena, hadmitted,
    hbound, hscope, ?_⟩, rfl⟩
  rw [← hgas]
  exact hholds

/-- What the phases say is what the deployment does up to its fields. -/
theorem opening_of_opens {l : Loaded} {env : Env} {opened : Machine}
    (h : Opens depthLimit m args gas l env opened) (store : Store) :
    ∃ pending, opening depthLimit m args ⟨⟨.empty, gas⟩, store⟩ =
      (.ok (⟨l.types, depthLimit⟩, env, pending), ⟨opened, store⟩) := by
  obtain ⟨hloads, admitted, arena, hadmitted, hbound, -, hholds⟩ := h
  have hloaded : onMachine (loadEntries depthLimit (m.libraries.flatMap (·.entries)) .standard
      .empty) ⟨⟨.empty, gas⟩, store⟩ = (.ok (l.types, l.env), ⟨l.machine, store⟩) :=
    onMachine_of_eq hloads.run
  have hargs : (Run.ofExcept (admitArguments m.allParams args []) : DeployM Admitted)
      ⟨l.machine, store⟩ = (.ok admitted, ⟨l.machine, store⟩) :=
    Run.ofExcept_eq_ok.mpr ⟨hadmitted, rfl⟩
  have hbind : onMachine (EvalM.bindAll l.env admitted.named) ⟨l.machine, store⟩ =
      (.ok env, ⟨⟨arena, l.machine.gas⟩, store⟩) :=
    onMachine_of_eq (EvalM.bindAll_eq_ok_iff.mpr ⟨hbound, rfl⟩)
  have hcheck : onMachine (checkConstraint ⟨l.types, depthLimit⟩ env m.constraint)
      ⟨⟨arena, l.machine.gas⟩, store⟩ = (.ok (), ⟨opened, store⟩) :=
    onMachine_of_eq (checkConstraint_eq_ok_iff.mpr hholds)
  refine ⟨admitted.pending, ?_⟩
  simp only [opening]
  rw [Run.bind_of_ok hloaded, Run.bind_of_ok hargs, Run.bind_of_ok hbind, Run.bind_of_ok hcheck]
  rfl

end DeployM

section

variable {depthLimit : Nat} {m : Module} {args : List (String × Value)} {gas : Nat}

theorem deploy_of_not_opens (h : ∀ l env opened, ¬ Opens depthLimit m args gas l env opened)
    (balance : Tokens) (store : Store) :
    ∃ fault left, deploy depthLimit m args balance store gas = ⟨.error fault, left, store⟩ := by
  cases hopening : DeployM.opening depthLimit m args ⟨⟨.empty, gas⟩, store⟩ with
  | mk result d =>
    cases result with
    | error fault =>
      have hkeeps := DeployM.keeps_opening (R := Deployment.SameStore) (fun _ _ ↦ rfl) depthLimit m
        args
      have hstore : d.store = store := hkeeps.of_eq hopening
      refine ⟨fault, d.machine.gas, ?_⟩
      rw [deploy, DeployM.deploy_eq, Run.bind_of_error hopening, ← hstore]
    | ok o =>
      obtain ⟨l, hopens, -⟩ := DeployM.opens_of_opening hopening
      exact absurd hopens (h l _ _)

/-- From a state that is ready for the fields, the fields decide how the deployment ends. -/
theorem deploy_of_opens {l : Loaded} {env : Env} {opened : Machine}
    (h : Opens depthLimit m args gas l env opened) (balance : Tokens) (store : Store) :
    (∃ values last pending,
        Initializes ⟨l.types, depthLimit⟩ env l.library args m.fields opened values last ∧
        deploy depthLimit m args balance store gas =
          ⟨.ok ⟨⟨env, last.arena.freeze, m.fields.map fun f ↦ (f.name, f.ty), balance, l.types⟩,
            pending⟩, last.gas, store.putAll values⟩) ∨
      ∃ done f rest values last, m.fields = done ++ f :: rest ∧
        Initializes ⟨l.types, depthLimit⟩ env l.library args done opened values last ∧
        InitFails ⟨l.types, depthLimit⟩ env l.library args f last ∧
        ∃ fault left, deploy depthLimit m args balance store gas =
          ⟨.error fault, left, store.putAll values⟩ := by
  obtain ⟨pending, hopening⟩ := DeployM.opening_of_opens h store
  obtain ⟨admitted, hadmitted, hconsists⟩ := h.consists
  have hscope : ∀ a, opened.arena.Grows a → a.Scopes env l.library args :=
    fun a ha ↦ (hconsists.grows ha).scopes_of_admitted hadmitted
  rw [deploy, DeployM.deploy_eq, Run.bind_of_ok hopening, DeployM.establish]
  rcases DeployM.initFields_cases (s := ⟨l.types, depthLimit⟩) m.fields ⟨opened, store⟩ hscope with
    ⟨values, last, hfields, hrun⟩ | ⟨done, f, rest, values, last, hsplit, hdone, hf, fault, n, hrun⟩
  · refine .inl ⟨values, last, pending, hfields, ?_⟩
    rw [Run.bind_of_ok hrun]
    rfl
  · refine .inr ⟨done, f, rest, values, last, hsplit, hdone, hf, fault, n.gas, ?_⟩
    rw [Run.bind_of_error hrun]

end

section

variable (depthLimit : Nat) (m : Module) (args : List (String × Value)) (store : Store) (gas : Nat)

/-- A deployment that succeeded went through all phases. -/
structure Established (balance : Tokens) (o : Outcome Deployed) (d : Deployed) : Prop where
  bijection : (args.map Prod.fst).Perm (m.allParams.map Param.name)
  accepted : ∀ p ∈ m.allParams, ∃ v checks, (p.name, v) ∈ args ∧
    v.checkType p.name p.ty = .ok checks
  /-- The environment of the state is the one in which the constraint held and the fields were
  initialized, and names have the same values in it. -/
  phases : ∃ l opened values last, Opens depthLimit m args gas l d.state.env opened ∧
    Initializes ⟨l.types, depthLimit⟩ d.state.env l.library args m.fields opened values last ∧
    (Arena.ofFrozen d.state.frames).Scopes d.state.env l.library args ∧
    store.Receives values o.store ∧ o.gas = last.gas
  declared : d.state.fields = m.fields.map (fun f ↦ (f.name, f.ty)) ∧ d.state.balance = balance

/-- How far a deployment got that failed. -/
inductive NotEstablished (o : Outcome Deployed) : Prop
  /-- It did not come to the fields. -/
  | before (hopens : ∀ l env opened, ¬ Opens depthLimit m args gas l env opened)
      (hstore : o.store = store)
  /-- It failed at a field, before which some were initialized. -/
  | within {l : Loaded} {env : Env} {opened last : Machine} {done rest : List FieldDef}
      {f : FieldDef} {values : List (String × Value)}
      (hopens : Opens depthLimit m args gas l env opened) (hfields : m.fields = done ++ f :: rest)
      (hdone : Initializes ⟨l.types, depthLimit⟩ env l.library args done opened values last)
      (hfails : InitFails ⟨l.types, depthLimit⟩ env l.library args f last)
      (hstore : store.Receives values o.store)

end

/-- If the names of parameters and of fields are distinct, then a deployment that succeeds has bound
each parameter to its argument over the libraries and checked the constraint there, and each field
has the initial value that it has there, with the gas that is left from those before. One that fails
leaves the store as it was, but for the fields before the one at which it fails. -/
theorem deployment_establishes (depthLimit : Nat) (m : Module) (args : List (String × Value))
    (balance : Tokens) (store : Store) (gas : Nat)
    (hparams : (m.allParams.map Param.name).Nodup) (hfields : (m.fields.map FieldDef.name).Nodup) :
    let o := deploy depthLimit m args balance store gas
    (∀ d, o.result = .ok d → Established depthLimit m args store gas balance o d) ∧
      ∀ e, o.result = .error e → NotEstablished depthLimit m args store gas o := by
  intro o
  by_cases hopens : ∃ l env opened, Opens depthLimit m args gas l env opened
  · obtain ⟨l, env, opened, hopens⟩ := hopens
    obtain ⟨admitted, hadmitted, hconsists⟩ := hopens.consists
    have hfit := fit_of_admitArguments hadmitted
    rcases deploy_of_opens hopens balance store with
      ⟨values, last, pending, hinit, ho⟩ |
      ⟨done, f, rest, values, last, hsplit, hdone, hf, fault, left, ho⟩
    · have ho : o = _ := ho
      rw [ho]
      refine ⟨?_, nofun⟩
      rintro _ ⟨⟩
      have hdistinct : (values.map Prod.fst).Nodup := hinit.names ▸ hfields
      have hfrozen := (hconsists.grows hinit.grows).freeze.scopes_of_admitted hadmitted
      have hstore := store.receives_putAll hdistinct
      exact ⟨hfit.perm hparams, fun p hp ↦ hfit.exists_checked hp List.not_mem_nil,
        ⟨l, opened, values, last, hopens, hinit, hfrozen, hstore, rfl⟩, rfl, rfl⟩
    · have ho : o = _ := ho
      rw [ho]
      refine ⟨nofun, fun _ _ ↦ .within hopens hsplit hdone hf (store.receives_putAll ?_)⟩
      rw [hsplit, List.map_append, ← hdone.names] at hfields
      exact hfields.of_append_left
  · have hunopened : ∀ l env opened, ¬ Opens depthLimit m args gas l env opened :=
      fun l env opened h ↦ hopens ⟨l, env, opened, h⟩
    obtain ⟨fault, left, ho⟩ := deploy_of_not_opens hunopened balance store
    have ho : o = _ := ho
    rw [ho]
    exact ⟨nofun, fun _ _ ↦ .before hunopened rfl⟩

namespace Register

/-- A contract whose library hides an entry of the one that it imports. -/
def code : Module where
  name := "Register"
  imports := [⟨"Base", [.value "limit" (.literal (.int .uint32 5))]⟩]
  library := some ⟨"Register", [ .value "limit" (.literal (.int .uint32 7)),
    .value "open" (.construct "True" [] []) ]⟩
  params := [⟨"title", .string⟩]
  constraint := some (.var "open")
  fields := [⟨"most", .uint32, .var "limit"⟩, ⟨"name", .string, .var "title"⟩]
  components := []

/-- The same contract with a function in one of its fields. -/
def faulty : Module :=
  { code with fields :=
    [ ⟨"most", .uint32, .var "limit"⟩, ⟨"fee", .uint32, .fn "x" .uint32 (.var "x")⟩,
      ⟨"name", .string, .var "title"⟩ ] }

def args : List (String × Value) :=
  [ (Label.languageVersion, .int (.ofUInt32 0)),
    (Label.creationBlock, .bnum 1),
    (Label.thisAddress, .bystrx (List.replicate addressWidth 9)),
    ("title", .str "guests") ]

theorem store_code : (deploy 4 code args .zero .empty 50).store =
    ⟨[("most", .int (.ofUInt32 7)), ("name", .str "guests")], []⟩ := rfl

theorem store_faulty : (deploy 4 faulty args .zero .empty 50).store =
    ⟨[("most", .int (.ofUInt32 7))], []⟩ := rfl

end Register

/-- The first contract is deployed with its own limit. The second one fails at the function; the
field before it has been stored, the one after it has not. -/
theorem deployment_establishes_register :
    let o := deploy 4 Register.code Register.args .zero .empty 50
    let o' := deploy 4 Register.faulty Register.args .zero .empty 50
    (o.result.isOk ∧ o.store.field? "most" = some (.int (.ofUInt32 7)) ∧
        o.store.field? "name" = some (.str "guests") ∧
        ∀ d, o.result = .ok d → Established 4 Register.code Register.args .empty 50 .zero o d) ∧
      ¬ o'.result.isOk ∧ o'.store.field? "most" = some (.int (.ofUInt32 7)) ∧
        o'.store.field? "name" = none ∧ ∀ e, o'.result = .error e →
          NotEstablished 4 Register.faulty Register.args .empty 50 o' := by
  have hparams : (Register.code.allParams.map Param.name).Nodup := by decide
  have hok := (deployment_establishes 4 Register.code Register.args .zero .empty 50 hparams
    (by decide)).1
  have hfaulty := (deployment_establishes 4 Register.faulty Register.args .zero .empty 50 hparams
    (by decide)).2
  intro o o'
  have hstore : o.store = _ := Register.store_code
  have hstore' : o'.store = _ := Register.store_faulty
  rw [hstore, hstore']
  exact ⟨⟨by decide +kernel, rfl, rfl, hok⟩, by decide +kernel, rfl, rfl, hfaulty⟩

end MeteredContract
