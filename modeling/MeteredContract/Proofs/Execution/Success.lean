import MeteredContract.Proofs.Execution.Effect
import MeteredContract.Proofs.Scope.Immutability

/-!
Runs that succeed. Positions only show in faults, so a run of simple statements that succeeds does
the same without them (`exec_eq_ok_iff_unlocated`), and a block that succeeds is a run of its
statements one after the other.
-/

set_option autoImplicit false
set_option relaxedAutoImplicit false

namespace MeteredContract

/-- The statement without positions around it and around its expression. -/
def Stmt.unlocated : Stmt → Stmt
  | .located _ st => st.unlocated
  | .bind x e => .bind x e.unlocated
  | st => st

open ExecM

variable {s : Setting} {room : Nat}

/-! ### Expressions -/

theorem eval_eq_ok_iff_unlocated {e : Expr} {env : Env} {m n : Machine} {v : Value} :
    eval s room e env m = (.ok v, n) ↔ eval s room e.unlocated env m = (.ok v, n) := by
  induction e with
  | located sp e ih =>
    rw [eval] at ih ⊢
    rw [Expr.evalWith, Run.annotate_eq_ok, ih]
    rfl
  | _ => rfl

/-! ### Steps that succeed -/

namespace ExecM

variable {scene : Scene} {t u : Session}

theorem bind_eq_ok {x : String} {v : Value} {r : Unit} :
    ExecM.bind x v t = (.ok r, u) ↔ u = t.bound t.env [(x, v)] := by
  rw [eq_comm (a := u)]
  exact ⟨fun h ↦ (Prod.mk.inj h).2, fun h ↦ Prod.ext rfl h⟩

theorem checkField_eq_ok {field : String} {r : Unit} :
    checkField scene field t = (.ok r, u) ↔ scene.fields.any (·.1 = field) = true ∧ u = t := by
  unfold checkField
  split
  · next hfield => exact ⟨fun h ↦ ⟨hfield, (Prod.mk.inj h).2.symm⟩, fun h ↦ Prod.ext rfl h.2.symm⟩
  · next hfield => exact ⟨fun h ↦ (nomatch (Prod.mk.inj h).1), fun h ↦ absurd h.1 hfield⟩

theorem checkPure_eq_ok {field : String} {v : Value} {r : Unit} :
    checkPure field v t = (.ok r, u) ↔ v.isPure = true ∧ u = t := by
  unfold checkPure
  split
  · next hpure => exact ⟨fun h ↦ ⟨hpure, (Prod.mk.inj h).2.symm⟩, fun h ↦ Prod.ext rfl h.2.symm⟩
  · next hpure => exact ⟨fun h ↦ (nomatch (Prod.mk.inj h).1), fun h ↦ absurd h.1 hpure⟩

theorem readStore_eq_ok {α : Type} {f : Store → Except StoreFault α} {a : α} :
    readStore f t = (.ok a, u) ↔ f t.store = .ok a ∧ u = t := by
  rw [readStore, Run.read_eq_ok]
  refine and_congr_left fun _ ↦ ?_
  cases f t.store <;> simp

theorem lookup_eq_ok {x : String} {v : Value} :
    lookup x t = (.ok v, u) ↔ t.machine.arena.lookup t.env x = .ok v ∧ u = t :=
  Run.read_eq_ok (f := fun t : Session ↦ t.machine.arena.lookup t.env x)

theorem lookupAll_eq_ok {xs : List String} {vs : List Value} :
    lookupAll xs t = (.ok vs, u) ↔ t.machine.arena.lookupAll t.env xs = .ok vs ∧ u = t :=
  Run.read_eq_ok (f := fun t : Session ↦ t.machine.arena.lookupAll t.env xs)

theorem load_eq_ok {field : String} {v : Value} (hfield : field ≠ Label.balance) :
    load scene field t = (.ok v, u) ↔
      scene.fields.any (·.1 = field) = true ∧ t.store.load field = .ok v ∧ u = t := by
  rw [load, if_neg hfield, Run.bind_eq_ok_iff]
  simp only [checkField_eq_ok, readStore_eq_ok]
  constructor
  · rintro ⟨_, mid, ⟨hdeclared, rfl⟩, hv, hu⟩
    exact ⟨hdeclared, hv, hu⟩
  · rintro ⟨hdeclared, hv, hu⟩
    exact ⟨(), t, ⟨hdeclared, rfl⟩, hv, hu⟩

theorem eq_of_load {field : String} {v : Value} (h : load scene field t = (.ok v, u)) : u = t := by
  by_cases hbalance : field = Label.balance
  · rw [load, if_pos hbalance] at h
    exact (Run.read_eq_ok.mp h).2
  · exact ((load_eq_ok hbalance).mp h).2.2

/-- Of the balance only a number can be read. -/
theorem ne_balance_of_load {field : String} {m : MapValue}
    (h : load scene field t = (.ok (.map m), u)) : field ≠ Label.balance := by
  rintro rfl
  rw [load, if_pos rfl, Run.read_eq_ok] at h
  exact nomatch Except.ok.inj h.1

theorem put_eq_ok {field : String} {v : Value} :
    writeStore (fun s ↦ .ok (s.put field v)) t = (.ok (), u) ↔
      u = { t with store := t.store.put field v } := by
  rw [eq_comm (a := u)]
  exact ⟨fun h ↦ (Prod.mk.inj h).2, fun h ↦ Prod.ext rfl h⟩

theorem store_eq_ok {field x : String} :
    store scene field x t = (.ok (), u) ↔
      field ≠ Label.balance ∧ scene.fields.any (·.1 = field) = true ∧ ∃ v,
        t.machine.arena.lookup t.env x = .ok v ∧ v.isPure = true ∧
        u = { t with store := t.store.put field v } := by
  by_cases hbalance : field = Label.balance
  · rw [store, if_pos hbalance]
    exact ⟨fun h ↦ (nomatch (Prod.mk.inj h).1), fun h ↦ absurd hbalance h.1⟩
  · rw [store, if_neg hbalance]
    simp only [Run.bind_eq_ok_iff, checkField_eq_ok, lookup_eq_ok, checkPure_eq_ok, put_eq_ok]
    constructor
    · rintro ⟨-, _, ⟨hdeclared, rfl⟩, v, _, ⟨hv, rfl⟩, -, _, ⟨hpure, rfl⟩, hu⟩
      exact ⟨hbalance, hdeclared, v, hv, hpure, hu⟩
    · rintro ⟨-, hdeclared, v, hv, hpure, hu⟩
      exact ⟨(), t, ⟨hdeclared, rfl⟩, v, t, ⟨hv, rfl⟩, (), t, ⟨hpure, rfl⟩, hu⟩

theorem writeStore_eq_ok {f : Store → Except StoreFault Store} :
    writeStore f t = (.ok (), u) ↔ ∃ store, f t.store = .ok store ∧ u = { t with store } := by
  rcases writeStore_cases t f with ⟨e, hrun⟩ | ⟨store, hstore, hrun⟩
  · rw [writeStore, readStore, Run.read_bind] at hrun ⊢
    cases hf : f t.store with
    | error e => simp
    | ok store =>
      rw [hf] at hrun
      cases hrun
  · rw [hrun, hstore]
    simp [eq_comm]

theorem mapUpdate_eq_ok {map : String} {names : List String} {x : Option String} :
    mapUpdate scene map names x t = (.ok (), u) ↔
      scene.fields.any (·.1 = map) = true ∧ ∃ keys val store,
        t.machine.arena.lookupAll t.env names = .ok keys ∧ Written t x val ∧
        t.store.mapUpdate map keys val = .ok store ∧ u = { t with store } := by
  constructor
  · intro h
    rcases mapUpdate_cases scene t map names x with
      ⟨e, hrun⟩ | ⟨keys, val, store, hdeclared, hkeys, hval, hstore, hrun⟩
    · rw [hrun] at h
      cases h
    · rw [hrun] at h
      cases h
      exact ⟨hdeclared, keys, val, store, hkeys, hval, hstore, rfl⟩
  · rintro ⟨hdeclared, keys, val, store, hkeys, hval, hstore, hu⟩
    rw [mapUpdate, Run.bind_of_ok (checkField_eq_ok (r := ()) |>.mpr ⟨hdeclared, rfl⟩),
      Run.bind_of_ok (lookupAll_eq_ok.mpr ⟨hkeys, rfl⟩)]
    cases hval with
    | nothing => exact writeStore_eq_ok.mpr ⟨store, hstore, hu⟩
    | var hv hpure =>
      dsimp only
      rw [Run.bind_of_ok (lookup_eq_ok.mpr ⟨hv, rfl⟩),
        Run.bind_of_ok (checkPure_eq_ok (r := ()) |>.mpr ⟨hpure, rfl⟩)]
      exact writeStore_eq_ok.mpr ⟨store, hstore, hu⟩

end ExecM

/-! ### Statements that succeed -/

section Statements

variable {scene : Scene} {site : Span} {t u : Session}

theorem Stmt.execWith_load {x field : String} :
    (Stmt.load x field).execWith (outside s room) scene site t = (.ok (), u) ↔
      ∃ v, ExecM.load scene field t = (.ok v, t) ∧ u = t.bound t.env [(x, v)] := by
  rw [execWith, Run.bind_eq_ok_iff]
  simp only [ExecM.bind_eq_ok]
  constructor
  · rintro ⟨v, mid, hv, hu⟩
    obtain rfl := ExecM.eq_of_load hv
    exact ⟨v, hv, hu⟩
  · rintro ⟨v, hv, hu⟩
    exact ⟨v, t, hv, hu⟩

theorem Stmt.execWith_bind {x : String} {e : Expr} :
    (Stmt.bind x e).execWith (outside s room) scene site t = (.ok (), u) ↔
      ∃ v m, eval s room e t.env t.machine = (.ok v, m) ∧
        u = { t with machine := m }.bound t.env [(x, v)] := by
  rw [execWith, eval_outside, inspect, Run.read_bind, Run.bind_eq_ok_iff]
  simp only [ExecM.bind_eq_ok, onMachine, Run.zoom, Prod.mk.injEq]
  constructor
  · rintro ⟨v, mid, ⟨hv, rfl⟩, hu⟩
    exact ⟨v, _, Prod.ext hv rfl, hu⟩
  · rintro ⟨v, m, hrun, hu⟩
    rw [hrun]
    exact ⟨v, _, ⟨rfl, rfl⟩, hu⟩

theorem Stmt.execWith_mapGet {x map : String} {keys : List String} {fetch : Bool} :
    (Stmt.mapGet x map keys fetch).execWith (outside s room) scene site t = (.ok (), u) ↔
      scene.fields.any (·.1 = map) = true ∧ ∃ ks v,
        t.machine.arena.lookupAll t.env keys = .ok ks ∧ t.store.mapGet map ks fetch = .ok v ∧
        u = t.bound t.env [(x, v)] := by
  rw [execWith]
  simp only [Run.bind_eq_ok_iff, checkField_eq_ok, lookupAll_eq_ok, readStore_eq_ok,
    ExecM.bind_eq_ok]
  constructor
  · rintro ⟨⟨⟩, _, ⟨hfield, rfl⟩, ks, _, ⟨hks, rfl⟩, v, _, ⟨hv, rfl⟩, hu⟩
    exact ⟨hfield, ks, v, hks, hv, hu⟩
  · rintro ⟨hfield, ks, v, hks, hv, hu⟩
    exact ⟨(), t, ⟨hfield, rfl⟩, ks, t, ⟨hks, rfl⟩, v, t, ⟨hv, rfl⟩, hu⟩

end Statements

theorem Stmt.execWith_eq_ok_iff_unlocated {scene : Scene} {st : Stmt}
    (hst : st.unlocated.isSimple = true) {site : Span} {t u : Session} :
    st.execWith (outside s room) scene site t = (.ok (), u) ↔
      st.unlocated.execWith (outside s room) scene .dummy t = (.ok (), u) := by
  induction st generalizing site with
  | located sp st ih =>
    rw [execWith, Run.annotate_eq_ok, ih hst]
    rfl
  | bind x e =>
    rw [unlocated, execWith_bind, execWith_bind]
    exact exists_congr fun v ↦ exists_congr fun m ↦ and_congr_left fun _ ↦ eval_eq_ok_iff_unlocated
  | matching | call | forEach => simp [unlocated, isSimple] at hst
  | _ => rfl

theorem exec_nil_eq_ok_iff {scene : Scene} {t u : Session} :
    exec s room scene [] t = (.ok (), u) ↔ u = t :=
  ⟨fun h ↦ (Prod.mk.inj h).2.symm, fun h ↦ Prod.ext rfl h.symm⟩

theorem exec_cons_eq_ok_iff {scene : Scene} {st : Stmt} {block : List Stmt} {t u : Session} :
    exec s room scene (st :: block) t = (.ok (), u) ↔
      ∃ mid, st.execWith (outside s room) scene .dummy t = (.ok (), mid) ∧
        exec s room scene block mid = (.ok (), u) := by
  rw [exec, execBlock, Run.bind_eq_ok_iff]
  constructor
  · rintro ⟨⟨⟩, mid, hst, hblock⟩
    exact ⟨mid, Run.annotate_eq_ok.mp hst, hblock⟩
  · rintro ⟨mid, hst, hblock⟩
    exact ⟨(), mid, Run.annotate_eq_ok.mpr hst, hblock⟩

theorem exec_append_eq_ok_iff {scene : Scene} {b b' : List Stmt} {t u : Session} :
    exec s room scene (b ++ b') t = (.ok (), u) ↔
      ∃ mid, exec s room scene b t = (.ok (), mid) ∧
        exec s room scene b' mid = (.ok (), u) := by
  induction b generalizing t with
  | nil => simp [exec_nil_eq_ok_iff]
  | cons st b ih =>
    simp only [List.cons_append, exec_cons_eq_ok_iff, ih]
    constructor
    · rintro ⟨mid, hst, next, hb, hb'⟩
      exact ⟨next, ⟨mid, hst, hb⟩, hb'⟩
    · rintro ⟨next, ⟨mid, hst, hb⟩, hb'⟩
      exact ⟨mid, hst, next, hb, hb'⟩

theorem exec_eq_ok_iff_unlocated {scene : Scene} {block plain : List Stmt}
    (hplain : block.map Stmt.unlocated = plain) (hsimple : ∀ st ∈ plain, st.isSimple = true)
    {t u : Session} :
    exec s room scene block t = (.ok (), u) ↔ exec s room scene plain t = (.ok (), u) := by
  subst hplain
  induction block generalizing t with
  | nil => rfl
  | cons st block ih =>
    rw [List.map_cons, List.forall_mem_cons] at hsimple
    rw [List.map_cons, exec_cons_eq_ok_iff, exec_cons_eq_ok_iff]
    exact exists_congr fun mid ↦
      and_congr (Stmt.execWith_eq_ok_iff_unlocated hsimple.1) (ih hsimple.2)

end MeteredContract
