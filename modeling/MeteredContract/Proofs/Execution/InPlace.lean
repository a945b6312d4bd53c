import MeteredContract.Proofs.Execution.Success
import MeteredContract.Proofs.Primitive.Price
import MeteredContract.Proofs.Scope.Lookup
import MeteredContract.Proofs.Store.Purity

/-!
Maps in place. A field that is a map can be worked on in two ways: load it, apply a primitive and
store the result, or read and update it where it is stored. The second way succeeds whenever the
first does, and comes to the same (`in_place_agrees`). It needs no gas for the primitive and binds
fewer names.
-/

set_option autoImplicit false
set_option relaxedAutoImplicit false

namespace MeteredContract

section Blocks

variable {s : Setting} {room : Nat} {scene : Scene} {t u : Session} {m x y k : String}

/-- Loading a field and applying a primitive to it binds what the primitive makes of the stored
value and of the values that the other names had before. -/
theorem run_of_load_builtin {p : Primitive} {targs : List Ty} {names : List String} (hx : x ∉ names)
    (h : exec s room scene [.load x m, .bind y (.builtin p.name targs (x :: names))] t =
      (.ok (), u)) :
    ∃ v vs ret w, ExecM.load scene m t = (.ok v, t) ∧
      t.machine.arena.lookupAll t.env names = .ok vs ∧ p.Takes (v :: vs) ret ∧
      p.run (v :: vs) ret = .ok w ∧ u.machine.arena.lookup u.env y = .ok w ∧
      u.store = t.store := by
  obtain ⟨mid, hload, h⟩ := exec_cons_eq_ok_iff.mp h
  obtain ⟨v, hv, rfl⟩ := Stmt.execWith_load.mp hload
  obtain ⟨last, hbind, h⟩ := exec_cons_eq_ok_iff.mp h
  obtain rfl := exec_nil_eq_ok_iff.mp h
  obtain ⟨w, n, heval, rfl⟩ := Stmt.execWith_bind.mp hbind
  obtain ⟨call, hcall, hrun, -⟩ := EvalM.primitive_of_ok heval
  obtain ⟨hargs, hop, htakes⟩ := Arena.takes_of_primitiveCall hcall
  obtain rfl : p = call.op := Option.some.inj ((Primitive.ofName?_name p).symm.trans hop)
  obtain ⟨v', vs, heq, hv', hvs⟩ := Arena.lookupAll_cons_eq_ok.mp hargs
  obtain rfl : v = v' := Except.ok.inj ((Arena.lookup_bind ..).symm.trans hv')
  rw [heq] at htakes hrun
  exact ⟨v, vs, call.ret, w, hv, Arena.lookupAll_of_lookupAll_bind hx hvs, htakes, hrun,
    Arena.lookup_bind .., rfl⟩

/-- It succeeds if the primitive has a result there and the gas covers its price. -/
theorem exists_run_load_builtin {op : String} {targs : List Ty} {names : List String} {v w : Value}
    {mid : Session} {call : PrimitiveCall} {n : Nat} (hload : ExecM.load scene m t = (.ok v, t))
    (hmid : mid = t.bound t.env [(x, v)])
    (hcall : mid.machine.arena.primitiveCall mid.env op (x :: names) = .ok call)
    (hn : Gas.resolve (mid.machine.arena.lookup mid.env) call.price = .ok n)
    (hle : n ≤ mid.machine.gas) (hresult : call.op.run call.args call.ret = .ok w) :
    ∃ u, exec s room scene [.load x m, .bind y (.builtin op targs (x :: names))] t = (.ok (), u) ∧
      u.machine.arena.lookup u.env y = .ok w := by
  let paid : Machine := ⟨mid.machine.arena, mid.machine.gas - n⟩
  have heval : eval s room (.builtin op targs (x :: names)) mid.env mid.machine =
      (.ok w, paid) := by
    refine (EvalM.primitive_eq hcall hn).trans ?_
    rw [if_pos hle, hresult]
    rfl
  let last : Session := { mid with machine := paid }.bound mid.env [(y, w)]
  refine ⟨last, exec_cons_eq_ok_iff.mpr ⟨mid, Stmt.execWith_load.mpr ⟨v, hload, hmid⟩, ?_⟩,
    Arena.lookup_bind ..⟩
  exact exec_cons_eq_ok_iff.mpr
    ⟨last, Stmt.execWith_bind.mpr ⟨w, paid, heval, rfl⟩, exec_nil_eq_ok_iff.mpr rfl⟩

/-! ### A key of a stored map -/

section Stored

variable {store : Store} {entries : MapValue} (hload : store.load m = .ok (.map entries))
include hload

theorem Store.mapGet_key (key : Value) (fetch : Bool) :
    store.mapGet m [key] fetch =
      .ok (if fetch then .ofOption entries.valTy (entries.get? key)
        else .bool (entries.get? key).isSome) := by
  have hty : KeyPath.tyAt? entries.valTy 0 = some entries.valTy := by rw [KeyPath.tyAt?]
  simp only [mapGet, hload, bind, Except.bind, KeyPath.read, List.length_nil, hty, KeyPath.entry?]
  rfl

theorem Store.mapUpdate_insert (key val : Value) :
    store.mapUpdate m [key] (some val) = .ok (store.put m (.map (entries.insert key val))) := by
  rw [mapUpdate, hload]
  rfl

theorem Store.mapUpdate_erase (key : Value) :
    store.mapUpdate m [key] none = .ok (store.put m (.map (entries.erase key))) := by
  rw [mapUpdate, hload]
  rfl

end Stored

/-! ### The two ways -/

/-- An update that ends with storing a map can be made in place, if that writes the same map. The
map is only stored if it is pure. -/
theorem mapUpdate_of_store {mid : Session} {key : Value} {entries : MapValue}
    {written : Option String} {val : Option Value}
    (hkey : t.machine.arena.lookupAll t.env [k] = .ok [key]) (hmid : mid.store = t.store)
    (hy : mid.machine.arena.lookup mid.env y = .ok (.map entries))
    (hlast : exec s room scene [.store m y] mid = (.ok (), u))
    (hwritten : (Value.map entries).isPure = true → Written t written val)
    (hupdate : t.store.mapUpdate m [key] val = .ok (t.store.put m (.map entries))) :
    ∃ u', exec s room scene [.mapUpdate m [k] written] t = (.ok (), u') ∧
      u'.store = u.store := by
  obtain ⟨last, hstore, h⟩ := exec_cons_eq_ok_iff.mp hlast
  obtain rfl := exec_nil_eq_ok_iff.mp h
  obtain ⟨-, hdeclared, w, hw, hpure, rfl⟩ := ExecM.store_eq_ok.mp hstore
  obtain rfl := Except.ok.inj (hy.symm.trans hw)
  have hrun := ExecM.mapUpdate_eq_ok.mpr
    ⟨hdeclared, [key], val, _, hkey, hwritten hpure, hupdate, rfl⟩
  refine ⟨_, exec_cons_eq_ok_iff.mpr ⟨_, hrun, exec_nil_eq_ok_iff.mpr rfl⟩, ?_⟩
  show t.store.put m _ = mid.store.put m _
  rw [hmid]

theorem mapGet_of_load {entries : MapValue} {key : Value}
    (hload : ExecM.load scene m t = (.ok (.map entries), t))
    (hkey : t.machine.arena.lookupAll t.env [k] = .ok [key]) (fetch : Bool) :
    ∃ u', exec s room scene [.mapGet y m [k] fetch] t = (.ok (), u') ∧
      u'.machine.arena.lookup u'.env y =
        .ok (if fetch then .ofOption entries.valTy (entries.get? key)
          else .bool (entries.get? key).isSome) ∧
      u'.store = t.store := by
  obtain ⟨hdeclared, hfield, -⟩ := (ExecM.load_eq_ok (ExecM.ne_balance_of_load hload)).mp hload
  have hread := Store.mapGet_key hfield key fetch
  exact ⟨_, exec_cons_eq_ok_iff.mpr ⟨_, Stmt.execWith_mapGet.mpr
    ⟨hdeclared, [key], _, hkey, hread, rfl⟩, exec_nil_eq_ok_iff.mpr rfl⟩,
    Arena.lookup_bind .., rfl⟩

/-! ### The four operations -/

variable {targs : List Ty}

theorem put_in_place {v : String} (hk : x ≠ k) (hv : x ≠ v)
    (h : exec s room scene
      [.load x m, .bind y (.builtin "put" targs [x, k, v]), .store m y] t = (.ok (), u)) :
    ∃ u', exec s room scene [.mapUpdate m [k] (some v)] t = (.ok (), u') ∧ u'.store = u.store := by
  have hfresh : x ∉ [k, v] := by simp [hk, hv]
  obtain ⟨mid, hfirst, hlast⟩ := exec_append_eq_ok_iff (b := [_, _]).mp h
  obtain ⟨stored, vs, ret, w, hload, hvs, htakes, hrun, hy, hstore⟩ :=
    run_of_load_builtin (p := .put) hfresh hfirst
  obtain ⟨key, vs, rfl, hkey, hvs⟩ := Arena.lookupAll_cons_eq_ok.mp hvs
  obtain ⟨val, vs, rfl, hval, hvs⟩ := Arena.lookupAll_cons_eq_ok.mp hvs
  cases hvs
  cases htakes with
  | @put entries =>
    cases hrun
    obtain ⟨-, hfield, -⟩ := (ExecM.load_eq_ok (ExecM.ne_balance_of_load hload)).mp hload
    have hkeys : t.machine.arena.lookupAll t.env [k] = .ok [key] :=
      Arena.lookupAll_cons_eq_ok.mpr ⟨key, [], rfl, hkey, rfl⟩
    refine mapUpdate_of_store hkeys hstore hy hlast (fun hpure ↦ .var hval ?_)
      (Store.mapUpdate_insert hfield key val)
    obtain ⟨e, he, -, rfl⟩ := TypedMap.exists_of_insert entries key val
    exact ((Value.isPure_map_iff _).mp hpure e he).2

theorem remove_in_place (hk : x ≠ k)
    (h : exec s room scene
      [.load x m, .bind y (.builtin "remove" targs [x, k]), .store m y] t = (.ok (), u)) :
    ∃ u', exec s room scene [.mapUpdate m [k] none] t = (.ok (), u') ∧ u'.store = u.store := by
  have hfresh : x ∉ [k] := by simp [hk]
  obtain ⟨mid, hfirst, hlast⟩ := exec_append_eq_ok_iff (b := [_, _]).mp h
  obtain ⟨stored, vs, ret, w, hload, hvs, htakes, hrun, hy, hstore⟩ :=
    run_of_load_builtin (p := .remove) hfresh hfirst
  cases htakes with
  | arithmetic hp => exact absurd hp (by decide)
  | @remove entries key =>
    cases hrun
    obtain ⟨-, hfield, -⟩ := (ExecM.load_eq_ok (ExecM.ne_balance_of_load hload)).mp hload
    exact mapUpdate_of_store hvs hstore hy hlast (fun _ ↦ .nothing)
      (Store.mapUpdate_erase hfield key)

theorem get_in_place (hk : x ≠ k)
    (h : exec s room scene [.load x m, .bind y (.builtin "get" targs [x, k])] t = (.ok (), u)) :
    ∃ u' w, exec s room scene [.mapGet y m [k] true] t = (.ok (), u') ∧
      u.machine.arena.lookup u.env y = .ok w ∧ u'.machine.arena.lookup u'.env y = .ok w ∧
      u'.store = u.store := by
  have hfresh : x ∉ [k] := by simp [hk]
  obtain ⟨stored, vs, ret, w, hload, hvs, htakes, hrun, hy, hstore⟩ :=
    run_of_load_builtin (p := .get) hfresh h
  cases htakes with
  | arithmetic hp => exact absurd hp (by decide)
  | @get entries key =>
    cases hrun
    obtain ⟨u', hexec, hy', hstore'⟩ := mapGet_of_load hload hvs true
    exact ⟨u', _, hexec, hy, hy', hstore'.trans hstore.symm⟩

theorem contains_in_place (hk : x ≠ k)
    (h : exec s room scene
      [.load x m, .bind y (.builtin "contains" targs [x, k])] t = (.ok (), u)) :
    ∃ u' b, exec s room scene [.mapGet y m [k] false] t = (.ok (), u') ∧
      u.machine.arena.lookup u.env y = .ok (.bool b) ∧
      u'.machine.arena.lookup u'.env y = .ok (.bool b) ∧ u'.store = u.store := by
  have hfresh : x ∉ [k] := by simp [hk]
  obtain ⟨stored, vs, ret, w, hload, hvs, htakes, hrun, hy, hstore⟩ :=
    run_of_load_builtin (p := .contains) hfresh h
  cases htakes with
  | arithmetic hp => exact absurd hp (by decide)
  | @contains entries key =>
    cases hrun
    obtain ⟨u', hexec, hy', hstore'⟩ := mapGet_of_load hload hvs false
    exact ⟨u', _, hexec, hy, hy', hstore'.trans hstore.symm⟩

/-- A block that loads a map, applies a primitive at a key and, if that changes the map, stores it
can be replaced by one statement that works in place. If the block succeeds, then so does the
statement, with the same fields, and it reads the same. Only the name of the loaded map has to be
another than those of the key and of the value. -/
theorem in_place_agrees (targs : List Ty) (block inPlace : List Stmt) (hk : x ≠ k)
    (hrun : exec s room scene block t = (.ok (), u)) :
    (∀ v, x ≠ v →
      block.map Stmt.unlocated =
        [.load x m, .bind y (.builtin "put" targs [x, k, v]), .store m y] →
      inPlace.map Stmt.unlocated = [.mapUpdate m [k] (some v)] →
        ∃ u', exec s room scene inPlace t = (.ok (), u') ∧ u'.store = u.store) ∧
    (block.map Stmt.unlocated =
        [.load x m, .bind y (.builtin "remove" targs [x, k]), .store m y] →
      inPlace.map Stmt.unlocated = [.mapUpdate m [k] none] →
        ∃ u', exec s room scene inPlace t = (.ok (), u') ∧ u'.store = u.store) ∧
    (block.map Stmt.unlocated = [.load x m, .bind y (.builtin "get" targs [x, k])] →
      inPlace.map Stmt.unlocated = [.mapGet y m [k] true] →
        ∃ u' w, exec s room scene inPlace t = (.ok (), u') ∧
          u.machine.arena.lookup u.env y = .ok w ∧ u'.machine.arena.lookup u'.env y = .ok w ∧
          u'.store = u.store) ∧
    (block.map Stmt.unlocated = [.load x m, .bind y (.builtin "contains" targs [x, k])] →
      inPlace.map Stmt.unlocated = [.mapGet y m [k] false] →
        ∃ u' b, exec s room scene inPlace t = (.ok (), u') ∧
          u.machine.arena.lookup u.env y = .ok (.bool b) ∧
          u'.machine.arena.lookup u'.env y = .ok (.bool b) ∧ u'.store = u.store) := by
  refine ⟨fun v hv hblock hplace ↦ ?_, fun hblock hplace ↦ ?_, fun hblock hplace ↦ ?_,
    fun hblock hplace ↦ ?_⟩ <;>
    simp only [exec_eq_ok_iff_unlocated hplace (by simp [Stmt.isSimple])] <;>
    rw [exec_eq_ok_iff_unlocated hblock (by simp [Stmt.isSimple])] at hrun
  · exact put_in_place hk hv hrun
  · exact remove_in_place hk hrun
  · exact get_in_place hk hrun
  · exact contains_in_place hk hrun

end Blocks

namespace Ledger

def setting : Setting := ⟨.standard, 2⟩

def scene : Scene where
  initEnv := .empty
  fields := [("m", .map .uint32 .string)]
  incoming := .zero
  chain := .empty
  procedures := []
  trail := []

def key : Value := .int (.ofUInt32 1)

def stored (entries : List (Value × Value)) : MapValue := ⟨.uint32, .string, entries⟩

def start (entries : List (Value × Value)) : Session :=
  let (arena, env) := Arena.empty.bindAll .empty [("k", key), ("v", .str "a")]
  let store : Store := ⟨[("m", .map (stored entries))], []⟩
  ⟨⟨arena, wordCount 64⟩, env, .zero, false, [], [], store⟩

def load : Stmt := .located ⟨3, 9⟩ (.load "x" "m")

def applied (op : String) (names : List String) : Stmt :=
  .bind "y" (.located ⟨10, 30⟩ (.builtin op [] ("x" :: names)))

def store : Stmt := .store "m" "y"

def run (entries : List (Value × Value)) (block : List Stmt) : Except Fault Unit × Session :=
  exec setting 2 scene block (start entries)

theorem run_of_isOk {entries : List (Value × Value)} {block : List Stmt}
    (h : (run entries block).1.isOk = true) :
    exec setting 2 scene block (start entries) = (.ok (), (run entries block).2) := by
  refine Prod.ext ?_ rfl
  show (run entries block).1 = .ok ()
  cases hresult : (run entries block).1 with
  | error e => simp [hresult, Except.isOk, Except.toBool] at h
  | ok r => rfl

/-- Loading the map and applying the primitive succeeds and binds the value. -/
def Gives (entries : List (Value × Value)) (op : String) (names : List String) (w : Value) : Prop :=
  ∃ u, run entries [load, applied op names] = (.ok (), u) ∧
    u.machine.arena.lookup u.env "y" = .ok w

/-- The session after the map was loaded. -/
def loaded (entries : List (Value × Value)) : Session :=
  (start entries).bound (start entries).env [("x", .map (stored entries))]

theorem gives_of_call (hlogs : Gas.RoundsLogs) {entries : List (Value × Value)} {op : String}
    {names : List String} {p : Primitive} {args : List Value} {ret : Ty} {w : Value}
    (hcall : (loaded entries).machine.arena.primitiveCall (loaded entries).env op ("x" :: names) =
      .ok ⟨p, args, ret, Gas.mapAccessPrice "x"⟩)
    (hresult : p.run args ret = .ok w) : Gives entries op names w := by
  have hmap : (loaded entries).machine.arena.lookup (loaded entries).env "x" =
      .ok (.map (stored entries)) := Arena.lookup_bind ..
  obtain ⟨n, hn, hprice⟩ := Gas.resolve_mapAccessPrice hlogs hmap (.map _)
  have hload : ExecM.load scene "m" (start entries) = (.ok (.map (stored entries)), _) := rfl
  obtain ⟨u, hrun, hy⟩ := exists_run_load_builtin hload rfl hcall hprice (Nat.le_of_lt hn) hresult
  have hplain : [load, applied op names].map Stmt.unlocated =
      [.load "x" "m", .bind "y" (.builtin op [] ("x" :: names))] := rfl
  exact ⟨u, (exec_eq_ok_iff_unlocated hplain (by simp [Stmt.isSimple])).mpr hrun, hy⟩

/-- A map that was bound can be stored. -/
theorem Gives.exists_run_store {entries : List (Value × Value)} {op : String} {names : List String}
    {m : MapValue} (h : Gives entries op names (.map m)) (hpure : (Value.map m).isPure = true) :
    ∃ u, run entries [load, applied op names, store] = (.ok (), u) := by
  obtain ⟨mid, hrun, hy⟩ := h
  have hstore : ExecM.store scene "m" "y" mid = (.ok (), _) :=
    ExecM.store_eq_ok.mpr ⟨by decide, rfl, .map m, hy, hpure, rfl⟩
  exact ⟨_, (exec_append_eq_ok_iff (b := [_, _])).mpr
    ⟨mid, hrun, exec_cons_eq_ok_iff.mpr ⟨_, hstore, exec_nil_eq_ok_iff.mpr rfl⟩⟩⟩

/-- What the four primitives give at the key. -/
structure Evaluates (entries : List (Value × Value)) : Prop where
  put : Gives entries "put" ["k", "v"] (.map ((stored entries).insert key (.str "a")))
  remove : Gives entries "remove" ["k"] (.map ((stored entries).erase key))
  get : Gives entries "get" ["k"] (.ofOption .string ((stored entries).get? key))
  contains : Gives entries "contains" ["k"] (.bool ((stored entries).get? key).isSome)

theorem evaluates_empty : Evaluates [] where
  put := ⟨_, run_of_isOk (by decide +kernel), rfl⟩
  remove := ⟨_, run_of_isOk (by decide +kernel), rfl⟩
  get := ⟨_, run_of_isOk (by decide +kernel), rfl⟩
  contains := ⟨_, run_of_isOk (by decide +kernel), rfl⟩

theorem evaluates (hlogs : Gas.RoundsLogs) (entries : List (Value × Value)) : Evaluates entries where
  put := gives_of_call hlogs rfl rfl
  remove := gives_of_call hlogs rfl rfl
  get := gives_of_call hlogs rfl rfl
  contains := gives_of_call hlogs rfl rfl

/-- All four blocks succeed over the stored map, and so do the statements in their place. -/
structure Agrees (entries : List (Value × Value)) : Prop where
  put : ∃ u u', run entries [load, applied "put" ["k", "v"], store] = (.ok (), u) ∧
    run entries [.mapUpdate "m" ["k"] (some "v")] = (.ok (), u') ∧ u'.store = u.store
  remove : ∃ u u', run entries [load, applied "remove" ["k"], store] = (.ok (), u) ∧
    run entries [.mapUpdate "m" ["k"] none] = (.ok (), u') ∧ u'.store = u.store
  get : ∃ u u', run entries [load, applied "get" ["k"]] = (.ok (), u) ∧
    run entries [.mapGet "y" "m" ["k"] true] = (.ok (), u') ∧
    u.machine.arena.lookup u.env "y" = .ok (.ofOption .string ((stored entries).get? key)) ∧
    u'.machine.arena.lookup u'.env "y" = .ok (.ofOption .string ((stored entries).get? key))
  contains : ∃ u u', run entries [load, applied "contains" ["k"]] = (.ok (), u) ∧
    run entries [.mapGet "y" "m" ["k"] false] = (.ok (), u') ∧
    u.machine.arena.lookup u.env "y" = .ok (.bool ((stored entries).get? key).isSome) ∧
    u'.machine.arena.lookup u'.env "y" = .ok (.bool ((stored entries).get? key).isSome)

end Ledger

open Ledger in
/-- The two ways agree at a key that is not there and at one that is. The price of access to a map
with entries has a logarithm in it, so that the blocks succeed there depends on how doubles are
rounded. -/
theorem in_place_agrees_ledger :
    Agrees [] ∧ (Gas.RoundsLogs → Agrees [(key, .str "b")]) := by
  have hagrees : ∀ entries, Evaluates entries →
      (Value.map ((stored entries).insert key (.str "a"))).isPure = true →
      (Value.map ((stored entries).erase key)).isPure = true → Agrees entries := by
    intro entries h hpure hpure'
    have hne : "x" ≠ "k" := by decide
    obtain ⟨u₁, hput⟩ := h.put.exists_run_store hpure
    obtain ⟨u₂, hremove⟩ := h.remove.exists_run_store hpure'
    obtain ⟨u₃, hget, hfound⟩ := h.get
    obtain ⟨u₄, hcontains, hthere⟩ := h.contains
    obtain ⟨hplace, -⟩ := in_place_agrees [] _ [.mapUpdate "m" ["k"] (some "v")] hne hput
    obtain ⟨u₁', hput', hstore₁⟩ := hplace "v" (by decide) rfl rfl
    obtain ⟨-, hplace, -⟩ := in_place_agrees [] _ [.mapUpdate "m" ["k"] none] hne hremove
    obtain ⟨u₂', hremove', hstore₂⟩ := hplace rfl rfl
    obtain ⟨-, -, hplace, -⟩ := in_place_agrees [] _ [.mapGet "y" "m" ["k"] true] hne hget
    obtain ⟨u₃', w, hget', hw, hw', -⟩ := hplace rfl rfl
    obtain ⟨-, -, -, hplace⟩ := in_place_agrees [] _ [.mapGet "y" "m" ["k"] false] hne hcontains
    obtain ⟨u₄', b, hcontains', hb, hb', -⟩ := hplace rfl rfl
    exact ⟨⟨u₁, u₁', hput, hput', hstore₁⟩, ⟨u₂, u₂', hremove, hremove', hstore₂⟩,
      ⟨u₃, u₃', hget, hget', hfound, hw'.trans (hw.symm.trans hfound)⟩,
      ⟨u₄, u₄', hcontains, hcontains', hthere, hb'.trans (hb.symm.trans hthere)⟩⟩
  exact ⟨hagrees _ evaluates_empty rfl rfl, fun hlogs ↦ hagrees _ (evaluates hlogs _) rfl rfl⟩

end MeteredContract
