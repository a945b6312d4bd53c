import MeteredContract.Proofs.Value.Equality
import MeteredContract.Store

/-!
Purity of what is stored. A key that the order takes for a pure key is pure itself
(`Value.isPure_eq_of_cmp`), so in a pure map only entries that are not there yet can bring a closure
in. Hence an update along a path leaves a pure field pure if it deletes, and if it writes a pure
value exactly when all keys of the path are pure.
-/

set_option autoImplicit false
set_option relaxedAutoImplicit false

namespace MeteredContract

namespace Value

/-- Values that are equal in the order are both pure or both not. -/
theorem isPure_eq_of_cmp {v w : Value} (h : v.cmp w = .eq) : v.isPure = w.isPure :=
  eq_of_cmp (isPure_form id) h

theorem isPure_map_iff (m : MapValue) :
    (map m).isPure = true ↔ ∀ e ∈ m.entries, e.1.isPure = true ∧ e.2.isPure = true := by
  rw [isPure, entriesPure_iff]

end Value

open Value

/-! ### Maps -/

namespace TypedMap

variable {m : MapValue} {key val : Value}

theorem isPure_empty (keyTy valTy : Ty) : (Value.map (empty keyTy valTy)).isPure = true := rfl

/-- What is found in a pure map is pure, and it is found only under a pure key. -/
theorem isPure_of_get? (hm : (Value.map m).isPure = true) (h : m.get? key = some val) :
    key.isPure = true ∧ val.isPure = true := by
  obtain ⟨e, he, hkey, rfl⟩ := exists_of_get? h
  obtain ⟨hfirst, hsecond⟩ := (isPure_map_iff m).mp hm e he
  exact ⟨(isPure_eq_of_cmp hkey).trans hfirst, hsecond⟩

/-- An entry keeps its own key, but that is as pure as the one at which it is written. -/
theorem isPure_insert_iff (hm : (Value.map m).isPure = true) :
    (Value.map (m.insert key val)).isPure = true ↔ key.isPure = true ∧ val.isPure = true := by
  rw [isPure_map_iff] at hm ⊢
  constructor
  · intro h
    obtain ⟨e, he, hkey, rfl⟩ := exists_of_insert m key val
    exact ⟨(isPure_eq_of_cmp hkey).trans (h e he).1, (h e he).2⟩
  · rintro ⟨hkey, hval⟩
    exact forall_insert (p := fun k ↦ k.isPure = true) (q := fun v ↦ v.isPure = true) hm hkey hval

theorem isPure_erase (key : Value) (hm : (Value.map m).isPure = true) :
    (Value.map (m.erase key)).isPure = true := by
  rw [isPure_iff] at hm ⊢
  exact each_erase key hm

end TypedMap

/-! ### Paths of keys -/

namespace KeyPath

variable {field : String} {m m' : MapValue} {key : Value} {rest : List Value}

/-- Deleting leaves a pure map pure, whatever the keys are. -/
theorem isPure_of_delete (hm : (Value.map m).isPure = true)
    (h : update field none m key rest = .ok m') : (Value.map m').isPure = true := by
  induction rest generalizing m m' key with
  | nil =>
    cases h
    exact TypedMap.isPure_erase key hm
  | cons next rest ih =>
    unfold update at h
    split at h
    · next inner hget =>
      obtain ⟨hkey, hinner⟩ := TypedMap.isPure_of_get? hm hget
      obtain ⟨inner', hinner', h⟩ := except_bind_eq_ok.mp h
      cases h
      exact (TypedMap.isPure_insert_iff hm).mpr ⟨hkey, ih hinner hinner'⟩
    · cases h
    · cases h
      exact hm
    · next heq _ => cases heq
    · cases h

/-- Writing a pure value leaves a pure map pure exactly if all keys are pure. -/
theorem isPure_insert_iff {v : Value} (hv : v.isPure = true) (hm : (Value.map m).isPure = true)
    (h : update field (some v) m key rest = .ok m') :
    (Value.map m').isPure = true ↔ ∀ k ∈ key :: rest, k.isPure = true := by
  induction rest generalizing m m' key with
  | nil =>
    cases h
    rw [TypedMap.isPure_insert_iff hm, List.forall_mem_singleton]
    exact and_iff_left hv
  | cons next rest ih =>
    rw [List.forall_mem_cons]
    unfold update at h
    split at h
    · next inner hget =>
      obtain ⟨inner', hinner', h⟩ := except_bind_eq_ok.mp h
      cases h
      rw [TypedMap.isPure_insert_iff hm, ih (TypedMap.isPure_of_get? hm hget).2 hinner']
    · cases h
    · next heq => cases heq
    · obtain ⟨inner', hinner', h⟩ := except_bind_eq_ok.mp h
      cases h
      rw [TypedMap.isPure_insert_iff hm, ih (TypedMap.isPure_empty _ _) hinner']
    · cases h

end KeyPath

/-! ### Stores -/

namespace Store

variable {s s' : Store} {field map : String} {keys : List Value}

/-- The field of the running contract holds no closure. -/
def PureAt (s : Store) (field : String) : Prop := ∀ v, s.field? field = some v → v.isPure = true

/-- No field of the running contract holds a closure. -/
def Pure (s : Store) : Prop := ∀ field, s.PureAt field

theorem pure_empty : empty.Pure := nofun

theorem field?_put (s : Store) (field name : String) (v : Value) :
    (s.put field v).field? name = if field = name then some v else s.field? name :=
  s.fields.get?_put field name v

theorem pureAt_put_self (s : Store) (field : String) (v : Value) :
    (s.put field v).PureAt field ↔ v.isPure = true := by
  simp [PureAt, field?_put]

theorem pureAt_put_of_ne (s : Store) (hne : map ≠ field) (v : Value) :
    (s.put map v).PureAt field ↔ s.PureAt field := by
  simp [PureAt, field?_put, hne]

theorem PureAt.put (hs : s.PureAt field) (name : String) {v : Value} (hv : v.isPure = true) :
    (s.put name v).PureAt field := by
  by_cases hname : name = field
  · subst hname
    exact (pureAt_put_self s name v).mpr hv
  · exact (pureAt_put_of_ne s hname v).mpr hs

/-- An update that succeeds works on a map and has a key. -/
theorem mapUpdate_eq_ok {val : Option Value} (h : s.mapUpdate map keys val = .ok s') :
    ∃ m m' key rest, keys = key :: rest ∧ s.field? map = some (.map m) ∧
      KeyPath.update map val m key rest = .ok m' ∧ s' = s.put map (.map m') := by
  obtain ⟨v, hload, hmatch⟩ := except_bind_eq_ok.mp h
  split at hmatch
  · next m key rest =>
    obtain ⟨m', hm', hput⟩ := except_bind_eq_ok.mp hmatch
    cases hput
    refine ⟨m, m', key, rest, rfl, ?_, hm', rfl⟩
    unfold load at hload
    split at hload
    · next hfield =>
      cases hload
      exact hfield
    · cases hload
  · cases hmatch
  · cases hmatch

/-- An update does not touch other fields. -/
theorem PureAt.mapUpdate_of_ne (hs : s.PureAt field) (hne : map ≠ field) {val : Option Value}
    (h : s.mapUpdate map keys val = .ok s') : s'.PureAt field := by
  obtain ⟨m, m', key, rest, rfl, hmap, hm', rfl⟩ := mapUpdate_eq_ok h
  exact (pureAt_put_of_ne s hne _).mpr hs

theorem PureAt.delete (hs : s.PureAt field) (h : s.mapUpdate field keys none = .ok s') :
    s'.PureAt field := by
  obtain ⟨m, m', key, rest, rfl, hfield, hm', rfl⟩ := mapUpdate_eq_ok h
  rw [pureAt_put_self]
  exact KeyPath.isPure_of_delete (hs _ hfield) hm'

theorem PureAt.insert_iff (hs : s.PureAt field) {v : Value} (hv : v.isPure = true)
    (h : s.mapUpdate field keys (some v) = .ok s') :
    s'.PureAt field ↔ ∀ k ∈ keys, k.isPure = true := by
  obtain ⟨m, m', key, rest, rfl, hfield, hm', rfl⟩ := mapUpdate_eq_ok h
  rw [pureAt_put_self]
  exact KeyPath.isPure_insert_iff hv (hs _ hfield) hm'

end Store

end MeteredContract
