import MeteredContract.Proofs.Value.Entries
import Mathlib.Data.List.Perm.Basic

/-!
Maps are sorted by key, strictly in the order of values, however they came about by insertions and
deletions (`TypedMap.sorted_edited`). On sorted entries a look-up finds every entry by its key
(`MapEntries.get?_eq_some_iff`), and an insertion at a key that is there changes a value and leaves
all keys as they are (`MapEntries.insert_of_present`). An insertion at another key adds one entry
(`MapEntries.insert_of_absent`), and insertions at different keys commute
(`MapEntries.insert_comm`). `TypedMap.Lawful` puts the laws together.
-/

set_option autoImplicit false
set_option relaxedAutoImplicit false

namespace MeteredContract

namespace MapEntries

/-- Every key comes before all keys after it. -/
def Sorted (es : List (Value × Value)) : Prop := es.Pairwise fun e f ↦ e.1.cmp f.1 = .lt

variable {es : List (Value × Value)} {key val : Value}

theorem sorted_nil : Sorted [] := List.Pairwise.nil

theorem sorted_cons {e : Value × Value} :
    Sorted (e :: es) ↔ (∀ f ∈ es, e.1.cmp f.1 = .lt) ∧ Sorted es := List.pairwise_cons

/-! ### Look-ups -/

theorem not_same_of_cmp {k l : Value} {o : Ordering} (h : k.cmp l = o) (ho : o ≠ .eq) :
    ¬ k.same l := by
  rw [Value.same_iff, h]
  exact ho

/-- A key before all others is not found among them. -/
theorem get?_eq_none (h : ∀ e ∈ es, key.cmp e.1 = .lt) : get? es key = none := by
  induction es with
  | nil => rfl
  | cons e es ih =>
    obtain ⟨hfirst, hrest⟩ := List.forall_mem_cons.mp h
    rw [get?, if_neg (not_same_of_cmp hfirst (by decide)), ih hrest]

theorem get?_eq_some_iff (hes : Sorted es) :
    get? es key = some val ↔ ∃ e ∈ es, key.cmp e.1 = .eq ∧ e.2 = val := by
  induction es with
  | nil => simp [get?]
  | cons e es ih =>
    obtain ⟨hfirst, hrest⟩ := sorted_cons.mp hes
    rw [get?]
    by_cases hkey : key.cmp e.1 = .eq
    · -- no later entry has the key as well
      have hlater : ∀ f ∈ es, key.cmp f.1 ≠ .eq := fun f hf h ↦ by
        rw [Std.TransCmp.congr_left hkey, hfirst f hf] at h
        cases h
      rw [if_pos (Value.same_iff.mpr hkey)]
      constructor
      · rintro ⟨⟩
        exact ⟨e, List.mem_cons_self, hkey, rfl⟩
      · rintro ⟨f, hf, hsame, rfl⟩
        obtain rfl | hf := List.mem_cons.mp hf
        · rfl
        · exact absurd hsame (hlater f hf)
    · rw [if_neg (Value.same_iff.not.mpr hkey), ih hrest]
      constructor
      · rintro ⟨f, hf, h⟩
        exact ⟨f, List.mem_cons_of_mem e hf, h⟩
      · rintro ⟨f, hf, hsame, h⟩
        obtain rfl | hf := List.mem_cons.mp hf
        · exact absurd hsame hkey
        · exact ⟨f, hf, hsame, h⟩

/-! ### Insertions -/

theorem lt_of_mem_insert {k : Value} (hkey : k.cmp key = .lt) (h : ∀ e ∈ es, k.cmp e.1 = .lt) :
    ∀ e ∈ insert es key val, k.cmp e.1 = .lt := by
  induction es with
  | nil => simpa [insert] using hkey
  | cons e es ih =>
    obtain ⟨hfirst, hrest⟩ := List.forall_mem_cons.mp h
    rw [insert]
    split
    · exact List.forall_mem_cons.mpr ⟨hkey, h⟩
    · exact List.forall_mem_cons.mpr ⟨hfirst, hrest⟩
    · exact List.forall_mem_cons.mpr ⟨hfirst, ih hrest⟩

theorem Sorted.insert (hes : Sorted es) (key val : Value) : Sorted (insert es key val) := by
  induction es with
  | nil => exact List.pairwise_singleton _ _
  | cons e es ih =>
    obtain ⟨hfirst, hrest⟩ := sorted_cons.mp hes
    rw [MapEntries.insert]
    split
    · next hlt =>
      refine sorted_cons.mpr ⟨List.forall_mem_cons.mpr ⟨hlt, fun f hf ↦ ?_⟩, hes⟩
      exact Std.TransCmp.lt_trans hlt (hfirst f hf)
    · exact sorted_cons.mpr ⟨hfirst, hrest⟩
    · next hgt =>
      have hlt : e.1.cmp key = .lt := Std.OrientedCmp.lt_of_gt hgt
      exact sorted_cons.mpr ⟨lt_of_mem_insert hlt hfirst, ih hrest⟩

theorem Sorted.erase (hes : Sorted es) (key : Value) : Sorted (erase es key) :=
  List.Pairwise.filter _ hes

/-- At a key that is there, an insertion changes the value and keeps the key that stands there. -/
theorem insert_of_present (hes : Sorted es) (h : (get? es key).isSome = true) (val : Value) :
    insert es key val = es.map fun e ↦ if key.same e.1 then (e.1, val) else e := by
  induction es with
  | nil => cases h
  | cons e es ih =>
    obtain ⟨hfirst, hrest⟩ := sorted_cons.mp hes
    rw [insert, List.map_cons]
    cases hkey : key.cmp e.1 with
    | lt =>
      have hlater : ∀ f ∈ e :: es, key.cmp f.1 = .lt :=
        List.forall_mem_cons.mpr ⟨hkey, fun f hf ↦ Std.TransCmp.lt_trans hkey (hfirst f hf)⟩
      rw [get?_eq_none hlater] at h
      cases h
    | eq =>
      have hlater : ∀ f ∈ es, (if key.same f.1 then (f.1, val) else f) = f := fun f hf ↦ by
        have hlt : key.cmp f.1 = .lt := by rw [Std.TransCmp.congr_left hkey, hfirst f hf]
        exact if_neg (not_same_of_cmp hlt (by decide))
      rw [if_pos (Value.same_iff.mpr hkey), List.map_congr_left hlater, List.map_id']
    | gt =>
      have hne : ¬ key.same e.1 := not_same_of_cmp hkey (by decide)
      rw [get?, if_neg hne] at h
      rw [if_neg hne, ih hrest h]

/-- At a key that is not there, an insertion adds one entry. -/
theorem insert_of_absent (h : get? es key = none) (val : Value) :
    (insert es key val).Perm ((key, val) :: es) := by
  induction es with
  | nil => exact List.Perm.refl _
  | cons e es ih =>
    rw [get?] at h
    split at h
    · cases h
    · next hne =>
      rw [insert]
      split
      · exact List.Perm.refl _
      · next hkey => exact absurd (Value.same_iff.mpr hkey) hne
      · exact ((ih h).cons e).trans (List.Perm.swap _ _ _)

theorem insert_of_lt (h : ∀ e ∈ es, key.cmp e.1 = .lt) (val : Value) :
    insert es key val = (key, val) :: es := by
  cases es with
  | nil => rfl
  | cons e es => rw [insert, h e List.mem_cons_self]

theorem insert_comm_of_lt {key key' : Value} (hlt : key.cmp key' = .lt) (hes : Sorted es)
    (val val' : Value) :
    insert (insert es key val) key' val' = insert (insert es key' val') key val := by
  have hgt : key'.cmp key = .gt := Std.OrientedCmp.gt_of_lt hlt
  induction es with
  | nil => simp only [insert, hlt, hgt]
  | cons e es ih =>
    obtain ⟨hfirst, hrest⟩ := sorted_cons.mp hes
    cases hkey : key.cmp e.1 with
    | lt =>
      -- the lesser key goes to the front, before or after the other one is inserted
      have hall : ∀ f ∈ e :: es, key.cmp f.1 = .lt :=
        List.forall_mem_cons.mpr ⟨hkey, fun f hf ↦ Std.TransCmp.lt_trans hkey (hfirst f hf)⟩
      rw [insert_of_lt hall, insert_of_lt (lt_of_mem_insert hlt hall), insert, hgt]
    | eq =>
      have hkey' : key'.cmp e.1 = .gt := by rw [← Std.TransCmp.congr_right hkey, hgt]
      simp only [insert, hkey, hkey']
    | gt =>
      have hkey' : key'.cmp e.1 = .gt := Std.TransCmp.gt_trans hgt hkey
      simp only [insert, hkey, hkey', ih hrest]

theorem insert_comm {key key' : Value} (hne : key.cmp key' ≠ .eq) (hes : Sorted es)
    (val val' : Value) :
    insert (insert es key val) key' val' = insert (insert es key' val') key val := by
  cases hkeys : key.cmp key' with
  | lt => exact insert_comm_of_lt hkeys hes val val'
  | eq => exact absurd hkeys hne
  | gt => exact (insert_comm_of_lt (Std.OrientedCmp.lt_of_gt hkeys) hes val' val).symm

end MapEntries

/-- A change of a map by the insertion or the deletion of a key. -/
inductive MapEdit where
  | insert (key val : Value)
  | erase (key : Value)

namespace TypedMap

def edit (m : MapValue) : MapEdit → MapValue
  | .insert key val => m.insert key val
  | .erase key => m.erase key

/-- A map after changes that were made one after the other. -/
def edited (m : MapValue) (edits : List MapEdit) : MapValue := edits.foldl edit m

def keys (m : MapValue) : List Value := m.entries.map Prod.fst

/-- The map behaves as an ordered one. Equality of keys is that of the order, and the key of an
entry is the one with which the entry came about. -/
structure Lawful (m : MapValue) : Prop where
  sorted : MapEntries.Sorted m.entries
  get?_iff : ∀ key val, m.get? key = some val ↔ ∃ e ∈ m.entries, key.cmp e.1 = .eq ∧ e.2 = val
  get?_insert : ∀ key val key', (m.insert key val).get? key' =
    if key'.cmp key = .eq then some val else m.get? key'
  get?_erase : ∀ key key', (m.erase key).get? key' =
    if key'.cmp key = .eq then none else m.get? key'
  insert_present : ∀ key val, (m.get? key).isSome = true →
    (m.insert key val).keys = m.keys ∧ (m.insert key val).size = m.size
  insert_absent : ∀ key val, m.get? key = none →
    (m.insert key val).keys.Perm (key :: m.keys) ∧ (m.insert key val).size = m.size + 1
  insert_comm : ∀ key key' val val', key.cmp key' ≠ .eq →
    (m.insert key val).insert key' val' = (m.insert key' val').insert key val

variable {m : MapValue}

theorem sorted_edit (hm : MapEntries.Sorted m.entries) (e : MapEdit) :
    MapEntries.Sorted (m.edit e).entries := by
  cases e with
  | insert key val => exact hm.insert key val
  | erase key => exact hm.erase key

theorem sorted_edited (hm : MapEntries.Sorted m.entries) (edits : List MapEdit) :
    MapEntries.Sorted (m.edited edits).entries := by
  induction edits generalizing m with
  | nil => exact hm
  | cons e edits ih => exact ih (sorted_edit hm e)

theorem ty_edited (m : MapValue) (edits : List MapEdit) :
    (m.edited edits).keyTy = m.keyTy ∧ (m.edited edits).valTy = m.valTy := by
  induction edits generalizing m with
  | nil => exact ⟨rfl, rfl⟩
  | cons e edits ih => cases e <;> exact ih _

theorem keys_insert_of_present (hm : MapEntries.Sorted m.entries) {key : Value}
    (h : (m.get? key).isSome = true) (val : Value) : (m.insert key val).keys = m.keys := by
  rw [keys, insert, MapEntries.insert_of_present hm h, List.map_map]
  refine List.map_congr_left fun e _ ↦ ?_
  simp only [Function.comp_apply]
  split <;> rfl

theorem size_eq_length_keys (m : MapValue) : m.size = m.keys.length := (List.length_map _).symm

theorem lawful_of_sorted (hm : MapEntries.Sorted m.entries) : m.Lawful where
  sorted := hm
  get?_iff _ _ := MapEntries.get?_eq_some_iff hm
  get?_insert key val key' := by simp only [TypedMap.get?_insert, Value.same_iff]
  get?_erase key key' := by simp only [TypedMap.get?_erase, Value.same_iff]
  insert_present key val h := by
    have hkeys := keys_insert_of_present hm h val
    exact ⟨hkeys, by rw [size_eq_length_keys, hkeys, size_eq_length_keys]⟩
  insert_absent key val h := by
    have hperm := (MapEntries.insert_of_absent h val).map Prod.fst
    exact ⟨hperm, (MapEntries.insert_of_absent h val).length_eq⟩
  insert_comm key key' val val' hne := by
    simp only [insert, MapEntries.insert_comm hne hm]

end TypedMap

/-- However a map came about by insertions and deletions, it is an ordered map and has the types
that it was declared with. Nothing is asked of the keys. -/
theorem maps_lawful (keyTy valTy : Ty) (edits : List MapEdit) :
    let m := (TypedMap.empty keyTy valTy).edited edits
    m.keyTy = keyTy ∧ m.valTy = valTy ∧ m.Lawful := by
  intro m
  obtain ⟨hkey, hval⟩ := (TypedMap.empty keyTy valTy).ty_edited edits
  exact ⟨hkey, hval, TypedMap.lawful_of_sorted (TypedMap.sorted_edited MapEntries.sorted_nil edits)⟩

/-- Keys that differ in type arguments only are one key, and the first of them stays. -/
example (v w : Value) :
    let number : Value := .data "Option" "None" [.uint32] []
    let text : Value := .data "Option" "None" [.string] []
    ((TypedMap.empty (.option .uint32) .uint32).edited
      [.insert number v, .insert text w]).entries = [(number, w)] := by
  rfl

end MeteredContract
