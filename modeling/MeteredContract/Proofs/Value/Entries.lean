import MeteredContract.Proofs.Value.Order
import MeteredContract.Value.Map

/-!
The entries of a map after a look-up, an insertion and a deletion. A look-up answers with the value
of an entry, an insertion leaves entries that were there or that it brings, and a deletion only
takes entries away. What a look-up finds after an insertion or a deletion at another key is what it
found before (`TypedMap.get?_insert`, `TypedMap.get?_erase`); this needs the order of the entries as
little as it needs the types that the map declares.
-/

set_option autoImplicit false
set_option relaxedAutoImplicit false

namespace MeteredContract

theorem Value.same_iff {v w : Value} : v.same w = true ↔ v.cmp w = .eq := by
  rw [same, beq_iff_eq]

theorem Value.same_congr {v v' : Value} (h : v.cmp v' = .eq) (w : Value) :
    w.same v = w.same v' := by
  rw [same, same, Std.TransCmp.congr_right h]

namespace MapEntries

theorem get?_congr {key key' : Value} (h : key.cmp key' = .eq) (es : List (Value × Value)) :
    get? es key = get? es key' := by
  induction es with
  | nil => rfl
  | cons e es ih => rw [get?, get?, Value.same, Value.same, Std.TransCmp.congr_left h, ih]

theorem get?_insert (es : List (Value × Value)) (key val key' : Value) :
    get? (insert es key val) key' = if key'.same key then some val else get? es key' := by
  induction es with
  | nil => rfl
  | cons e es ih =>
    obtain ⟨k, v⟩ := e
    rw [insert]
    cases hk : key.cmp k with
    | lt => rfl
    | eq =>
      -- The key that stands there stays, and answers to the same keys.
      simp only [get?, Value.same_congr hk]
      split <;> rfl
    | gt =>
      simp only [get?, ih]
      by_cases hkey : key'.same key
      · have hne : ¬ key'.same k := by
          intro hkey'
          rw [Value.same_iff] at hkey hkey'
          rw [Std.TransCmp.congr_left hkey, hk] at hkey'
          cases hkey'
        rw [if_neg hne, if_pos hkey, if_pos hkey]
      · rw [if_neg hkey, if_neg hkey]

theorem get?_erase (es : List (Value × Value)) (key key' : Value) :
    get? (erase es key) key' = if key'.same key then none else get? es key' := by
  induction es with
  | nil => simp [erase, get?]
  | cons e es ih =>
    obtain ⟨k, v⟩ := e
    rw [erase] at ih
    by_cases hk : key.same k
    · rw [erase, List.filter_cons_of_neg (by simpa using hk), ih, get?,
        Value.same_congr (Value.same_iff.mp hk)]
      split <;> rfl
    · rw [erase, List.filter_cons_of_pos (by simpa using hk), get?, get?, ih]
      by_cases hkey : key'.same key
      · have hne : ¬ key'.same k := by
          intro hkey'
          rw [Value.same_iff] at hkey hkey'
          rw [Value.same_iff, ← Std.TransCmp.congr_left hkey] at hk
          exact hk hkey'
        rw [if_neg hne, if_pos hkey, if_pos hkey]
      · rw [if_neg hkey, if_neg hkey]

end MapEntries

namespace TypedMap

variable {m : MapValue} {key val : Value}

theorem get?_congr {key' : Value} (h : key.cmp key' = .eq) (m : MapValue) :
    m.get? key = m.get? key' := MapEntries.get?_congr h m.entries

theorem get?_insert (m : MapValue) (key val key' : Value) :
    (m.insert key val).get? key' = if key'.same key then some val else m.get? key' :=
  MapEntries.get?_insert m.entries key val key'

theorem get?_erase (m : MapValue) (key key' : Value) :
    (m.erase key).get? key' = if key'.same key then none else m.get? key' :=
  MapEntries.get?_erase m.entries key key'

theorem exists_of_get? (h : m.get? key = some val) :
    ∃ e ∈ m.entries, key.cmp e.1 = .eq ∧ e.2 = val := by
  obtain ⟨keyTy, valTy, es⟩ := m
  simp only [get?] at h
  induction es with
  | nil => simp [MapEntries.get?] at h
  | cons e es ih =>
    rw [MapEntries.get?] at h
    split at h
    · next hsame =>
      cases h
      exact ⟨e, List.mem_cons_self, by simpa [Value.same] using hsame, rfl⟩
    · obtain ⟨e', he', hfound⟩ := ih h
      exact ⟨e', List.mem_cons_of_mem _ he', hfound⟩

/-- The key of an entry may be one that was there already, so keys and values are spoken of
separately. -/
theorem forall_insert {p q : Value → Prop} (hm : ∀ e ∈ m.entries, p e.1 ∧ q e.2) (hkey : p key)
    (hval : q val) : ∀ e ∈ (m.insert key val).entries, p e.1 ∧ q e.2 := by
  obtain ⟨keyTy, valTy, es⟩ := m
  simp only [insert] at hm ⊢
  induction es with
  | nil => simpa [MapEntries.insert] using ⟨hkey, hval⟩
  | cons e es ih =>
    obtain ⟨hfirst, hrest⟩ := List.forall_mem_cons.mp hm
    rw [MapEntries.insert]
    split
    · exact List.forall_mem_cons.mpr ⟨⟨hkey, hval⟩, hm⟩
    · exact List.forall_mem_cons.mpr ⟨⟨hfirst.1, hval⟩, hrest⟩
    · exact List.forall_mem_cons.mpr ⟨hfirst, ih hrest⟩

theorem exists_of_insert (m : MapValue) (key val : Value) :
    ∃ e ∈ (m.insert key val).entries, key.cmp e.1 = .eq ∧ e.2 = val := by
  obtain ⟨keyTy, valTy, es⟩ := m
  simp only [insert]
  induction es with
  | nil => exact ⟨(key, val), List.mem_cons_self, Std.ReflCmp.compare_self, rfl⟩
  | cons e es ih =>
    rw [MapEntries.insert]
    split
    · exact ⟨(key, val), List.mem_cons_self, Std.ReflCmp.compare_self, rfl⟩
    · next hkey => exact ⟨(e.1, val), List.mem_cons_self, hkey, rfl⟩
    · obtain ⟨e', he', hfound⟩ := ih
      exact ⟨e', List.mem_cons_of_mem _ he', hfound⟩

theorem mem_of_mem_erase {e : Value × Value} (h : e ∈ (m.erase key).entries) : e ∈ m.entries :=
  (List.mem_filter.mp h).1

end TypedMap

end MeteredContract
