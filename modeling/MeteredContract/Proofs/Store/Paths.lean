import MeteredContract.Proofs.Store.Purity

/-!
Maps within maps, accessed along paths of keys. Reading follows the declared types down to the type
at the end of the path, and the data down to the entry; writing recurses on the data alone and makes
the maps that are missing. What was written along a path is read back along it
(`KeyPath.entry?_update`), a path that parts from it leads where it led before
(`KeyPath.entry?_update_of_parts`), and the declared types stay, so both ways of following a path
keep in step (`nested_maps_read_back`).
-/

set_option autoImplicit false
set_option relaxedAutoImplicit false

namespace MeteredContract

namespace KeyPath

/-- The first path is the beginning of the second, with keys that are equal in the order. -/
def Begins : List Value → List Value → Prop
  | [], _ => True
  | _ :: _, [] => False
  | k :: p, l :: q => k.cmp l = .eq ∧ Begins p q

instance decidableBegins : ∀ p q, Decidable (Begins p q)
  | [], _ => .isTrue trivial
  | _ :: _, [] => .isFalse id
  | _ :: p, _ :: q => @instDecidableAnd _ _ inferInstance (decidableBegins p q)

/-- The paths lead to different places, neither of which lies beyond the other. -/
def Parts (p q : List Value) : Prop := ¬ Begins p q ∧ ¬ Begins q p

instance (p q : List Value) : Decidable (Parts p q) := inferInstanceAs (Decidable (_ ∧ _))

/-! ### One level of an update -/

/-- The map one level down with which an update goes on: the one that is there or, for an insertion,
an empty one of the type that is declared. -/
inductive Inner (m : MapValue) (key : Value) : Option Value → MapValue → Prop
  | found {val : Option Value} {inner : MapValue} (h : m.get? key = some (.map inner)) :
    Inner m key val inner
  | created {v : Value} {k t : Ty} (habsent : m.get? key = none) (hty : m.valTy = .map k t) :
    Inner m key (some v) (.empty k t)

variable {field : String} {val : Option Value} {m m' : MapValue} {key next : Value}
  {rest : List Value}

/-- Either there is nothing to delete, or the map one level down is updated and put back. -/
theorem update_cons_eq_ok (h : update field val m key (next :: rest) = .ok m') :
    m.get? key = none ∧ val = none ∧ m' = m ∨
      ∃ inner inner', Inner m key val inner ∧ update field val inner next rest = .ok inner' ∧
        m' = m.insert key (.map inner') := by
  unfold update at h
  split at h
  · next inner hget =>
    obtain ⟨inner', hinner', h⟩ := except_bind_eq_ok.mp h
    cases h
    exact .inr ⟨inner, inner', .found hget, hinner', rfl⟩
  · cases h
  · next hget =>
    cases h
    exact .inl ⟨hget, rfl, rfl⟩
  · next hget hty =>
    obtain ⟨inner', hinner', h⟩ := except_bind_eq_ok.mp h
    cases h
    exact .inr ⟨_, inner', .created hget hty, hinner', rfl⟩
  · cases h

theorem types_of_update (h : update field val m key rest = .ok m') :
    m'.keyTy = m.keyTy ∧ m'.valTy = m.valTy := by
  cases rest with
  | nil =>
    cases val with
    | none | some =>
      cases h
      exact ⟨rfl, rfl⟩
  | cons next rest =>
    rcases update_cons_eq_ok h with ⟨-, -, rfl⟩ | ⟨inner, inner', -, -, rfl⟩
    · exact ⟨rfl, rfl⟩
    · exact ⟨rfl, rfl⟩

/-! ### Entries after an update -/

theorem entry?_nil (m : MapValue) (key : Value) : entry? field m key [] = .ok (m.get? key) := rfl

theorem entry?_of_none (h : m.get? key = none) (rest : List Value) :
    entry? field m key rest = .ok none := by
  cases rest <;> simp [h, entry?]

theorem entry?_of_map {inner : MapValue} (h : m.get? key = some (.map inner)) :
    entry? field m key (next :: rest) = entry? field inner next rest := by
  simp only [h, entry?]

theorem entry?_congr {key' : Value} (h : m'.get? key' = m.get? key) (rest : List Value) :
    entry? field m' key' rest = entry? field m key rest := by
  cases rest <;> simp only [h, entry?]

theorem get?_insert_of_eq {key' : Value} (h : key'.cmp key = .eq) (m : MapValue) (v : Value) :
    (m.insert key v).get? key' = some v := by
  rw [TypedMap.get?_insert, if_pos (Value.same_iff.mpr h)]

theorem get?_insert_of_ne {key' : Value} (h : key'.cmp key ≠ .eq) (m : MapValue) (v : Value) :
    (m.insert key v).get? key' = m.get? key' := by
  rw [TypedMap.get?_insert, if_neg (mt Value.same_iff.mp h)]

/-- What was written along a path is found there. -/
theorem entry?_update (h : update field val m key rest = .ok m') :
    entry? field m' key rest = .ok val := by
  have hself : key.cmp key = .eq := Std.ReflCmp.compare_self
  induction rest generalizing m m' key with
  | nil =>
    cases val with
    | none =>
      cases h
      rw [entry?_nil, TypedMap.get?_erase, if_pos (Value.same_iff.mpr hself)]
    | some v =>
      cases h
      rw [entry?_nil, get?_insert_of_eq hself]
  | cons next rest ih =>
    rcases update_cons_eq_ok h with ⟨hget, rfl, rfl⟩ | ⟨inner, inner', -, hinner', rfl⟩
    · exact entry?_of_none hget _
    · rw [entry?_of_map (get?_insert_of_eq hself m _)]
      exact ih hinner' Std.ReflCmp.compare_self

/-- One level down, a path leads where it would have led before the update: if the map was made for
it, there was nothing. -/
theorem Inner.entry? {inner : MapValue} (h : Inner m key val inner) {key' : Value}
    (hkey : key'.cmp key = .eq) :
    entry? field m key' (next :: rest) = entry? field inner next rest := by
  cases h with
  | found hget =>
    rw [← TypedMap.get?_congr hkey] at hget
    exact entry?_of_map hget
  | created habsent =>
    rw [← TypedMap.get?_congr hkey] at habsent
    rw [entry?_of_none habsent, entry?_of_none rfl]

/-- Where paths part, at the first keys that are not equal, the update goes another way. -/
theorem entry?_update_of_parts {key' : Value} {rest' : List Value}
    (hparts : Parts (key :: rest) (key' :: rest')) (h : update field val m key rest = .ok m') :
    entry? field m' key' rest' = entry? field m key' rest' := by
  induction rest generalizing m m' key key' rest' with
  | nil =>
    have hne : key'.cmp key ≠ .eq := fun heq ↦ hparts.1 ⟨Std.OrientedCmp.eq_symm heq, trivial⟩
    refine entry?_congr ?_ rest'
    cases val with
    | none =>
      cases h
      rw [TypedMap.get?_erase, if_neg (mt Value.same_iff.mp hne)]
    | some v =>
      cases h
      exact get?_insert_of_ne hne m v
  | cons next rest ih =>
    rcases update_cons_eq_ok h with ⟨-, -, rfl⟩ | ⟨inner, inner', hdown, hinner', rfl⟩
    · rfl
    by_cases heq : key'.cmp key = .eq
    · cases rest' with
      | nil => exact absurd ⟨heq, trivial⟩ hparts.2
      | cons next' rest' =>
        have hrest : Parts (next :: rest) (next' :: rest') :=
          ⟨fun hb ↦ hparts.1 ⟨Std.OrientedCmp.eq_symm heq, hb⟩, fun hb ↦ hparts.2 ⟨heq, hb⟩⟩
        rw [entry?_of_map (get?_insert_of_eq heq m _), hdown.entry? heq]
        exact ih hrest hinner'
    · exact entry?_congr (get?_insert_of_ne heq m _) rest'

/-! ### Reading after an update -/

theorem read_update {t : Ty} (hty : tyAt? m.valTy rest.length = some t)
    (h : update field val m key rest = .ok m') (fetch : Bool) :
    read field (.map m') (key :: rest) fetch =
      .ok (if fetch then .ofOption t val else .bool val.isSome) := by
  simp only [read, (types_of_update h).2, hty, entry?_update h]
  rfl

theorem read_update_of_parts {q : List Value} (hparts : Parts (key :: rest) q)
    (h : update field val m key rest = .ok m') (fetch : Bool) :
    read field (.map m') q fetch = read field (.map m) q fetch := by
  cases q with
  | nil => exact absurd trivial hparts.2
  | cons key' rest' => simp only [read, (types_of_update h).2, entry?_update_of_parts hparts h]

end KeyPath

theorem Store.mapGet_of_field {s : Store} {field : String} {v : Value}
    (h : s.field? field = some v) (keys : List Value) (fetch : Bool) :
    s.mapGet field keys fetch = KeyPath.read field v keys fetch := by
  simp only [mapGet, load, h]
  rfl

/-- Maps within maps obey the laws of reading and writing. Let a field hold a map, and let its
declared type go down as many maps as the path `p` has keys after the first. After an update along
`p` that succeeds, the value that was written is read back along `p`, with the declared type there,
or none if the entry was deleted. Along a path that parts from `p` the same is read as before, value
or error; the field holds a map of the types that it had; all other fields, and those of other
contracts, are as they were. -/
theorem nested_maps_read_back {s s' : Store} {field : String} {m : MapValue} {p : List Value}
    {t : Ty} {val : Option Value} (hfield : s.field? field = some (.map m))
    (hty : KeyPath.tyAt? m.valTy (p.length - 1) = some t)
    (h : s.mapUpdate field p val = .ok s') :
    s'.mapGet field p true = .ok (.ofOption t val) ∧
      s'.mapGet field p false = .ok (.bool val.isSome) ∧
      (∀ q fetch, KeyPath.Parts p q → s'.mapGet field q fetch = s.mapGet field q fetch) ∧
      (∃ m', s'.field? field = some (.map m') ∧ m'.keyTy = m.keyTy ∧ m'.valTy = m.valTy) ∧
      (∀ name, name ≠ field → s'.field? name = s.field? name) ∧
      s'.remote = s.remote := by
  obtain ⟨m₀, m', key, rest, rfl, hfield₀, hupdate, rfl⟩ := Store.mapUpdate_eq_ok h
  cases hfield.symm.trans hfield₀
  have hafter : (s.put field (.map m')).field? field = some (.map m') := by
    rw [Store.field?_put, if_pos rfl]
  refine ⟨?_, ?_, ?_, ⟨m', hafter, KeyPath.types_of_update hupdate⟩, ?_, rfl⟩
  · rw [Store.mapGet_of_field hafter]
    exact KeyPath.read_update hty hupdate true
  · rw [Store.mapGet_of_field hafter]
    exact KeyPath.read_update hty hupdate false
  · intro q fetch hparts
    rw [Store.mapGet_of_field hafter, Store.mapGet_of_field hfield]
    exact KeyPath.read_update_of_parts hparts hupdate fetch
  · intro name hname
    rw [Store.field?_put, if_neg (Ne.symm hname)]

namespace Shelves

def word (n : UInt32) : Value := .int (.ofUInt32 n)

/-- Two names for one key: the types that values note do not count in the order. -/
def unlabelled : Value := .absent .uint32

def unlabelled' : Value := .absent .string

/-- Three levels, with one entry. -/
def store : Store :=
  let inner : MapValue := ⟨.uint32, .uint32, [(word 1, word 10)]⟩
  let middle : MapValue := ⟨.uint32, .map .uint32 .uint32, [(word 5, .map inner)]⟩
  Store.empty.put "shelves" <|
    .map ⟨.option .uint32, .map .uint32 (.map .uint32 .uint32), [(unlabelled, .map middle)]⟩

/-- The path runs along the entry that is there for one key, and then through a map that is
missing. -/
def path : List Value := [unlabelled', word 6, word 1]

def written : Store :=
  let inner : MapValue := ⟨.uint32, .uint32, [(word 1, word 10)]⟩
  let inner' : MapValue := ⟨.uint32, .uint32, [(word 1, word 20)]⟩
  let middle : MapValue :=
    ⟨.uint32, .map .uint32 .uint32, [(word 5, .map inner), (word 6, .map inner')]⟩
  Store.empty.put "shelves" <|
    .map ⟨.option .uint32, .map .uint32 (.map .uint32 .uint32), [(unlabelled, .map middle)]⟩

end Shelves

/-- The entry is written under the key that stood there, and the one beside it is still read. -/
theorem nested_maps_read_back_shelves :
    Shelves.store.mapUpdate "shelves" Shelves.path (some (Shelves.word 20)) =
        .ok Shelves.written ∧
      Shelves.written.mapGet "shelves" Shelves.path true =
        .ok (.present .uint32 (Shelves.word 20)) ∧
      ∀ fetch, Shelves.written.mapGet "shelves" [Shelves.unlabelled, Shelves.word 5] fetch =
        Shelves.store.mapGet "shelves" [Shelves.unlabelled, Shelves.word 5] fetch := by
  have hupdate : Shelves.store.mapUpdate "shelves" Shelves.path (some (Shelves.word 20)) =
      .ok Shelves.written := rfl
  obtain ⟨hread, -, hother, -⟩ := nested_maps_read_back (s := Shelves.store) rfl rfl hupdate
  exact ⟨hupdate, hread, fun fetch ↦ hother _ fetch (by decide)⟩

end MeteredContract
