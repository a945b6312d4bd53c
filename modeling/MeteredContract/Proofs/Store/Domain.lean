import MeteredContract.Proofs.Store.Purity
import Mathlib.Order.Defs.Unbundled

/-!
Which fields a store has. Writing declared fields leaves all others as they are and takes none away
(`Store.Writes`); if the declared ones were all stored before, then they are the only ones that were
added since (`Store.HasDomain`). A field that is stored is found, so whatever may go wrong with it,
it is not unknown.
-/

set_option autoImplicit false
set_option relaxedAutoImplicit false

namespace MeteredContract

namespace Store

/-- The second store comes from the first by writing fields that satisfy `declared`. -/
structure Writes (declared : String → Prop) (s t : Store) : Prop where
  remote : t.remote = s.remote
  undeclared : ∀ f, ¬declared f → t.field? f = s.field? f
  kept : ∀ f, (s.field? f).isSome = true → (t.field? f).isSome = true

/-- All declared fields are stored. Apart from these the fields are those that there were in `s`,
with the values that they had there; other contracts have what they had. -/
structure HasDomain (declared : String → Prop) (s t : Store) : Prop where
  stored : ∀ f, declared f → (t.field? f).isSome = true
  names : ∀ f, (t.field? f).isSome = true ↔ (s.field? f).isSome = true ∨ declared f
  undeclared : ∀ f, ¬declared f → t.field? f = s.field? f
  remote : t.remote = s.remote

variable {declared : String → Prop} {s t u : Store}

namespace Writes

theorem refl (declared : String → Prop) (s : Store) : Writes declared s s :=
  ⟨rfl, fun _ _ ↦ rfl, fun _ h ↦ h⟩

theorem trans (h : Writes declared s t) (h' : Writes declared t u) : Writes declared s u where
  remote := h'.remote.trans h.remote
  undeclared f hf := (h'.undeclared f hf).trans (h.undeclared f hf)
  kept f hf := h'.kept f (h.kept f hf)

theorem put (s : Store) {field : String} (hfield : declared field) (v : Value) :
    Writes declared s (s.put field v) where
  remote := rfl
  undeclared f hf := by
    have hne : field ≠ f := fun heq ↦ hf (heq ▸ hfield)
    rw [field?_put, if_neg hne]
  kept f hf := by
    rw [field?_put]
    split
    · rfl
    · exact hf

theorem mapUpdate {map : String} (hmap : declared map) {keys : List Value} {val : Option Value}
    (h : s.mapUpdate map keys val = .ok t) : Writes declared s t := by
  obtain ⟨m, m', key, rest, -, -, -, rfl⟩ := mapUpdate_eq_ok h
  exact put s hmap _

end Writes

namespace HasDomain

theorem of_writes (h : Writes declared s t)
    (hstored : ∀ f, declared f → (t.field? f).isSome = true) : HasDomain declared s t where
  stored := hstored
  names f := by
    by_cases hf : declared f
    · exact iff_of_true (hstored f hf) (.inr hf)
    · rw [h.undeclared f hf]
      exact (or_iff_left hf).symm
  undeclared := h.undeclared
  remote := h.remote

theorem writes (h : HasDomain declared s t) (h' : Writes declared t u) :
    HasDomain declared s u where
  stored f hf := h'.kept f (h.stored f hf)
  names f := by
    by_cases hf : declared f
    · exact iff_of_true (h'.kept f (h.stored f hf)) (.inr hf)
    · rw [h'.undeclared f hf]
      exact h.names f
  undeclared f hf := (h'.undeclared f hf).trans (h.undeclared f hf)
  remote := h'.remote.trans h.remote

end HasDomain

/-! ### Reading and updating fields that are stored -/

/-- A result that is no fault, or a fault other than that a field is unknown. -/
def Known {α : Type} (x : Except StoreFault α) : Prop := ∀ name, x ≠ .error (.unknownField name)

namespace Known

variable {α β : Type}

theorem ok (a : α) : Known (.ok a) := nofun

theorem bind {x : Except StoreFault α} {f : α → Except StoreFault β} (hx : Known x)
    (hf : ∀ a, Known (f a)) : Known (x >>= f) := by
  cases x with
  | error e => exact fun name h ↦ hx name (congrArg _ (Except.error.inj h))
  | ok a => exact hf a

end Known

end Store

open Store

namespace KeyPath

variable (field : String)

theorem known_entry (m : MapValue) (key : Value) (rest : List Value) :
    Known <| entry? field m key rest := by
  induction rest generalizing m key with
  | nil => exact .ok _
  | cons next rest ih =>
    unfold entry?
    split
    · exact .ok _
    · exact ih _ _
    · exact nofun

theorem known_read (v : Value) (keys : List Value) (fetch : Bool) :
    Known (read field v keys fetch) := by
  unfold read
  split
  · exact nofun
  · split
    · exact nofun
    · exact (known_entry field _ _ _).bind fun _ ↦ .ok _
  · exact nofun

theorem known_update (val : Option Value) (m : MapValue) (key : Value) (rest : List Value) :
    Known (update field val m key rest) := by
  induction rest generalizing m key with
  | nil =>
    cases val with
    | none => exact .ok _
    | some v => exact .ok _
  | cons next rest ih =>
    unfold update
    split
    · exact (ih _ _).bind fun _ ↦ .ok _
    · exact nofun
    · exact .ok _
    · exact (ih _ _).bind fun _ ↦ .ok _
    · exact nofun

end KeyPath

namespace Store

variable {s : Store} {field : String} (hfield : (s.field? field).isSome = true)

include hfield

theorem exists_load : ∃ v, s.load field = .ok v := by
  obtain ⟨v, hv⟩ := Option.isSome_iff_exists.mp hfield
  exact ⟨v, by rw [load, hv]⟩

theorem known_mapGet (keys : List Value) (fetch : Bool) : Known (s.mapGet field keys fetch) := by
  obtain ⟨v, hv⟩ := exists_load hfield
  rw [mapGet, hv]
  exact KeyPath.known_read field v keys fetch

theorem known_mapUpdate (keys : List Value) (val : Option Value) :
    Known (s.mapUpdate field keys val) := by
  obtain ⟨v, hv⟩ := exists_load hfield
  rw [mapUpdate, hv]
  refine Known.bind (.ok v) fun v ↦ ?_
  split
  · exact (KeyPath.known_update field val _ _ _).bind fun _ ↦ .ok _
  · exact nofun
  · exact nofun

end Store

end MeteredContract
