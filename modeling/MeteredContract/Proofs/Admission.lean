import MeteredContract.Admission
import MeteredContract.Proofs.Induction
import MeteredContract.Proofs.Primitive.Signature

/-!
Checks of values against types. A check that fails says of the value, or of a part of it, that it
does not have the type that is expected there, and it names the parameter
(`Value.exists_notAssignable_of_checkType`). An integer type lets through the integers of that type
only (`Value.eq_int_of_checkType`).
-/

set_option autoImplicit false
set_option relaxedAutoImplicit false

namespace MeteredContract

namespace Value

/-- If the check fails, then by what some value is not. -/
def Checks {α : Type} (name : String) (x : Except Cause α) : Prop :=
  ∀ c, x = .error c → ∃ expected v, c = notAssignable name expected v

namespace Checks

variable {α β : Type} {name : String}

theorem ok (a : α) : Checks name (.ok a) := nofun

theorem error (expected : Ty) (v : Value) :
    Checks name (.error (notAssignable name expected v) : Except Cause α) := by
  rintro _ ⟨⟩
  exact ⟨expected, v, rfl⟩

theorem bind {x : Except Cause α} {f : α → Except Cause β} (hx : Checks name x)
    (hf : ∀ a, Checks name (f a)) : Checks name (x >>= f) := by
  cases x with
  | error c =>
    rintro _ ⟨⟩
    exact hx c rfl
  | ok a => exact hf a

end Checks

theorem checks_checkEntries {name : String} {es : List (Value × Value)}
    (h : ∀ e ∈ es, (∀ t, Checks name (e.1.checkType name t)) ∧
      ∀ t, Checks name (e.2.checkType name t)) (k v : Ty) :
    Checks name (checkEntries name es k v) := by
  induction es with
  | nil =>
    unfold checkEntries
    exact .ok _
  | cons e es ih =>
    obtain ⟨key, val⟩ := e
    obtain ⟨⟨hkey, hval⟩, hrest⟩ := List.forall_mem_cons.mp h
    unfold checkEntries
    exact (hkey k).bind fun _ ↦ (hval v).bind fun _ ↦ (ih hrest).bind fun _ ↦ .ok _

/-- A check goes on with the parts of a value only. -/
theorem checks_checkType_of_parts {name : String} {v : Value}
    (hdata : ∀ tyName constructor targs args, v = .data tyName constructor targs args →
      ∀ w ∈ args, ∀ t, Checks name (w.checkType name t))
    (hmap : ∀ m : MapValue, v = .map m → ∀ e ∈ m.entries,
      (∀ t, Checks name (e.1.checkType name t)) ∧ ∀ t, Checks name (e.2.checkType name t))
    (t : Ty) : Checks name (v.checkType name t) := by
  unfold checkType
  split
  case h_5 k' v' es k v =>
    split
    · exact checks_checkEntries (hmap _ rfl) k v
    · exact .error _ _
  case h_6 =>
    split
    · have hargs := hdata _ _ _ _ rfl
      split
      · exact hargs _ (by simp) _
      · exact (hargs _ (by simp) _).bind fun _ ↦ (hargs _ (by simp) _).bind fun _ ↦ .ok _
      · exact (hargs _ (by simp) _).bind fun _ ↦ (hargs _ (by simp) _).bind fun _ ↦ .ok _
      · exact .ok _
    · exact .error _ _
  all_goals try split
  all_goals first | exact .ok _ | exact .error _ _

theorem checks_checkType (name : String) (v : Value) (t : Ty) :
    Checks name (v.checkType name t) := by
  induction v generalizing t with
  | data tyName constructor targs args ih =>
    refine checks_checkType_of_parts ?_ (by simp) t
    rintro _ _ _ _ ⟨⟩
    exact ih
  | map m ih =>
    refine checks_checkType_of_parts (by simp) ?_ t
    rintro _ ⟨⟩
    exact ih
  | _ => exact checks_checkType_of_parts (by simp) (by simp) t

theorem exists_notAssignable_of_checkType {name : String} {v : Value} {t : Ty} {c : Cause}
    (h : v.checkType name t = .error c) :
    ∃ expected found, c = .notAssignable name expected found := by
  obtain ⟨expected, w, rfl⟩ := checks_checkType name v t c h
  exact ⟨expected, w.found, rfl⟩

theorem eq_int_of_checkType {name : String} {v : Value} {t : IntTy} {checks : List PendingCheck}
    (h : v.checkType name (.int t) = .ok checks) : ∃ i : FixedInt, v = .int i ∧ i.ty = t := by
  have htype : v.typeOf? = some (.int t) := by
    cases v with
    | int | str | bnum | bystrx | bystr | closure | tyClosure | data | map | message =>
      simp only [Ty.int, checkType] at h
      split at h
      · assumption
      · cases h
  exact eq_int_of_typeOf? htype

end Value

end MeteredContract
