import MeteredContract.Proofs.Induction
import MeteredContract.Ty.Subst
import Mathlib.Data.Set.Insert

/-!
What occurs in types: free type variables (`Ty.freeVars`) and address types (`Ty.HasAddress`). A
type without either is concrete, which is what run-time values carry. Erasing leaves no address type
(`Ty.not_hasAddress_erase`), and resolving leaves no free variable if all that are free are replaced
by closed types (`Ty.closed_resolve`).
-/

set_option autoImplicit false
set_option relaxedAutoImplicit false

namespace MeteredContract.Ty

/-- The type variable occurs in the type, and no binder around it binds it. -/
inductive Free (x : String) : Ty → Prop
  | key {k v : Ty} (h : Free x k) : Free x (.map k v)
  | val {k v : Ty} (h : Free x v) : Free x (.map k v)
  | arg {a r : Ty} (h : Free x a) : Free x (.fn a r)
  | res {a r : Ty} (h : Free x r) : Free x (.fn a r)
  | targ {name : String} {ts : List Ty} {t : Ty} (ht : t ∈ ts) (h : Free x t) :
    Free x (.data name ts)
  | var : Free x (.var x)
  | body {name : String} {t : Ty} (hne : x ≠ name) (h : Free x t) : Free x (.poly name t)
  | field {a : AddressTy} {f : String × Ty} (hf : f ∈ a.fields) (h : Free x f.2) :
    Free x (.address a)

def freeVars (t : Ty) : Set String := {x | t.Free x}

/-- An address type occurs in the type. -/
inductive HasAddress : Ty → Prop
  | key {k v : Ty} (h : HasAddress k) : HasAddress (.map k v)
  | val {k v : Ty} (h : HasAddress v) : HasAddress (.map k v)
  | arg {a r : Ty} (h : HasAddress a) : HasAddress (.fn a r)
  | res {a r : Ty} (h : HasAddress r) : HasAddress (.fn a r)
  | targ {name : String} {ts : List Ty} {t : Ty} (ht : t ∈ ts) (h : HasAddress t) :
    HasAddress (.data name ts)
  | body {name : String} {t : Ty} (h : HasAddress t) : HasAddress (.poly name t)
  | address (a : AddressTy) : HasAddress (.address a)

def Closed (t : Ty) : Prop := t.freeVars = ∅

structure Concrete (t : Ty) : Prop where
  noAddress : ¬ t.HasAddress
  closed : t.Closed

theorem closed_iff {t : Ty} : t.Closed ↔ ∀ x, ¬ t.Free x := Set.eq_empty_iff_forall_notMem

theorem concrete_prim (p : PrimTy) : (prim p).Concrete where
  noAddress := nofun
  closed := closed_iff.mpr fun _ ↦ nofun

theorem concrete_map {k v : Ty} : (map k v).Concrete ↔ k.Concrete ∧ v.Concrete := by
  constructor
  · rintro ⟨hno, hclosed⟩
    rw [closed_iff] at hclosed
    exact ⟨⟨fun h ↦ hno (.key h), closed_iff.mpr fun x h ↦ hclosed x (.key h)⟩,
      ⟨fun h ↦ hno (.val h), closed_iff.mpr fun x h ↦ hclosed x (.val h)⟩⟩
  · rintro ⟨hk, hv⟩
    refine ⟨fun h ↦ ?_, closed_iff.mpr fun x h ↦ ?_⟩
    · cases h with
      | key h => exact hk.noAddress h
      | val h => exact hv.noAddress h
    · cases h with
      | key h => exact closed_iff.mp hk.closed x h
      | val h => exact closed_iff.mp hv.closed x h

theorem concrete_data {name : String} {ts : List Ty} :
    (data name ts).Concrete ↔ ∀ t ∈ ts, t.Concrete := by
  constructor
  · rintro ⟨hno, hclosed⟩ t ht
    rw [closed_iff] at hclosed
    exact ⟨fun h ↦ hno (.targ ht h), closed_iff.mpr fun x h ↦ hclosed x (.targ ht h)⟩
  · intro hts
    refine ⟨fun h ↦ ?_, closed_iff.mpr fun x h ↦ ?_⟩
    · cases h with
      | targ ht h => exact (hts _ ht).noAddress h
    · cases h with
      | targ ht h => exact closed_iff.mp (hts _ ht).closed x h

theorem eraseAll_eq (ts : List Ty) : eraseAll ts = ts.map erase := by
  induction ts with
  | nil => rfl
  | cons t ts ih => rw [eraseAll, ih, List.map_cons]

theorem resolveAll_eq (ts : List Ty) (s : Subst) : resolveAll ts s = ts.map (·.resolve s) := by
  induction ts with
  | nil => rfl
  | cons t ts ih => rw [resolveAll, ih, List.map_cons]

theorem resolveFields_eq (fs : List (String × Ty)) (s : Subst) :
    resolveFields fs s = fs.map fun f ↦ (f.1, f.2.resolve s) := by
  induction fs with
  | nil => rfl
  | cons f fs ih => rw [resolveFields, ih, List.map_cons]

/-! ### Erasing -/

theorem erase_erase (t : Ty) : t.erase.erase = t.erase := by
  induction t with
  | map key val ihkey ihval => simp only [erase, ihkey, ihval]
  | fn arg res iharg ihres => simp only [erase, iharg, ihres]
  | data name args ih =>
    simp only [erase, eraseAll_eq, List.map_map]
    exact congrArg (data name) (List.map_congr_left ih)
  | poly name body ih => simp only [erase, ih]
  | prim | var | unit | address => rfl

theorem isAddress_erase (t : Ty) : t.erase.isAddress = false := by
  cases t <;> rfl

/-- Address types become byte strings of their width, and no other type becomes a primitive one. -/
theorem erase_eq_prim {t : Ty} {p : PrimTy} (hp : p ≠ .bystrx addressWidth) :
    t.erase = .prim p ↔ t = .prim p := by
  cases t with
  | address a =>
    simp only [erase, bystr20, bystrx, prim.injEq, reduceCtorEq, iff_false]
    exact hp.symm
  | _ => simp [erase]

theorem erase_eq_map {t k v : Ty} (h : t.erase = .map k v) : ∃ k' v', t = .map k' v' := by
  cases t with
  | map k' v' => exact ⟨k', v', rfl⟩
  | _ => cases h

theorem erase_eq_data {t : Ty} {name : String} {ts : List Ty} (h : t.erase = .data name ts) :
    ∃ ts', t = .data name ts' ∧ ts'.map erase = ts := by
  cases t with
  | data name' ts' =>
    cases h
    exact ⟨ts', rfl, (eraseAll_eq ts').symm⟩
  | _ => cases h

theorem not_hasAddress_erase (t : Ty) : ¬ t.erase.HasAddress := by
  intro h
  induction t with
  | map key val ihkey ihval =>
    rw [erase] at h
    cases h with
    | key h => exact ihkey h
    | val h => exact ihval h
  | fn arg res iharg ihres =>
    rw [erase] at h
    cases h with
    | arg h => exact iharg h
    | res h => exact ihres h
  | data name args ih =>
    rw [erase, eraseAll_eq] at h
    cases h with
    | targ hmem h =>
      obtain ⟨t, ht, rfl⟩ := List.mem_map.mp hmem
      exact ih t ht h
  | poly name body ih =>
    rw [erase] at h
    cases h with
    | body h => exact ih h
  | prim | var | unit | address =>
    rw [erase] at h
    cases h

theorem Free.of_erase {x : String} {t : Ty} (h : t.erase.Free x) : t.Free x := by
  induction t with
  | map key val ihkey ihval =>
    rw [erase] at h
    cases h with
    | key h => exact .key (ihkey h)
    | val h => exact .val (ihval h)
  | fn arg res iharg ihres =>
    rw [erase] at h
    cases h with
    | arg h => exact .arg (iharg h)
    | res h => exact .res (ihres h)
  | data name args ih =>
    rw [erase, eraseAll_eq] at h
    cases h with
    | targ hmem h =>
      obtain ⟨t, ht, rfl⟩ := List.mem_map.mp hmem
      exact .targ ht (ih t ht h)
  | poly name body ih =>
    rw [erase] at h
    cases h with
    | body hne h => exact .body hne (ih h)
  | var name =>
    rw [erase] at h
    exact h
  | prim | unit | address =>
    rw [erase] at h
    cases h

theorem Closed.concrete_erase {t : Ty} (h : t.Closed) : t.erase.Concrete where
  noAddress := t.not_hasAddress_erase
  closed := closed_iff.mpr fun x hx ↦ closed_iff.mp h x hx.of_erase

/-! ### Resolving -/

/-- What is free after resolving is free in what stands for a variable that was free. -/
theorem Free.of_resolve {x : String} {t : Ty} {s : Subst} (h : (t.resolve s).Free x) :
    ∃ y, t.Free y ∧ ((s y).getD (.var y)).Free x := by
  induction t generalizing s with
  | map key val ihkey ihval =>
    rw [resolve] at h
    cases h with
    | key h =>
      obtain ⟨y, hy, hx⟩ := ihkey h
      exact ⟨y, .key hy, hx⟩
    | val h =>
      obtain ⟨y, hy, hx⟩ := ihval h
      exact ⟨y, .val hy, hx⟩
  | fn arg res iharg ihres =>
    rw [resolve] at h
    cases h with
    | arg h =>
      obtain ⟨y, hy, hx⟩ := iharg h
      exact ⟨y, .arg hy, hx⟩
    | res h =>
      obtain ⟨y, hy, hx⟩ := ihres h
      exact ⟨y, .res hy, hx⟩
  | data name args ih =>
    rw [resolve, resolveAll_eq] at h
    cases h with
    | targ hmem h =>
      obtain ⟨t, ht, rfl⟩ := List.mem_map.mp hmem
      obtain ⟨y, hy, hx⟩ := ih t ht h
      exact ⟨y, .targ ht hy, hx⟩
  | var name => exact ⟨name, .var, h⟩
  | poly name body ih =>
    rw [resolve] at h
    cases h with
    | body hne h =>
      obtain ⟨y, hy, hx⟩ := ih h
      unfold Subst.under at hx
      split at hx
      · next heq =>
        cases hx
        exact absurd heq hne
      · next hy' => exact ⟨y, .body hy' hy, hx⟩
  | address a ih =>
    obtain ⟨kind, fields⟩ := a
    rw [resolve, resolveFields_eq] at h
    cases h with
    | field hmem h =>
      obtain ⟨f, hf, rfl⟩ := List.mem_map.mp hmem
      obtain ⟨y, hy, hx⟩ := ih f hf h
      exact ⟨y, .field hf hy, hx⟩
  | prim | unit =>
    rw [resolve] at h
    cases h

theorem closed_resolve {t : Ty} {s : Subst}
    (h : ∀ x ∈ t.freeVars, ∃ u, s x = some u ∧ u.Closed) : (t.resolve s).Closed := by
  rw [closed_iff]
  intro x hx
  obtain ⟨y, hy, hfree⟩ := hx.of_resolve
  obtain ⟨u, hu, hclosed⟩ := h y hy
  rw [hu] at hfree
  exact closed_iff.mp hclosed x hfree

/-! ### Asking for free variables -/

theorem anyHasFreeVarsBeyond_iff (ts : List Ty) (bound : List String) :
    anyHasFreeVarsBeyond ts bound = true ↔ ∃ t ∈ ts, t.hasFreeVarsBeyond bound = true := by
  induction ts with
  | nil => simp [anyHasFreeVarsBeyond]
  | cons t ts ih => simp [anyHasFreeVarsBeyond, ih]

theorem anyFieldHasFreeVarsBeyond_iff (fs : List (String × Ty)) (bound : List String) :
    anyFieldHasFreeVarsBeyond fs bound = true ↔
      ∃ f ∈ fs, f.2.hasFreeVarsBeyond bound = true := by
  induction fs with
  | nil => simp [anyFieldHasFreeVarsBeyond]
  | cons f fs ih => simp [anyFieldHasFreeVarsBeyond, ih]

theorem hasFreeVarsBeyond_of_free {x : String} {t : Ty} (h : t.Free x) {bound : List String}
    (hx : x ∉ bound) : t.hasFreeVarsBeyond bound = true := by
  induction h generalizing bound with
  | key _ ih | arg _ ih => rw [hasFreeVarsBeyond, ih hx, Bool.true_or]
  | val _ ih | res _ ih => rw [hasFreeVarsBeyond, ih hx, Bool.or_true]
  | targ ht _ ih =>
    rw [hasFreeVarsBeyond, anyHasFreeVarsBeyond_iff]
    exact ⟨_, ht, ih hx⟩
  | var => simpa [hasFreeVarsBeyond] using hx
  | body hne _ ih =>
    rw [hasFreeVarsBeyond]
    exact ih (List.not_mem_cons_of_ne_of_not_mem hne hx)
  | @field a f hf _ ih =>
    obtain ⟨kind, fields⟩ := a
    rw [hasFreeVarsBeyond, anyFieldHasFreeVarsBeyond_iff]
    exact ⟨f, hf, ih hx⟩

theorem freeVars_subset {t : Ty} {bound : List String} (h : t.hasFreeVarsBeyond bound = false) :
    t.freeVars ⊆ {x | x ∈ bound} := by
  intro x hx
  by_contra hmem
  rw [hasFreeVarsBeyond_of_free hx hmem] at h
  cases h

theorem closed_of_hasFreeVars {t : Ty} (h : t.hasFreeVars = false) : t.Closed :=
  closed_iff.mpr fun _ hx ↦ List.not_mem_nil (freeVars_subset h hx)

end MeteredContract.Ty
