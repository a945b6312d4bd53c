import MeteredContract.Proofs.Ty.Variables
import MeteredContract.Scope.Arena

/-!
Coherence of replacing type variables, erasing address types and asking for free variables.
Resolving hides the names of binders from the substitution, while `Ty.hasFreeVars` collects them on
the way down; both agree with the free variables of `Ty.Free` (`Ty.hasFreeVars_eq_false_iff`,
`Ty.resolve_eq_self`). A substitution by closed types has nothing to capture, so it leaves exactly
the free variables it does not know (`Ty.free_resolve_iff`) and has nothing to do a second time. All
of it in one statement is `types_coherent`.
-/

set_option autoImplicit false
set_option relaxedAutoImplicit false

namespace MeteredContract

namespace Ty

/-! ### Substitutions -/

/-- The names that the substitution replaces. -/
def Subst.domain (s : Subst) : Set String := {x | ∃ u, s x = some u}

/-- Every type that the substitution puts in has its address types erased. -/
def Subst.erase (s : Subst) : Subst := fun x ↦ (s x).map Ty.erase

theorem Subst.notMem_domain {s : Subst} {x : String} : x ∉ s.domain ↔ s x = none := by
  rw [Option.eq_none_iff_forall_ne_some]
  exact not_exists

theorem Subst.under_self (s : Subst) (name : String) : s.under name name = none := if_pos rfl

theorem Subst.under_of_ne (s : Subst) {x name : String} (hne : x ≠ name) :
    s.under name x = s x :=
  if_neg hne

theorem Subst.erase_under (s : Subst) (name : String) :
    (s.under name).erase = s.erase.under name := by
  funext x
  unfold erase
  by_cases heq : x = name
  · rw [heq, under_self, under_self]
    rfl
  · rw [under_of_ne s heq, under_of_ne _ heq]

/-! ### Asking for free variables -/

theorem exists_free_of_hasFreeVarsBeyond {t : Ty} {bound : List String}
    (h : t.hasFreeVarsBeyond bound = true) : ∃ x ∉ bound, t.Free x := by
  induction t generalizing bound with
  | prim | unit => cases h
  | map key val ihkey ihval =>
    rw [hasFreeVarsBeyond, Bool.or_eq_true] at h
    cases h with
    | inl h =>
      obtain ⟨x, hx, hfree⟩ := ihkey h
      exact ⟨x, hx, .key hfree⟩
    | inr h =>
      obtain ⟨x, hx, hfree⟩ := ihval h
      exact ⟨x, hx, .val hfree⟩
  | fn arg res iharg ihres =>
    rw [hasFreeVarsBeyond, Bool.or_eq_true] at h
    cases h with
    | inl h =>
      obtain ⟨x, hx, hfree⟩ := iharg h
      exact ⟨x, hx, .arg hfree⟩
    | inr h =>
      obtain ⟨x, hx, hfree⟩ := ihres h
      exact ⟨x, hx, .res hfree⟩
  | data name args ih =>
    rw [hasFreeVarsBeyond, anyHasFreeVarsBeyond_iff] at h
    obtain ⟨t, ht, h⟩ := h
    obtain ⟨x, hx, hfree⟩ := ih t ht h
    exact ⟨x, hx, .targ ht hfree⟩
  | var name => exact ⟨name, by simpa [hasFreeVarsBeyond] using h, .var⟩
  | poly name body ih =>
    -- The name of the binder joins the bound ones, so what is free in the body differs from it.
    rw [hasFreeVarsBeyond] at h
    obtain ⟨x, hx, hfree⟩ := ih h
    rw [List.mem_cons, not_or] at hx
    exact ⟨x, hx.2, .body hx.1 hfree⟩
  | address a ih =>
    obtain ⟨kind, fields⟩ := a
    rw [hasFreeVarsBeyond, anyFieldHasFreeVarsBeyond_iff] at h
    obtain ⟨f, hf, h⟩ := h
    obtain ⟨x, hx, hfree⟩ := ih f hf h
    exact ⟨x, hx, .field hf hfree⟩

theorem hasFreeVars_eq_false_iff {t : Ty} : t.hasFreeVars = false ↔ t.Closed := by
  refine ⟨closed_of_hasFreeVars, fun hclosed ↦ ?_⟩
  by_contra hvars
  obtain ⟨x, _, hfree⟩ := exists_free_of_hasFreeVarsBeyond (Bool.not_eq_false _ ▸ hvars)
  exact closed_iff.mp hclosed x hfree

/-! ### Resolving -/

theorem resolve_eq_self {t : Ty} {s : Subst} (h : ∀ x, t.Free x → s x = none) :
    t.resolve s = t := by
  induction t generalizing s with
  | prim | unit => rfl
  | map key val ihkey ihval =>
    rw [resolve, ihkey fun x hx ↦ h x (.key hx), ihval fun x hx ↦ h x (.val hx)]
  | fn arg res iharg ihres =>
    rw [resolve, iharg fun x hx ↦ h x (.arg hx), ihres fun x hx ↦ h x (.res hx)]
  | data name args ih =>
    have hargs : args.map (·.resolve s) = args.map id :=
      List.map_congr_left fun t ht ↦ ih t ht fun x hx ↦ h x (.targ ht hx)
    rw [resolve, resolveAll_eq, hargs, List.map_id]
  | var name =>
    rw [resolve, h name .var]
    rfl
  | poly name body ih =>
    rw [resolve, ih]
    intro x hx
    by_cases heq : x = name
    · rw [heq, Subst.under_self]
    · rw [Subst.under_of_ne s heq, h x (.body heq hx)]
  | address a ih =>
    obtain ⟨kind, fields⟩ := a
    have hfields : fields.map (fun f ↦ (f.1, f.2.resolve s)) = fields.map id :=
      List.map_congr_left fun f hf ↦
        Prod.ext rfl (ih f hf fun x hx ↦ h x (.field (a := ⟨kind, fields⟩) hf hx))
    rw [resolve, resolveFields_eq, hfields, List.map_id]

theorem Closed.resolve_eq {t : Ty} (h : t.Closed) (s : Subst) : t.resolve s = t :=
  resolve_eq_self fun x hx ↦ absurd hx (closed_iff.mp h x)

/-- A free variable that the substitution does not know stays, under the same binders. -/
theorem Free.resolve {x : String} {t : Ty} {s : Subst} (h : t.Free x) (hs : s x = none) :
    (t.resolve s).Free x := by
  induction h generalizing s with
  | key _ ih => exact .key (ih hs)
  | val _ ih => exact .val (ih hs)
  | arg _ ih => exact .arg (ih hs)
  | res _ ih => exact .res (ih hs)
  | targ ht _ ih =>
    rw [Ty.resolve, resolveAll_eq]
    exact .targ (List.mem_map_of_mem ht) (ih hs)
  | var =>
    rw [Ty.resolve, hs]
    exact .var
  | body hne _ ih => exact .body hne (ih ((Subst.under_of_ne s hne).trans hs))
  | @field a f hf _ ih =>
    obtain ⟨kind, fields⟩ := a
    rw [Ty.resolve, resolveFields_eq]
    exact .field (f := (f.1, f.2.resolve s)) (List.mem_map_of_mem hf) (ih hs)

theorem free_resolve_iff {x : String} {t : Ty} {s : Subst}
    (hs : ∀ y u, s y = some u → u.Closed) : (t.resolve s).Free x ↔ t.Free x ∧ s x = none := by
  refine ⟨fun h ↦ ?_, fun h ↦ h.1.resolve h.2⟩
  obtain ⟨y, hy, hx⟩ := h.of_resolve
  cases hsy : s y with
  | none =>
    rw [hsy] at hx
    cases hx
    exact ⟨hy, hsy⟩
  | some u =>
    rw [hsy] at hx
    exact absurd hx (closed_iff.mp (hs y u hsy) x)

theorem freeVars_resolve {t : Ty} {s : Subst} (hs : ∀ y u, s y = some u → u.Closed) :
    (t.resolve s).freeVars = t.freeVars \ s.domain := by
  ext x
  rw [Set.mem_sdiff, Subst.notMem_domain]
  exact free_resolve_iff hs

theorem resolve_resolve {t : Ty} {s : Subst} (hs : ∀ y u, s y = some u → u.Closed) :
    (t.resolve s).resolve s = t.resolve s :=
  resolve_eq_self fun _ hx ↦ ((free_resolve_iff hs).mp hx).2

theorem erase_resolve (t : Ty) (s : Subst) : (t.resolve s).erase = t.erase.resolve s.erase := by
  induction t generalizing s with
  | prim | unit => rfl
  | map key val ihkey ihval => simp only [resolve, erase, ihkey, ihval]
  | fn arg res iharg ihres => simp only [resolve, erase, iharg, ihres]
  | data name args ih =>
    simp only [resolve, erase, eraseAll_eq, resolveAll_eq, List.map_map]
    exact congrArg (data name) (List.map_congr_left fun t ht ↦ ih t ht s)
  | var name =>
    simp only [resolve, erase, Subst.erase]
    cases s name <;> rfl
  | poly name body ih => simp only [resolve, erase, ih, Subst.erase_under]
  -- Whatever the fields of an address type ask for is forgotten, resolved or not.
  | address => rfl

end Ty

/-- The shortcut for types without free variables never shows. -/
theorem Arena.resolveTy_eq (a : Arena) (env : Env) (t : Ty) :
    a.resolveTy env t = t.resolve (a.lookupType? env) := by
  unfold resolveTy
  split
  · rfl
  · next hvars =>
    have hclosed : t.Closed := Ty.closed_of_hasFreeVars (Bool.eq_false_of_not_eq_true hvars)
    exact (hclosed.resolve_eq _).symm

/-- A type is said to have no free variables just when it has none, such a type is resolved to
itself, and an environment resolves every type as its instantiated variables do. Erasing is
idempotent and commutes with resolving. Resolving by closed types leaves the free variables it does
not know and is idempotent. -/
theorem types_coherent (t : Ty) (s : Ty.Subst) :
    (t.hasFreeVars = false ↔ t.freeVars = ∅) ∧
      (t.hasFreeVars = false → t.resolve s = t) ∧
      (∀ (a : Arena) (env : Env), a.resolveTy env t = t.resolve (a.lookupType? env)) ∧
      (t.resolve s).erase = t.erase.resolve s.erase ∧
      t.erase.erase = t.erase ∧
      ((∀ x u, s x = some u → u.hasFreeVars = false) →
        (t.resolve s).freeVars = t.freeVars \ s.domain ∧
          (t.resolve s).resolve s = t.resolve s) := by
  refine ⟨Ty.hasFreeVars_eq_false_iff, fun hvars ↦ ?_, fun a env ↦ a.resolveTy_eq env t,
    t.erase_resolve s, t.erase_erase, fun hs ↦ ?_⟩
  · exact (Ty.closed_of_hasFreeVars hvars).resolve_eq s
  · have hclosed : ∀ x u, s x = some u → u.Closed :=
      fun x u hu ↦ Ty.closed_of_hasFreeVars (hs x u hu)
    exact ⟨Ty.freeVars_resolve hclosed, Ty.resolve_resolve hclosed⟩

/-- A type that is put in may have a free variable named like a binder, which then captures it. -/
example : (Ty.poly "b" (.fn (.var "a") (.var "b"))).resolve
    (fun x ↦ if x = "a" then some (.var "b") else none) =
      .poly "b" (.fn (.var "b") (.var "b")) := by
  decide

end MeteredContract
