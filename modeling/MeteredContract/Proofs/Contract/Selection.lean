import MeteredContract.Proofs.Contract.Conservation
import MeteredContract.Proofs.Scope.Lookup

/-!
The transition that a message selects. It is the first of its name, it sees the procedures that are
declared before it (`eq_append_of_findTransition?`), and it starts with each parameter bound to the
argument of that name (`lookup_of_select`).
-/

set_option autoImplicit false
set_option relaxedAutoImplicit false

namespace MeteredContract

/-! ### Arguments -/

theorem value?_argumentsOf_origin {message : List (String × Value)} {sender : Value}
    (h : Arguments.value? message Label.sender = some sender) :
    Arguments.value? (argumentsOf message) Label.origin =
      some ((Arguments.value? message Label.origin).getD sender) := by
  have htag : Label.origin ≠ Label.tag := by decide
  have hsender : Arguments.value? (message.filter fun e ↦ e.1 ≠ Label.tag) Label.sender =
      some sender := (Arguments.value?_filter_ne message (by decide)).trans h
  rw [← Arguments.value?_filter_ne message htag]
  unfold argumentsOf
  dsimp only
  generalize message.filter _ = entries at hsender ⊢
  rw [hsender]
  cases horigin : Arguments.value? entries Label.origin with
  | some v => exact horigin
  | none =>
    rw [Arguments.value?, Option.map_eq_none_iff] at horigin
    simp [Arguments.value?, List.find?_append, horigin]

/-! ### Selection -/

/-- The message fits the parameters of the transition that was selected. -/
theorem exists_of_select {m : Module} {message : List (String × Value)} {sel : Selected}
    (h : select m message = .ok sel) :
    ∃ tag, findTransition? tag m.components = some sel.callee ∧
      admitArguments sel.callee.procedure.allParams (argumentsOf message) trustedParams =
        .ok sel.args := by
  unfold select at h
  obtain ⟨tag, -, h⟩ := except_bind_eq_ok.mp h
  split at h
  · cases h
  · next callee hcallee =>
    obtain ⟨args, hargs, h⟩ := except_bind_eq_ok.mp h
    split at h
    · cases h
      exact ⟨tag, hcallee, hargs⟩
    · obtain ⟨incoming, -, h⟩ := except_bind_eq_ok.mp h
      cases h
      exact ⟨tag, hcallee, hargs⟩

/-- A transition that was found sees the procedures that are declared before it. -/
theorem eq_append_of_findTransition? {name : String} {components : List Component} {c : Callee}
    (h : findTransition? name components = some c) :
    c.procedure.kind = .transition ∧ c.procedure.name = name ∧ ∃ before after,
      components = before ++ c.procedure :: after ∧
        c.visible = before.filter (·.kind = .procedure) := by
  induction components generalizing c with
  | nil => cases h
  | cons d ds ih =>
    unfold findTransition? at h
    split at h
    · next hd =>
      cases h
      exact ⟨hd.1, hd.2, [], ds, rfl, rfl⟩
    · obtain ⟨r, hr, rfl⟩ := Option.map_eq_some_iff.mp h
      obtain ⟨hkind, hname, before, after, hcomponents, hvisible⟩ := ih hr
      subst hcomponents
      by_cases hd : d.kind = .procedure
      · rw [if_pos hd]
        exact ⟨hkind, hname, d :: before, after, rfl, by simp [hd, hvisible]⟩
      · rw [if_neg hd]
        exact ⟨hkind, hname, d :: before, after, rfl, by simp [hd, hvisible]⟩

/-- The transition that was selected and the procedures that it sees are components of the
module. -/
theorem mem_of_select {m : Module} {message : List (String × Value)} {sel : Selected}
    (h : select m message = .ok sel) :
    sel.callee.procedure ∈ m.components ∧ ∀ c ∈ sel.callee.visible, c ∈ m.components := by
  obtain ⟨tag, hfound, -⟩ := exists_of_select h
  obtain ⟨-, -, before, after, hcomponents, hvisible⟩ := eq_append_of_findTransition? hfound
  rw [hcomponents, hvisible]
  refine ⟨List.mem_append_right _ List.mem_cons_self, fun c hc ↦ ?_⟩
  exact List.mem_append_left _ (List.mem_filter.mp hc).1

/-- A parameter of the transition that was selected is bound to the argument of its name. -/
theorem lookup_of_select {m : Module} {message : List (String × Value)} {sel : Selected}
    (h : select m message = .ok sel) (state : ContractState) (store : Store) (gas : Nat) {p : Param}
    (hp : p ∈ sel.callee.procedure.allParams) :
    ∃ v, Arguments.value? (argumentsOf message) p.name = some v ∧
      (sel.session state store gas).machine.arena.lookup (sel.session state store gas).env
        p.name = .ok v := by
  obtain ⟨tag, -, hargs⟩ := exists_of_select h
  have hgiven := ((fit_of_admitArguments hargs).names _).mpr (List.mem_map_of_mem hp)
  obtain ⟨v, hv⟩ := Arguments.exists_value?_iff.mpr hgiven
  refine ⟨v, hv, Arena.lookup_bindAll (.inr ((mem_named_iff hargs).mpr hv)) fun b hb hname ↦ ?_⟩
  have hvalue := (mem_named_iff hargs).mp hb
  rw [hname, hv] at hvalue
  exact (Option.some.inj hvalue).symm

end MeteredContract
