import MeteredContract.Proofs.Scope.Growth

/-!
Names that a binding leaves alone. If a name has a value after another name was bound, then it had
that value before (`Arena.lookup_of_lookup_bind`), and the other way round
(`Arena.lookup_bind_of_ne`). This holds in all arenas, also in those with handles that nothing was
pushed for.
-/

set_option autoImplicit false
set_option relaxedAutoImplicit false

namespace MeteredContract.Arena

variable {a : Arena}

theorem find?_walk_mono {name : String} {f : Frame} {env : Env} {n n' : Nat} (hle : n ≤ n')
    (h : (a.walk n env).find? (·.name = name) = some f) :
    (a.walk n' env).find? (·.name = name) = some f := by
  induction n generalizing n' env with
  | zero => simp [walk] at h
  | succ n ih =>
    obtain ⟨n', rfl⟩ := Nat.exists_eq_add_of_le' (Nat.lt_of_lt_of_le n.succ_pos hle)
    rw [walk] at h ⊢
    cases htop : env.top.bind a.frame? with
    | none =>
      rw [htop] at h
      cases h
    | some g =>
      rw [htop] at h
      by_cases hname : g.name = name
      · rw [List.find?_cons_of_pos (by simpa using hname)] at h ⊢
        exact h
      · rw [List.find?_cons_of_neg (by simpa using hname)] at h ⊢
        exact ih (by omega) h

/-- A walk comes upon the new frame through handles that had no frame before. It goes on where the
new frame stands, so what it finds beyond was found from there. -/
theorem find?_walk_push {name : String} {f g : Frame} (hne : g.name ≠ name) {n : Nat} {env : Env}
    (h : ((a.push g).1.walk n env).find? (·.name = name) = some f) :
    (a.walk n env).find? (·.name = name) = some f ∨
      (a.walk n g.parent).find? (·.name = name) = some f := by
  induction n generalizing env with
  | zero => simp [walk] at h
  | succ n ih =>
    rw [walk] at h
    cases htop : env.top with
    | none =>
      rw [htop] at h
      cases h
    | some i =>
      rw [htop, Option.bind_some, frame?_push] at h
      by_cases hi : i = a.size
      · rw [if_pos hi] at h
        rw [List.find?_cons_of_neg (by simpa using hne)] at h
        rcases ih h with h | h
        · exact .inr (find?_walk_mono n.le_succ h)
        · exact .inr (find?_walk_mono n.le_succ h)
      · rw [if_neg hi] at h
        cases hf : a.frame? i with
        | none =>
          rw [hf] at h
          cases h
        | some e =>
          rw [hf] at h
          rw [walk, htop, Option.bind_some, hf]
          by_cases hname : e.name = name
          · rw [List.find?_cons_of_pos (by simpa using hname)] at h ⊢
            exact .inl h
          · rw [List.find?_cons_of_neg (by simpa using hname)] at h ⊢
            rcases ih h with h | h
            · exact .inl h
            · exact .inr (find?_walk_mono n.le_succ h)

theorem chain_push (a : Arena) (f : Frame) :
    (a.push f).1.chain (a.push f).2 = f :: (a.push f).1.walk a.size f.parent := by
  rw [chain, size_push, push_top, walk, Option.bind_some, frame?_push, if_pos rfl]

/-- Past the new frame, a name is looked for in the environment that was extended. -/
theorem find?_push_of_ne {f : Frame} {name : String} (hne : f.name ≠ name) :
    (a.push f).1.find? (a.push f).2 name =
      ((a.push f).1.walk a.size f.parent).find? (·.name = name) := by
  rw [find?, chain_push]
  exact List.find?_cons_of_neg (by simpa using hne)

/-- A frame that was found is found past a new frame of another name. -/
theorem exists_find?_push {g : Frame} {name : String} (hne : g.name ≠ name) {f : Frame}
    (h : a.find? g.parent name = some f) :
    ∃ f', (a.push g).1.find? (a.push g).2 name = some f' ∧ f.Settles f' := by
  rw [find?_push_of_ne hne]
  exact (a.grows_push g).evolves.find?_walk (Nat.le_refl _) h

/-- What a name is bound to after another name was bound, it was bound to before. -/
theorem lookup_of_lookup_bind {env : Env} {x name : String} {v w : Value} (hne : x ≠ name)
    (h : (a.bind env x v).1.lookup (a.bind env x v).2 name = .ok w) :
    a.lookup env name = .ok w := by
  obtain ⟨f, hf, hbinding⟩ := lookup_eq_ok.mp h
  rw [bind, find?_push_of_ne hne] at hf
  have hold : a.find? env name = some f := (find?_walk_push hne hf).elim id id
  exact lookup_eq_ok.mpr ⟨f, hold, hbinding⟩

/-- A name keeps its value when another name is bound. -/
theorem lookup_bind_of_ne {env : Env} {x name : String} {v : Value} (hne : x ≠ name) (w : Value)
    (h : a.lookup env name = .ok v) :
    (a.bind env x w).1.lookup (a.bind env x w).2 name = .ok v := by
  obtain ⟨f, hf, hbinding⟩ := lookup_eq_ok.mp h
  obtain ⟨g, hg, hsettles⟩ := exists_find?_push (g := ⟨x, .value w, env⟩) hne hf
  exact lookup_eq_ok.mpr ⟨g, hg, hsettles.binding_eq hbinding nofun⟩

/-- If all that is bound to a name is one value, and there is such a binding or the name had the
value before, then it has it in the end. -/
theorem lookup_bindAll {env : Env} {name : String} {v : Value} {bs : List (String × Value)}
    (h : a.lookup env name = .ok v ∨ (name, v) ∈ bs) (hsame : ∀ b ∈ bs, b.1 = name → b.2 = v) :
    (a.bindAll env bs).1.lookup (a.bindAll env bs).2 name = .ok v := by
  induction bs generalizing a env with
  | nil => exact h.elim id nofun
  | cons b bs ih =>
    obtain ⟨hfirst, hrest⟩ := List.forall_mem_cons.mp hsame
    refine ih ?_ hrest
    by_cases hb : b.1 = name
    · refine .inl ?_
      rw [← hb, ← hfirst hb]
      exact lookup_bind a env b.1 b.2
    · rcases h with h | h
      · exact .inl (lookup_bind_of_ne hb b.2 h)
      · rcases List.mem_cons.mp h with rfl | h
        · exact absurd rfl hb
        · exact .inr h

theorem lookupAll_of_lookupAll_bind {env : Env} {x : String} {v : Value} {names : List String}
    {vs : List Value} (hne : x ∉ names)
    (h : (a.bind env x v).1.lookupAll (a.bind env x v).2 names = .ok vs) :
    a.lookupAll env names = .ok vs := by
  induction names generalizing vs with
  | nil => exact h
  | cons name names ih =>
    rw [List.mem_cons, not_or] at hne
    obtain ⟨w, ws, rfl, hw, hws⟩ := lookupAll_cons_eq_ok.mp h
    exact lookupAll_cons_eq_ok.mpr ⟨w, ws, rfl, lookup_of_lookup_bind hne.1 hw, ih hne.2 hws⟩

end MeteredContract.Arena
