import MeteredContract.Proofs.Execution.Frame
import MeteredContract.Proofs.Scope.Lookup

/-!
The names that statements bind. A component gives a name another meaning only by a statement or a
pattern of its own that binds it: expressions and the procedures that are called bind their names in
scopes of their own. So names that a statement does not bind (`Stmt.bound`) keep their values while
it runs (`Stmt.keepsNames`).
-/

set_option autoImplicit false
set_option relaxedAutoImplicit false

namespace MeteredContract

/-! ### Names of statements and components -/

mutual

/-- The names that a statement binds in the scope of its component or in those of its clauses. -/
def Stmt.bound : Stmt → List String
  | .matching _ clauses => clausesBound clauses
  | .located _ st => st.bound
  | st => st.target?.toList

def blockBound : List Stmt → List String
  | [] => []
  | st :: rest => st.bound ++ blockBound rest

def clausesBound : List (Pattern × List Stmt) → List String
  | [] => []
  | (p, body) :: clauses => p.names ++ blockBound body ++ clausesBound clauses

end

/-- The names that a component binds: its parameters and those that its body binds. -/
def Component.bound (c : Component) : List String := c.params.map (·.name) ++ blockBound c.body

theorem Stmt.mem_bound_of_target? {st : Stmt} {x : String} (h : st.target? = some x) :
    x ∈ st.bound := by
  cases st with
  | matching | located => cases h
  | _ => simp [bound, h]

theorem mem_clausesBound {clauses : List (Pattern × List Stmt)} {i : Nat}
    {clause : Pattern × List Stmt} (h : clauses[i]? = some clause) {x : String}
    (hx : x ∈ clause.1.names ∨ x ∈ blockBound clause.2) : x ∈ clausesBound clauses := by
  induction clauses generalizing i with
  | nil => simp at h
  | cons first rest ih =>
    obtain ⟨p, body⟩ := first
    rw [clausesBound, List.mem_append, List.mem_append]
    cases i with
    | zero =>
      cases h
      exact .inl hx
    | succ i => exact .inr (ih (by simpa using h))

/-- The names that are bound when a clause is chosen, and those that its body binds, are names of
the clauses. -/
theorem forall_clause_of_firstMatch {clauses : List (Pattern × List Stmt)} {v : Value} {i : Nat}
    {binds : List (String × Value)} {clause : Pattern × List Stmt} {p : String → Prop}
    (hmatch : Pattern.firstMatch (clauses.map Prod.fst) v = some (i, binds))
    (hclause : clauses[i]? = some clause) (h : ∀ x ∈ clausesBound clauses, p x) :
    (∀ b ∈ binds, p b.1) ∧ ∀ x ∈ blockBound clause.2, p x := by
  have hbinds := Pattern.fst_mem_names_of_clause hmatch hclause
  exact ⟨fun b hb ↦ h b.1 (mem_clausesBound hclause (.inl (hbinds b hb))),
    fun x hx ↦ h x (mem_clausesBound hclause (.inr hx))⟩

/-! ### What statements leave alone -/

/-- Frames were added to the arena, and the names keep the values that they have. -/
structure Session.KeepsNames (names : List String) (t u : Session) : Prop where
  grows : t.machine.arena.Grows u.machine.arena
  lookup : ∀ x ∈ names, ∀ v, t.machine.arena.lookup t.env x = .ok v →
    u.machine.arena.lookup u.env x = .ok v

variable {names : List String}

theorem Session.KeepsNames.of_env {t u : Session}
    (hgrows : t.machine.arena.Grows u.machine.arena) (henv : u.env = t.env) :
    t.KeepsNames names u where
  grows := hgrows
  lookup _ _ _ hv := henv ▸ hgrows.evolves.lookup hv

instance (names : List String) : IsPreorder Session (Session.KeepsNames names) where
  refl _ := .of_env (.refl _) rfl
  trans _ _ _ htu huv :=
    ⟨htu.grows.trans huv.grows, fun x hx v hv ↦ huv.lookup x hx v (htu.lookup x hx v hv)⟩

theorem Session.keepsNames_bound (t : Session) {bs : List (String × Value)}
    (hbs : ∀ b ∈ bs, b.1 ∉ names) : t.KeepsNames names (t.bound t.env bs) where
  grows := t.machine.arena.grows_bindAll t.env bs
  lookup _ hx _ hv := Arena.lookup_bindAll (.inl hv) fun b hb heq ↦ absurd (heq ▸ hx) (hbs b hb)

theorem plain_keepsNames (names : List String) :
    Plain (· ∉ names) (Run.Keeps (Session.KeepsNames names)) where
  bind hx hf := hx.bind hf
  read _ := .read _
  charge env c t := .of_env (EvalM.grows_charge env c t.machine) rfl
  extend x v hx t := by
    have hbound : ∀ b ∈ [(x, v)], b.1 ∉ names := List.forall_mem_singleton.mpr hx
    exact t.keepsNames_bound hbound
  write _ _ := .of_env (.refl _) rfl
  accept scene t := by
    unfold ExecM.accept
    split
    · exact .of_env (.refl _) rfl
    · split
      · exact .of_env (.refl _) rfl
      · exact .of_env (.refl _) rfl
  emit _ _ := .of_env (.refl _) rfl
  announce _ _ := .of_env (.refl _) rfl

theorem keepsNames_call (s : Setting) (room : Nat) (scene : Scene) (site : Span) (name : String)
    (args : List Value) :
    Run.Keeps (Session.KeepsNames names) ((outside s room).call scene site name args) := by
  intro t
  have hgrows := (steps_nests.call (steps_nests.outside s room) scene site name args t).grows
  exact .of_env hgrows (keepsEnv_call s room scene site name args t)

/-- Names that a statement does not bind keep their values. -/
theorem Stmt.keepsNames (s : Setting) (room : Nat) (scene : Scene) {st : Stmt}
    (hst : ∀ x ∈ st.bound, x ∉ names) (site : Span) :
    Run.Keeps (Session.KeepsNames names) (st.execWith (outside s room) scene site) := by
  by_cases hscoped : st.isScoped = true
  · intro t
    have hgrows := (steps_nests.execWith (steps_nests.outside s room) scene st site t).grows
    exact .of_env hgrows (st.keepsEnv_of_isScoped s room scene hscoped site t)
  · induction st generalizing site with
    | located sp st ih =>
      intro t
      rw [Stmt.execWith, Run.annotate_snd]
      exact ih hst sp hscoped t
    | matching | call | forEach => exact absurd rfl hscoped
    | _ =>
      have heval : ∀ e env, Run.Keeps (Session.KeepsNames names)
          (ExecM.onMachine ((outside s room).eval e env)) :=
        fun e env t ↦ .of_env ((steps_nests.outside s room).eval e env t.machine) rfl
      exact (plain_keepsNames names).execWith heval scene rfl
        (fun x hx ↦ hst x (mem_bound_of_target? hx)) site

end MeteredContract
