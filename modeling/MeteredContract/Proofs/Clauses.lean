import MeteredContract.Eval.Stmt
import MeteredContract.Proofs.Value.Match

/-!
The clause that a match runs: the position comes from the patterns, so there is always a clause at
it, its body is what runs, and the names that were bound are among those of its pattern.
-/

set_option autoImplicit false
set_option relaxedAutoImplicit false

namespace MeteredContract

/-- The position that a match gives is that of a clause. -/
theorem exists_clause {α : Type} {clauses : List (Pattern × α)} {v : Value} {i : Nat}
    {binds : List (String × Value)}
    (h : Pattern.firstMatch (clauses.map Prod.fst) v = some (i, binds)) :
    ∃ clause, clauses[i]? = some clause := by
  obtain ⟨⟨p, hp, -⟩, -⟩ := Pattern.firstMatch_eq_some_iff.mp h
  rw [List.getElem?_map] at hp
  obtain ⟨clause, hclause, -⟩ := Option.map_eq_some_iff.mp hp
  exact ⟨clause, hclause⟩

theorem evalClause_eq {types : Datatypes} {enter : Enter} {clauses : List (Pattern × Expr)}
    {i : Nat} {clause : Pattern × Expr} (x : String) (h : clauses[i]? = some clause) (env : Env) :
    evalClause types enter clauses i x env = clause.2.evalWith types enter env := by
  induction clauses generalizing i with
  | nil => simp at h
  | cons first rest ih =>
    cases i with
    | zero =>
      simp only [List.getElem?_cons_zero, Option.some.injEq] at h
      subst h
      rw [evalClause]
    | succ i =>
      rw [evalClause]
      exact ih (by simpa using h)

theorem execClause_eq {o : Outside} {scene : Scene} {clauses : List (Pattern × List Stmt)} {i : Nat}
    {clause : Pattern × List Stmt} (x : String) (h : clauses[i]? = some clause) :
    execClause o scene clauses i x = execBlock o scene clause.2 := by
  induction clauses generalizing i with
  | nil => simp at h
  | cons first rest ih =>
    cases i with
    | zero =>
      simp only [List.getElem?_cons_zero, Option.some.injEq] at h
      subst h
      rw [execClause]
    | succ i =>
      rw [execClause]
      exact ih (by simpa using h)

/-! ### Names of patterns -/

namespace Pattern

mutual

/-- The names that a pattern binds. -/
def names : Pattern → List String
  | .wildcard => []
  | .binder x => [x]
  | .constructor _ ps => namesAll ps

def namesAll : List Pattern → List String
  | [] => []
  | p :: ps => p.names ++ namesAll ps

end

mutual

theorem map_fst_sites : ∀ p : Pattern, p.sites.map Prod.fst = p.names
  | .wildcard => rfl
  | .binder _ => rfl
  | .constructor _ ps => map_fst_sitesFrom 0 ps

theorem map_fst_sitesFrom : ∀ (i : Nat) (ps : List Pattern),
    (sitesFrom i ps).map Prod.fst = namesAll ps
  | _, [] => rfl
  | i, p :: ps => by
    rw [sitesFrom, namesAll, ← map_fst_sites p, ← map_fst_sitesFrom (i + 1) ps, List.map_append,
      List.map_map]
    rfl

end

/-- A match binds names of the pattern that matches. -/
theorem fst_mem_names_of_firstMatch {ps : List Pattern} {v : Value} {i : Nat}
    {binds : List (String × Value)} (h : firstMatch ps v = some (i, binds)) :
    ∃ p, ps[i]? = some p ∧ ∀ b ∈ binds, b.1 ∈ p.names := by
  obtain ⟨⟨p, hp, -, hbinds⟩, -⟩ := firstMatch_eq_some_iff.mp h
  refine ⟨p, hp, fun b hb ↦ ?_⟩
  obtain ⟨s, hs, hname, -⟩ := hbinds.exists_site hb
  rw [← map_fst_sites, ← hname]
  exact List.mem_map_of_mem hs

/-- The clause that runs has a pattern with the names that are bound. -/
theorem fst_mem_names_of_clause {α : Type} {clauses : List (Pattern × α)} {v : Value} {i : Nat}
    {binds : List (String × Value)} {clause : Pattern × α}
    (hmatch : firstMatch (clauses.map Prod.fst) v = some (i, binds))
    (hclause : clauses[i]? = some clause) : ∀ b ∈ binds, b.1 ∈ clause.1.names := by
  obtain ⟨p, hp, hbinds⟩ := fst_mem_names_of_firstMatch hmatch
  rw [List.getElem?_map, hclause] at hp
  cases hp
  exact hbinds

end Pattern

end MeteredContract
