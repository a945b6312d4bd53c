import MeteredContract.Proofs.Contract.Arguments
import MeteredContract.Proofs.Scope.Embedding

/-!
Environments that consist of known bindings and of nothing else (`Arena.Consists`). Binding names
adds to them, and neither frames that are added elsewhere nor freezing changes them. A name has the
value that it was bound to last, and names that are not bound have none (`Arena.Consists.lookup`).
-/

set_option autoImplicit false
set_option relaxedAutoImplicit false

namespace MeteredContract.Arena

variable {a b : Arena} {env : Env} {bs : List (String × Value)}

/-- Following the environment to its end one comes upon these bindings, the last one first. -/
def Consists (a : Arena) (env : Env) (bs : List (String × Value)) : Prop :=
  ∃ fs, Chain a env fs ∧ fs.length ≤ a.size ∧
    fs.map (fun f ↦ (f.name, f.binding)) = bs.reverse.map fun b ↦ (b.1, .value b.2)

theorem consists_empty (a : Arena) : a.Consists .empty [] := ⟨[], .done, Nat.zero_le _, rfl⟩

theorem Chain.mono {fs : List Frame} (h : Chain a env fs)
    (hframe : ∀ {i f}, a.frame? i = some f → b.frame? i = some f) : Chain b env fs := by
  induction h with
  | done => exact .done
  | step hf _ ih => exact .step (hframe hf) ih

namespace Consists

theorem grows (h : a.Consists env bs) (hab : a.Grows b) : b.Consists env bs := by
  obtain ⟨fs, hchain, hlength, hbindings⟩ := h
  exact ⟨fs, hchain.mono hab.frame?_eq, Nat.le_trans hlength hab.size_le, hbindings⟩

theorem freeze (h : a.Consists env bs) : (ofFrozen a.freeze).Consists env bs := by
  obtain ⟨fs, hchain, hlength, hbindings⟩ := h
  refine ⟨fs, hchain.mono fun hf ↦ ?_, ?_, hbindings⟩
  · rw [frame?_ofFrozen_freeze, hf]
  · exact Nat.le_trans hlength (embeds_freeze a).size_le

theorem bind (h : a.Consists env bs) (x : String) (v : Value) :
    (a.bind env x v).1.Consists (a.bind env x v).2 (bs ++ [(x, v)]) := by
  obtain ⟨fs, hchain, hlength, hbindings⟩ := h
  have hgrows : a.Grows (a.bind env x v).1 := grows_push a _
  refine ⟨⟨x, .value v, env⟩ :: fs, .step ?_ (hchain.mono hgrows.frame?_eq), ?_, ?_⟩
  · exact (frame?_push a _ _).trans (if_pos rfl)
  · rw [Arena.bind, size_push]
    exact Nat.succ_le_succ hlength
  · rw [List.map_cons, hbindings, List.reverse_append]
    rfl

theorem bindAll (h : a.Consists env bs) (cs : List (String × Value)) :
    (a.bindAll env cs).1.Consists (a.bindAll env cs).2 (bs ++ cs) := by
  induction cs generalizing a env bs with
  | nil => rwa [List.append_nil]
  | cons c cs ih =>
    have hrest := ih (h.bind c.1 c.2)
    rwa [List.append_assoc] at hrest

theorem lookup (h : a.Consists env bs) (name : String) :
    a.lookup env name =
      match Arguments.value? bs.reverse name with
      | some v => .ok v
      | none => .error (.unboundIdentifier name) := by
  obtain ⟨fs, hchain, hlength, hbindings⟩ := h
  rw [Arena.lookup, Arena.find?, chain, hchain.walk_eq hlength]
  clear hchain hlength
  generalize bs.reverse = cs at hbindings
  induction fs generalizing cs with
  | nil =>
    cases List.map_eq_nil_iff.mp hbindings.symm
    rfl
  | cons f fs ih =>
    obtain ⟨c, cs, rfl⟩ : ∃ c cs', cs = c :: cs' := by
      cases cs with
      | nil => cases hbindings
      | cons c cs => exact ⟨c, cs, rfl⟩
    obtain ⟨hfirst, hrest⟩ := List.cons.inj hbindings
    obtain ⟨hname, hbinding⟩ := Prod.mk.inj hfirst
    rw [Arguments.value?_cons]
    by_cases hc : c.1 = name
    · obtain ⟨x, binding, parent⟩ := f
      cases hbinding
      rw [if_pos hc, List.find?_cons_of_pos (by simpa [← hc] using hname)]
    · rw [if_neg hc, List.find?_cons_of_neg (by simpa [hname] using hc)]
      exact ih cs hrest

end Consists

end MeteredContract.Arena
