import MeteredContract.Contract.Deploy
import MeteredContract.Proofs.Run

/-!
What a deployment does to the store. It has two parts (`DeployM.deploy_eq`): up to the fields it
works on the machine alone, and then it writes the fields. So a relation that does not see the
machine and goes along with the initialization of each field is kept by the whole deployment,
whether it succeeds or not (`DeployM.keeps_deploy`). One that succeeds has initialized all fields
(`exists_initFields_of_deploy`).
-/

set_option autoImplicit false
set_option relaxedAutoImplicit false

namespace MeteredContract

/-- The store is the same. -/
def Deployment.SameStore (d e : Deployment) : Prop := e.store = d.store

instance : IsPreorder Deployment Deployment.SameStore where
  refl _ := rfl
  trans _ _ _ h h' := h'.trans h

namespace DeployM

/-! ### The two parts of a deployment -/

/-- Libraries, parameters and constraint, which leave the setting and the environment of the fields
and the checks to be made on the chain. -/
def opening (depthLimit : Nat) (m : Module) (args : List (String × Value)) :
    DeployM (Setting × Env × List PendingCheck) := do
  let entries := m.libraries.flatMap (·.entries)
  let (types, libEnv) ← onMachine (loadEntries depthLimit entries .standard .empty)
  let admitted ← Run.ofExcept (admitArguments m.allParams args [])
  let env ← onMachine (EvalM.bindAll libEnv admitted.named)
  onMachine (checkConstraint ⟨types, depthLimit⟩ env m.constraint)
  return (⟨types, depthLimit⟩, env, admitted.pending)

/-- The fields, and the state that is made in the end. -/
def establish (m : Module) (balance : Tokens) (o : Setting × Env × List PendingCheck) :
    DeployM Deployed := do
  initFields o.1 o.2.1 m.fields
  let frames ← Run.read fun d ↦ .ok d.machine.arena.freeze
  let fields := m.fields.map fun f ↦ (f.name, f.ty)
  return ⟨⟨o.2.1, frames, fields, balance, o.1.datatypes⟩, o.2.2⟩

theorem deploy_eq (depthLimit : Nat) (m : Module) (args : List (String × Value))
    (balance : Tokens) :
    deploy depthLimit m args balance = opening depthLimit m args >>= establish m balance := by
  simp only [opening, Run.bind_assoc]
  rfl

theorem onMachine_eq_iff {α : Type} {x : EvalM α} {d e : Deployment} {r : Except Fault α} :
    onMachine x d = (r, e) ↔ x d.machine = (r, e.machine) ∧ e.store = d.store := by
  rw [onMachine, Run.zoom]
  constructor
  · rintro ⟨⟩
    exact ⟨rfl, rfl⟩
  · rintro ⟨hrun, hstore⟩
    rw [hrun, ← hstore]

theorem onMachine_of_eq {α : Type} {x : EvalM α} {d : Deployment} {r : Except Fault α} {n : Machine}
    (h : x d.machine = (r, n)) : onMachine x d = (r, ⟨n, d.store⟩) := onMachine_eq_iff.mpr ⟨h, rfl⟩

/-! ### What is kept -/

section

variable {R : Deployment → Deployment → Prop} [IsPreorder Deployment R]
  (hmachine : ∀ d machine, R d { d with machine })

include hmachine

omit [IsPreorder Deployment R] in
theorem keeps_onMachine {α : Type} (x : EvalM α) : Run.Keeps R (onMachine x) :=
  fun d ↦ hmachine d _

theorem keeps_initFields (s : Setting) (env : Env) {fields : List FieldDef}
    (hput : ∀ f ∈ fields, ∀ d v, v.isPure = true → R d { d with store := d.store.put f.name v }) :
    Run.Keeps R (initFields s env fields) := by
  induction fields with
  | nil => exact .pure _
  | cons f fs ih =>
    obtain ⟨hf, hfs⟩ := List.forall_mem_cons.mp hput
    have hfirst : Run.Keeps R (initField s env f) := by
      refine .bind (keeps_onMachine hmachine _) fun v ↦ ?_
      split
      · next hpure => exact fun d ↦ hf d v hpure
      · exact Std.Refl.refl
    exact .bind hfirst fun _ ↦ ih hfs

theorem keeps_opening (depthLimit : Nat) (m : Module) (args : List (String × Value)) :
    Run.Keeps R (opening depthLimit m args) := by
  refine .bind (keeps_onMachine hmachine _) fun loaded ↦ .bind (.read _) fun admitted ↦ ?_
  refine .bind (keeps_onMachine hmachine _) fun env ↦ ?_
  exact .bind (keeps_onMachine hmachine _) fun _ ↦ .pure _

theorem keeps_deploy {m : Module}
    (hput : ∀ f ∈ m.fields, ∀ d v, v.isPure = true → R d { d with store := d.store.put f.name v })
    (depthLimit : Nat) (args : List (String × Value)) (balance : Tokens) :
    Run.Keeps R (deploy depthLimit m args balance) := by
  rw [deploy_eq]
  refine .bind (keeps_opening hmachine depthLimit m args) fun o ↦ ?_
  refine .bind (keeps_initFields hmachine o.1 o.2.1 hput) fun _ ↦ ?_
  exact .bind (.read _) fun _ ↦ .pure _

end

end DeployM

/-- A deployment that succeeds has initialized all fields, in the store that it leaves. -/
theorem exists_initFields_of_deploy {depthLimit : Nat} {m : Module} {args : List (String × Value)}
    {balance : Tokens} {store : Store} {gas : Nat} {d : Deployed}
    (h : (deploy depthLimit m args balance store gas).result = .ok d) :
    ∃ s env t u, DeployM.initFields s env m.fields t = (.ok (), u) ∧
      (deploy depthLimit m args balance store gas).store = u.store ∧
      d.state.fields = m.fields.map (fun f ↦ (f.name, f.ty)) ∧ d.state.balance = balance := by
  unfold deploy at h ⊢
  cases hrun : DeployM.deploy depthLimit m args balance ⟨⟨.empty, gas⟩, store⟩ with
  | mk result last =>
    rw [hrun] at h
    simp only at h
    subst h
    rw [DeployM.deploy_eq] at hrun
    obtain ⟨o, t, -, hrun⟩ := Run.bind_eq_ok hrun
    obtain ⟨_, u, hfields, hrun⟩ := Run.bind_eq_ok hrun
    obtain ⟨frames, _, hfreeze, hrun⟩ := Run.bind_eq_ok hrun
    cases hfreeze
    cases hrun
    exact ⟨o.1, o.2.1, t, _, hfields, rfl, rfl, rfl⟩

end MeteredContract
