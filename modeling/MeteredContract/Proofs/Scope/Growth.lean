import MeteredContract.Proofs.Scope.Evaluation

/-!
Arenas over time. Evaluation only adds frames: those that were there before stay exactly as they
are, in both layers and whether it fails or not (`Arena.Grows`, `grows_eval`). While an expression
is being evaluated, a frame may still wait for the value of a recursive binding; from one moment to
a later one such a frame can get its value, and no other frame changes (`Arena.Evolves`). Either way
a name that has a value keeps it (`Arena.Evolves.lookup`).
-/

set_option autoImplicit false
set_option relaxedAutoImplicit false

namespace MeteredContract

/-- The frame is the same up to its binding, which may have been pending. -/
structure Frame.Settles (f g : Frame) : Prop where
  name : g.name = f.name
  parent : g.parent = f.parent
  binding : f.binding ≠ .pending → g.binding = f.binding

theorem Frame.Settles.refl (f : Frame) : f.Settles f := ⟨rfl, rfl, fun _ ↦ rfl⟩

theorem Frame.Settles.trans {f g h : Frame} (hfg : f.Settles g) (hgh : g.Settles h) :
    f.Settles h where
  name := hgh.name.trans hfg.name
  parent := hgh.parent.trans hfg.parent
  binding hf := by
    have hg := hfg.binding hf
    rw [hgh.binding (hg ▸ hf), hg]

theorem Frame.Settles.binding_eq {f g : Frame} (hfg : f.Settles g) {b : Binding}
    (hf : f.binding = b) (hb : b ≠ .pending) : g.binding = b :=
  (hfg.binding (hf ▸ hb)).trans hf

namespace Arena

variable {a b c : Arena}

/-! ### Growing -/

/-- Frames were added to the scratch layer, and all that were there before are as they were. -/
structure Grows (a b : Arena) : Prop where
  base : b.base = a.base
  size_le : a.size ≤ b.size
  frame : ∀ {i}, i < a.size → b.frame? i = a.frame? i

theorem Grows.refl (a : Arena) : a.Grows a := ⟨rfl, Nat.le_refl _, fun _ ↦ rfl⟩

theorem Grows.trans (hab : a.Grows b) (hbc : b.Grows c) : a.Grows c where
  base := hbc.base.trans hab.base
  size_le := Nat.le_trans hab.size_le hbc.size_le
  frame hi := (hbc.frame (Nat.lt_of_lt_of_le hi hab.size_le)).trans (hab.frame hi)

theorem Grows.frame?_eq (hab : a.Grows b) {i : Nat} {f : Frame} (hf : a.frame? i = some f) :
    b.frame? i = some f :=
  (hab.frame (lt_size_of_frame? hf)).trans hf

theorem grows_push (a : Arena) (f : Frame) : a.Grows (a.push f).1 where
  base := rfl
  size_le := by
    rw [size_push]
    omega
  frame hi := by
    rw [frame?_push, if_neg (Nat.ne_of_lt hi)]

theorem grows_bindAll (a : Arena) (env : Env) (bs : List (String × Value)) :
    a.Grows (a.bindAll env bs).1 := by
  induction bs generalizing a env with
  | nil => exact .refl a
  | cons b bs ih => exact (grows_push a _).trans (ih _ _)

/-- Giving a value to a frame that was added leaves the frames before it as they were. -/
theorem Grows.set (hab : a.Grows b) (v : Value) {i : Nat} (hi : a.size ≤ i) :
    a.Grows (b.set ⟨some i⟩ v) where
  base := by
    have hbase : ¬ i < a.base.size := by
      unfold size at hi
      omega
    simp only [Arena.set, hab.base, hbase, if_false]
  size_le := by
    rw [size_set]
    exact hab.size_le
  frame {j} hj := by
    have hne : ¬ (some i = some j) := by
      rintro ⟨⟩
      omega
    rw [frame?_set, if_neg hne, hab.frame hj]

/-! ### Evolving -/

/-- Every frame is still there, and only bindings that were pending may be others. -/
structure Evolves (a b : Arena) : Prop where
  size_le : a.size ≤ b.size
  frame : ∀ {i f}, a.frame? i = some f → ∃ g, b.frame? i = some g ∧ f.Settles g

theorem Grows.evolves (hab : a.Grows b) : a.Evolves b where
  size_le := hab.size_le
  frame hf := ⟨_, hab.frame?_eq hf, .refl _⟩

theorem Evolves.trans (hab : a.Evolves b) (hbc : b.Evolves c) : a.Evolves c where
  size_le := Nat.le_trans hab.size_le hbc.size_le
  frame hf := by
    obtain ⟨g, hg, hfg⟩ := hab.frame hf
    obtain ⟨h, hh, hgh⟩ := hbc.frame hg
    exact ⟨h, hh, hfg.trans hgh⟩

/-- Giving a pending frame its value. -/
theorem evolves_set {i : Nat} {f : Frame} (hf : a.frame? i = some f)
    (hpending : f.binding = .pending) (v : Value) : a.Evolves (a.set ⟨some i⟩ v) where
  size_le := Nat.le_of_eq (size_set a _ v).symm
  frame {j g} hg := by
    rw [frame?_set]
    split
    · next heq =>
      cases heq
      have hfg : g = f := Option.some.inj (hg.symm.trans hf)
      rw [hg, Option.map_some]
      exact ⟨_, rfl, rfl, rfl, fun hne ↦ absurd (hfg ▸ hpending) hne⟩
    · exact ⟨g, hg, .refl g⟩

/-- A frame that is found is found again later, after as many steps. -/
theorem Evolves.find?_walk (hab : a.Evolves b) {n n' : Nat} (hn : n ≤ n') {env : Env}
    {name : String} {f : Frame} (h : (a.walk n env).find? (·.name = name) = some f) :
    ∃ g, (b.walk n' env).find? (·.name = name) = some g ∧ f.Settles g := by
  induction n generalizing n' env with
  | zero => simp [walk] at h
  | succ n ih =>
    obtain ⟨k, rfl⟩ : ∃ k, n' = k + 1 := ⟨n' - 1, by omega⟩
    unfold walk at h
    split at h
    · simp at h
    · next first hfirst =>
      obtain ⟨i, hi, hframe⟩ := Option.bind_eq_some_iff.mp hfirst
      obtain ⟨first', hframe', hsettles⟩ := hab.frame hframe
      have hwalk : b.walk (k + 1) env = first' :: b.walk k first.parent := by
        simp only [walk, hi, Option.bind_some, hframe', hsettles.parent]
      rw [hwalk]
      by_cases hname : first.name = name
      · have hname' : first'.name = name := hsettles.name.trans hname
        have heq : first = f := by simpa [hname] using h
        rw [List.find?_cons_of_pos (by simpa using hname')]
        exact ⟨first', rfl, heq ▸ hsettles⟩
      · have hname' : ¬ first'.name = name := hsettles.name ▸ hname
        rw [List.find?_cons_of_neg (by simpa using hname)] at h
        rw [List.find?_cons_of_neg (by simpa using hname')]
        exact ih (by omega) h

/-- A name that has a value keeps it. -/
theorem Evolves.lookup (hab : a.Evolves b) {env : Env} {x : String} {v : Value}
    (h : a.lookup env x = .ok v) : b.lookup env x = .ok v := by
  obtain ⟨f, hf, hbinding⟩ := lookup_eq_ok.mp h
  obtain ⟨g, hg, hsettles⟩ := hab.find?_walk hab.size_le hf
  exact lookup_eq_ok.mpr ⟨g, hg, hsettles.binding_eq hbinding nofun⟩

/-- A type variable that stands for a type goes on standing for it. -/
theorem Evolves.lookupType? (hab : a.Evolves b) {env : Env} {x : String} {t : Ty}
    (h : a.lookupType? env x = some t) : b.lookupType? env x = some t := by
  obtain ⟨f, hf, hbinding⟩ := lookupType?_eq_some.mp h
  obtain ⟨g, hg, hsettles⟩ := hab.find?_walk hab.size_le hf
  exact lookupType?_eq_some.mpr ⟨g, hg, hsettles.binding_eq hbinding nofun⟩

end Arena

/-! ### Evaluation -/

open EvalM

/-- The arena of the machine grows. -/
def Machine.Grows (m m' : Machine) : Prop := m.arena.Grows m'.arena

instance : IsPreorder Machine Machine.Grows where
  refl m := .refl m.arena
  trans _ _ _ h h' := h.trans h'

theorem EvalM.grows_extend {f : Arena → Arena × Env} (h : ∀ a : Arena, a.Grows (f a).1) :
    Run.Keeps Machine.Grows (extend f) :=
  fun m ↦ h m.arena

theorem EvalM.grows_pay (amount : Nat) : Run.Keeps Machine.Grows (pay amount) := by
  intro m
  unfold pay
  split
  · exact Arena.Grows.refl _
  · exact Arena.Grows.refl _

theorem EvalM.grows_charge (env : Env) (c : Charge) :
    Run.Keeps Machine.Grows (charge env c) :=
  .bind (.read _) fun amount ↦ grows_pay amount

theorem EvalM.grows_primitive (env : Env) (op : String) (args : List String) :
    Run.Keeps Machine.Grows (primitive env op args) :=
  .bind (.read _) fun call ↦ .bind (grows_charge env call.price) fun _ ↦ .read _

theorem EvalM.arena_of_charge {env : Env} {c : Charge} {m n : Machine} {r : Unit}
    (h : charge env c m = (.ok r, n)) : n.arena = m.arena := by
  obtain ⟨amount, m', hresolve, hpay⟩ := Run.bind_eq_ok h
  obtain ⟨-, rfl⟩ := Run.read_eq_ok.mp hresolve
  unfold pay at hpay
  split at hpay
  · cases hpay
    rfl
  · cases hpay

theorem EvalM.primitive_of_ok {env : Env} {op : String} {args : List String} {m n : Machine}
    {v : Value} (h : primitive env op args m = (.ok v, n)) :
    ∃ call, m.arena.primitiveCall env op args = .ok call ∧
      call.op.run call.args call.ret = .ok v ∧ n.arena = m.arena := by
  obtain ⟨call, m₀, hcall, hrest⟩ := Run.bind_eq_ok h
  obtain ⟨hcall, rfl⟩ := Run.read_eq_ok.mp hcall
  obtain ⟨_, m₁, hcharge, hresult⟩ := Run.bind_eq_ok hrest
  obtain ⟨hrun, rfl⟩ := Run.ofExcept_eq_ok.mp hresult
  exact ⟨call, hcall, hrun, EvalM.arena_of_charge hcharge⟩

/-- The frame of a recursive binding is the first that is added, so filling it in changes no frame
that was there before. -/
theorem Expr.grows_fix {types : Datatypes} {enter : Enter} {body : Expr}
    (hbody : ∀ env, Run.Keeps Machine.Grows (body.evalWith types enter env)) (name : String)
    (ty : Ty) (env : Env) :
    Run.Keeps Machine.Grows ((Expr.fix name ty body).evalWith types enter env) := by
  intro m
  let pushed : Machine := ⟨(m.arena.bindPending env name).1, m.gas⟩
  have hpush : m.arena.Grows pushed.arena := Arena.grows_push m.arena _
  have hrun : pushed.arena.Grows _ := hbody (m.arena.bindPending env name).2 pushed
  rw [Expr.evalWith]
  have hextend : extend (·.bindPending env name) m =
      (.ok (m.arena.bindPending env name).2, pushed) := rfl
  rw [Run.bind_of_ok hextend]
  cases hres : body.evalWith types enter (m.arena.bindPending env name).2 pushed with
  | mk result m' =>
    rw [hres] at hrun
    cases result with
    | error e =>
      rw [Run.bind_of_error hres]
      exact hpush.trans hrun
    | ok v =>
      rw [Run.bind_of_ok hres]
      exact (hpush.trans hrun).set v (Nat.le_refl _)

/-- Entering a body only adds frames. -/
def Enter.Grows (enter : Enter) : Prop := ∀ f body, Run.Keeps Machine.Grows (enter f body)

section Expressions

variable {enter : Enter} (henter : enter.Grows)

include henter

theorem Enter.grows_apply (f arg : Value) : Run.Keeps Machine.Grows (enter.apply f arg) := by
  cases f with
  | closure id param ty body env => exact henter _ body
  | _ => exact .fail _

theorem Enter.grows_tyApply (f : Value) (t : Ty) :
    Run.Keeps Machine.Grows (enter.tyApply f t) := by
  cases f with
  | tyClosure id tvar body env => exact henter _ body
  | _ => exact .fail _

theorem Enter.grows_applyAll (env : Env) (f : Value) (xs : List String) :
    Run.Keeps Machine.Grows (enter.applyAll env f xs) := by
  induction xs generalizing f with
  | nil => exact .pure _
  | cons x xs ih =>
    exact .bind (.read _) fun arg ↦ .bind (grows_apply henter f arg) fun g ↦ ih g

theorem Enter.grows_tyApplyAll (env : Env) (f : Value) (ts : List Ty) :
    Run.Keeps Machine.Grows (enter.tyApplyAll env f ts) := by
  induction ts generalizing f with
  | nil => exact .pure _
  | cons t ts ih =>
    exact .bind (.read _) fun t' ↦ .bind (grows_tyApply henter f t') fun g ↦ ih g

theorem Expr.grows_evalWith (types : Datatypes) (e : Expr) (env : Env) :
    Run.Keeps Machine.Grows (e.evalWith types enter env) := by
  induction e generalizing env with
  | literal | var | fn | construct | tyFn =>
    rw [Expr.evalWith]
    exact .read _
  | letIn x declared rhs body ihrhs ihbody =>
    rw [Expr.evalWith]
    exact .bind (ihrhs env) fun v ↦
      .bind (grows_extend fun a ↦ a.grows_push _) fun inner ↦ ihbody inner
  | message entries =>
    rw [Expr.evalWith]
    exact .bind (.read _) fun es ↦ .pure _
  | app f args =>
    rw [Expr.evalWith]
    exact .bind (.read _) fun v ↦ Enter.grows_applyAll henter env v args
  | matching x clauses ih =>
    rw [Expr.evalWith]
    refine .bind (.read _) fun v ↦ ?_
    split
    · exact .fail _
    · next i binds hmatch =>
      obtain ⟨clause, hclause⟩ := exists_clause hmatch
      refine .bind (grows_extend fun a ↦ a.grows_bindAll env binds) fun inner ↦ ?_
      rw [evalClause_eq x hclause]
      exact ih clause (List.mem_of_getElem? hclause) inner
  | builtin op targs args =>
    rw [Expr.evalWith]
    exact grows_primitive env op args
  | tyApp f targs =>
    rw [Expr.evalWith]
    exact .bind (.read _) fun v ↦ Enter.grows_tyApplyAll henter env v targs
  | fix name ty body ih => exact Expr.grows_fix ih name ty env
  | gas c body ih =>
    rw [Expr.evalWith]
    exact .bind (grows_charge env c) fun _ ↦ ih env
  | located sp e ih =>
    rw [Expr.evalWith]
    intro m
    rw [Run.annotate_snd]
    exact ih env m

end Expressions

theorem grows_enter (s : Setting) (room : Nat) : (enter s room).Grows := by
  induction room with
  | zero => exact fun _ _ ↦ .fail _
  | succ room ih =>
    intro f body
    exact .bind (grows_extend fun a ↦ a.grows_push f) fun env ↦
      Expr.grows_evalWith ih s.datatypes body env

/-- Evaluation only adds frames. -/
theorem grows_eval (s : Setting) (room : Nat) (e : Expr) (env : Env) :
    Run.Keeps Machine.Grows (eval s room e env) :=
  Expr.grows_evalWith (grows_enter s room) s.datatypes e env

end MeteredContract
