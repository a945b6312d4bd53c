import MeteredContract.Proofs.Scope.Closures

/-!
Sound arenas. A `Discipline` says what the closures of an arena may hold: which code, and which
scopes. An arena is sound if all closures that its frames bind keep to the discipline, and if the
enclosing scope of each frame does. The operations on arenas keep them sound.

The discipline `Discipline.handles` asks that scopes lie in the arena. In an arena that is sound for
it, the chain of frames of an environment ends at the empty environment (`Arena.chain_complete`), so
looking up a name comes to an end.
-/

set_option autoImplicit false
set_option relaxedAutoImplicit false

namespace MeteredContract

/-- The expressions that an expression is made of. -/
def Expr.parts : Expr → List Expr
  | .letIn _ _ rhs body => [rhs, body]
  | .fn _ _ body => [body]
  | .matching _ clauses => clauses.map Prod.snd
  | .tyFn _ body => [body]
  | .fix _ _ body => [body]
  | .gas _ body => [body]
  | .located _ e => [e]
  | _ => []

/-- What is asked of the code and of the scope of a closure; the scope is judged by the number of
frames that there are. -/
structure Discipline where
  code : Expr → Prop
  scope : (frames : Nat) → Env → Prop
  code_part : ∀ {e part : Expr}, part ∈ e.parts → code e → code part
  scope_mono : ∀ {n n' : Nat} {env : Env}, n ≤ n' → scope n env → scope n' env
  scope_top : ∀ n, scope (n + 1) ⟨some n⟩

/-- All closures in the value keep to the discipline, in an arena of that many frames. -/
def Value.Obeys (d : Discipline) (frames : Nat) (v : Value) : Prop :=
  v.Each fun body env ↦ d.code body ∧ d.scope frames env

theorem Value.Obeys.mono {d : Discipline} {n n' : Nat} {v : Value} (h : v.Obeys d n)
    (hle : n ≤ n') : v.Obeys d n' :=
  Each.mono h fun _ _ ⟨hcode, hscope⟩ ↦ ⟨hcode, d.scope_mono hle hscope⟩

namespace Arena

/-! ### Frames -/

variable {a : Arena} {i : Nat} {f : Frame}

@[simp] theorem size_push (a : Arena) (f : Frame) : (a.push f).1.size = a.size + 1 := by
  simp [push, size]
  omega

theorem push_top (a : Arena) (f : Frame) : (a.push f).2 = ⟨some a.size⟩ := rfl

theorem frame?_push (a : Arena) (f : Frame) (i : Nat) :
    (a.push f).1.frame? i = if i = a.size then some f else a.frame? i := by
  by_cases hbase : i < a.base.size
  · have hne : i ≠ a.size := by
      unfold size
      omega
    simp [frame?, push, hbase, hne]
  · have hiff : i - a.base.size = a.scratch.size ↔ i = a.size := by
      unfold size
      omega
    simp [frame?, push, hbase, Array.getElem?_push, hiff]

@[simp] theorem size_set (a : Arena) (env : Env) (v : Value) : (a.set env v).size = a.size := by
  unfold set
  split
  · rfl
  · split <;> simp [size]

theorem frame?_set (a : Arena) (env : Env) (v : Value) (i : Nat) :
    (a.set env v).frame? i =
      if env.top = some i then (a.frame? i).map fun f ↦ { f with binding := .value v }
      else a.frame? i := by
  unfold set
  cases htop : env.top with
  | none => simp
  | some j =>
    simp only [Option.some.injEq]
    by_cases hj : j < a.base.size
    · by_cases hi : i < a.base.size
      · simp only [frame?, hj, hi, Array.size_modify, if_true, Array.getElem?_modify]
      · have hne : j ≠ i := by omega
        simp [frame?, hj, hi, hne]
    · by_cases hi : i < a.base.size
      · have hne : j ≠ i := by omega
        simp [frame?, hj, hi, hne]
      · have hiff : j - a.base.size = i - a.base.size ↔ j = i := by omega
        simp [frame?, hj, hi, Array.getElem?_modify, hiff]

@[simp] theorem size_ofFrozen_freeze (a : Arena) : (ofFrozen a.freeze).size = a.size := by
  simp [ofFrozen, freeze, size]

@[simp] theorem frame?_ofFrozen_freeze (a : Arena) (i : Nat) :
    (ofFrozen a.freeze).frame? i = a.frame? i := by
  have hall : (ofFrozen a.freeze).frame? i = (a.base ++ a.scratch)[i]? := by
    by_cases hlt : i < (a.base ++ a.scratch).size
    · simp only [ofFrozen, freeze, frame?, hlt, if_true]
    · simp only [ofFrozen, freeze, frame?, hlt, if_false]
      rw [Array.getElem?_eq_none (by simp), Array.getElem?_eq_none (by omega)]
  rw [hall, Array.getElem?_append]
  rfl

theorem lt_size_of_frame? (h : a.frame? i = some f) : i < a.size := by
  unfold frame? at h
  unfold size
  split at h
  · omega
  · have hlt := (Array.getElem?_eq_some_iff.mp h).1
    omega

/-! ### Soundness -/

/-- The frames of the arena keep to the discipline. -/
structure Sound (d : Discipline) (a : Arena) : Prop where
  parent : ∀ {i f}, a.frame? i = some f → d.scope i f.parent
  value : ∀ {i f v}, a.frame? i = some f → f.binding = .value v → v.Obeys d a.size

variable {d : Discipline}

theorem sound_empty (d : Discipline) : Sound d .empty where
  parent h := by simp [empty, frame?] at h
  value h := by simp [empty, frame?] at h

/-- A frame can be added if its scope and its value keep to the discipline. -/
theorem Sound.push (ha : a.Sound d) (hparent : d.scope a.size f.parent)
    (hvalue : ∀ v, f.binding = .value v → v.Obeys d a.size) : (a.push f).1.Sound d := by
  constructor
  · intro i g hg
    rw [frame?_push] at hg
    split at hg
    · next hi =>
      cases hg
      rw [hi]
      exact hparent
    · exact ha.parent hg
  · intro i g v hg hv
    rw [size_push]
    rw [frame?_push] at hg
    split at hg
    · cases hg
      exact (hvalue v hv).mono (Nat.le_succ _)
    · exact (ha.value hg hv).mono (Nat.le_succ _)

theorem Sound.set (ha : a.Sound d) (env : Env) {v : Value} (hv : v.Obeys d a.size) :
    (a.set env v).Sound d := by
  constructor
  · intro i g hg
    rw [frame?_set] at hg
    split at hg
    · obtain ⟨f, hf, rfl⟩ := Option.map_eq_some_iff.mp hg
      show d.scope i f.parent
      exact ha.parent hf
    · exact ha.parent hg
  · intro i g w hg hw
    rw [size_set]
    rw [frame?_set] at hg
    split at hg
    · obtain ⟨f, hf, rfl⟩ := Option.map_eq_some_iff.mp hg
      cases hw
      exact hv
    · exact ha.value hg hw

theorem Sound.freeze (ha : a.Sound d) : (ofFrozen a.freeze).Sound d := by
  constructor
  · intro i f hf
    rw [frame?_ofFrozen_freeze] at hf
    exact ha.parent hf
  · intro i f v hf hv
    rw [frame?_ofFrozen_freeze] at hf
    rw [size_ofFrozen_freeze]
    exact ha.value hf hv

theorem Sound.bindAll (ha : a.Sound d) {env : Env} (henv : d.scope a.size env)
    {bs : List (String × Value)} (hbs : ∀ b ∈ bs, b.2.Obeys d a.size) :
    (a.bindAll env bs).1.Sound d ∧ a.size ≤ (a.bindAll env bs).1.size ∧
      d.scope (a.bindAll env bs).1.size (a.bindAll env bs).2 := by
  induction bs generalizing a env with
  | nil => exact ⟨ha, Nat.le_refl _, henv⟩
  | cons b bs ih =>
    obtain ⟨hfirst, hrest⟩ := List.forall_mem_cons.mp hbs
    have hpush : (a.bind env b.1 b.2).1.Sound d := by
      refine ha.push henv ?_
      rintro _ ⟨⟩
      exact hfirst
    have hsize : (a.bind env b.1 b.2).1.size = a.size + 1 := size_push a _
    have htop : d.scope (a.bind env b.1 b.2).1.size (a.bind env b.1 b.2).2 := by
      rw [hsize]
      exact d.scope_top a.size
    obtain ⟨hsound, hle, hscope⟩ := ih hpush htop fun b hb ↦ (hrest b hb).mono (by omega)
    exact ⟨hsound, Nat.le_trans (by omega) hle, hscope⟩

/-- The innermost name of an environment is found first. -/
theorem find?_of_frame? (h : a.frame? i = some f) :
    a.find? ⟨some i⟩ f.name = some f := by
  obtain ⟨n, hn⟩ : ∃ n, a.size = n + 1 := by
    have hlt := lt_size_of_frame? h
    exact ⟨a.size - 1, by omega⟩
  have hchain : a.chain ⟨some i⟩ = f :: a.walk n f.parent := by
    rw [chain, hn, walk, Option.bind_some, h]
  rw [find?, hchain]
  exact List.find?_cons_of_pos (by simp)

theorem find?_push (a : Arena) (f : Frame) : (a.push f).1.find? (a.push f).2 f.name = some f :=
  find?_of_frame? (by rw [frame?_push, if_pos rfl])

/-- The name that was bound last has the value that it was bound to. -/
theorem lookup_bind (a : Arena) (env : Env) (x : String) (v : Value) :
    (a.bind env x v).1.lookup (a.bind env x v).2 x = .ok v :=
  lookup_eq_ok.mpr ⟨_, a.find?_push ⟨x, .value v, env⟩, rfl⟩

theorem frame?_of_mem_walk {n : Nat} {env : Env} (h : f ∈ a.walk n env) :
    ∃ i, a.frame? i = some f := by
  induction n generalizing env with
  | zero => simp [walk] at h
  | succ n ih =>
    unfold walk at h
    split at h
    · simp at h
    · next g hg =>
      rcases List.mem_cons.mp h with rfl | h
      · obtain ⟨i, -, hi⟩ := Option.bind_eq_some_iff.mp hg
        exact ⟨i, hi⟩
      · exact ih h

/-- The values that names are bound to in a sound arena keep to the discipline. -/
theorem Sound.lookup (ha : a.Sound d) (env : Env) :
    EachLookup (fun body env ↦ d.code body ∧ d.scope a.size env) a env := by
  intro x v hv
  obtain ⟨f, hfind, hbinding⟩ := lookup_eq_ok.mp hv
  obtain ⟨i, hi⟩ := frame?_of_mem_walk (List.mem_of_find?_eq_some hfind)
  exact ha.value hi hbinding

/-! ### Properties of bound values -/

/-- Every value that a frame binds satisfies `p`. -/
def Binds (p : Value → Prop) (a : Arena) : Prop :=
  ∀ i f v, a.frame? i = some f → f.binding = .value v → p v

variable {p : Value → Prop}

theorem binds_empty (p : Value → Prop) : Binds p .empty := by
  intro i f v hf
  simp [empty, frame?] at hf

theorem Binds.push (ha : a.Binds p) (hf : ∀ v, f.binding = .value v → p v) :
    (a.push f).1.Binds p := by
  intro i g v hg hv
  rw [frame?_push] at hg
  split at hg
  · cases hg
    exact hf v hv
  · exact ha i g v hg hv

theorem Binds.bind (ha : a.Binds p) (env : Env) (x : String) {v : Value} (hv : p v) :
    (a.bind env x v).1.Binds p := by
  refine ha.push ?_
  rintro _ ⟨⟩
  exact hv

theorem Binds.bindAll (ha : a.Binds p) (env : Env) {bs : List (String × Value)}
    (hbs : ∀ b ∈ bs, p b.2) : (a.bindAll env bs).1.Binds p := by
  induction bs generalizing a env with
  | nil => exact ha
  | cons b bs ih =>
    obtain ⟨hfirst, hrest⟩ := List.forall_mem_cons.mp hbs
    exact ih (ha.bind env b.1 hfirst) _ hrest

theorem Binds.set (ha : a.Binds p) (env : Env) {v : Value} (hv : p v) : (a.set env v).Binds p := by
  intro i g w hg hw
  rw [frame?_set] at hg
  split at hg
  · obtain ⟨f, -, rfl⟩ := Option.map_eq_some_iff.mp hg
    cases hw
    exact hv
  · exact ha i g w hg hw

theorem Binds.freeze (ha : a.Binds p) : (ofFrozen a.freeze).Binds p := by
  intro i f v hf
  rw [frame?_ofFrozen_freeze] at hf
  exact ha i f v hf

theorem Binds.avoiding (ha : a.Binds p) (ids : List ClosureId) : (a.avoiding ids).Binds p := ha

theorem Binds.lookup (ha : a.Binds p) {env : Env} {x : String} {v : Value}
    (hv : a.lookup env x = .ok v) : p v := by
  obtain ⟨f, hfind, hbinding⟩ := lookup_eq_ok.mp hv
  obtain ⟨i, hi⟩ := frame?_of_mem_walk (List.mem_of_find?_eq_some hfind)
  exact ha i f v hi hbinding

theorem Binds.lookupAll (ha : a.Binds p) {env : Env} {xs : List String} {vs : List Value}
    (hvs : a.lookupAll env xs = .ok vs) : ∀ v ∈ vs, p v := by
  intro v hv
  obtain ⟨x, -, hx⟩ := exists_lookup_of_mem hvs hv
  exact ha.lookup hx

/-! ### Chains of frames -/

/-- The frames of an environment up to the empty environment, innermost first. -/
inductive Chain (a : Arena) : Env → List Frame → Prop
  | done : Chain a .empty []
  | step {i : Nat} {f : Frame} {rest : List Frame} (hf : a.frame? i = some f)
    (h : Chain a f.parent rest) : Chain a ⟨some i⟩ (f :: rest)

end Arena

/-- The scope is an environment of the arena. -/
def Env.InRange (env : Env) (frames : Nat) : Prop := ∀ i, env.top = some i → i < frames

/-- Any code is allowed, and scopes lie in the arena. -/
def Discipline.handles : Discipline where
  code _ := True
  scope n env := env.InRange n
  code_part _ _ := trivial
  scope_mono hle h i hi := Nat.lt_of_lt_of_le (h i hi) hle
  scope_top n := by
    rintro _ ⟨⟩
    exact Nat.lt_succ_self n

namespace Arena

variable {a : Arena} {env : Env}

theorem frame?_of_lt_size {i : Nat} (h : i < a.size) : ∃ f, a.frame? i = some f := by
  unfold size at h
  unfold frame?
  split
  · next hlt => exact ⟨_, Array.getElem?_eq_getElem hlt⟩
  · exact ⟨_, Array.getElem?_eq_getElem (by omega)⟩

/-- Parents are older than their frames, so a walk of `n` steps from one of the first `n` frames
comes to the end of the chain. -/
theorem chain_walk (ha : a.Sound .handles) {n : Nat} (hn : n ≤ a.size) (henv : env.InRange n) :
    Chain a env (a.walk n env) := by
  induction n generalizing env with
  | zero =>
    obtain ⟨top⟩ := env
    cases top with
    | none => exact .done
    | some i => exact absurd (henv i rfl) (Nat.not_lt_zero i)
  | succ n ih =>
    obtain ⟨top⟩ := env
    cases top with
    | none => exact .done
    | some i =>
      have hi : i < n + 1 := henv i rfl
      obtain ⟨f, hf⟩ := frame?_of_lt_size (Nat.lt_of_lt_of_le hi hn)
      have hwalk : a.walk (n + 1) ⟨some i⟩ = f :: a.walk n f.parent := by
        simp [walk, hf]
      rw [hwalk]
      have hparent : f.parent.InRange i := ha.parent hf
      refine .step hf (ih (by omega) fun j hj ↦ ?_)
      have hlt := hparent j hj
      omega

theorem length_walk_le (a : Arena) (n : Nat) (env : Env) : (a.walk n env).length ≤ n := by
  induction n generalizing env with
  | zero => simp [walk]
  | succ n ih =>
    unfold walk
    split
    · simp
    · next f _ =>
      have := ih f.parent
      simp only [List.length_cons]
      omega

/-- The frames that a lookup goes through are all there are: they end at the empty environment. -/
theorem chain_complete (ha : a.Sound .handles) (henv : env.InRange a.size) :
    Chain a env (a.chain env) ∧ (a.chain env).length ≤ a.size :=
  ⟨chain_walk ha (Nat.le_refl _) henv, length_walk_le a a.size env⟩

/-- The arena was built by its operations, from environments that lie in it and values whose
closures do. Binding several names and keeping some of them are sequences of these. -/
inductive Built : Arena → Prop
  | empty : Built .empty
  | bind {a : Arena} {env : Env} {v : Value} (h : Built a) (henv : env.InRange a.size) (x : String)
    (hv : v.Each fun _ scope ↦ scope.InRange a.size) : Built (a.bind env x v).1
  | bindType {a : Arena} {env : Env} (h : Built a) (henv : env.InRange a.size) (tvar : String)
    (t : Ty) : Built (a.bindType env tvar t).1
  | bindPending {a : Arena} {env : Env} (h : Built a) (henv : env.InRange a.size) (x : String) :
    Built (a.bindPending env x).1
  | set {a : Arena} {v : Value} (h : Built a) (env : Env)
    (hv : v.Each fun _ scope ↦ scope.InRange a.size) : Built (a.set env v)
  | freeze {a : Arena} (h : Built a) : Built (.ofFrozen a.freeze)
  | avoiding {a : Arena} (h : Built a) (ids : List ClosureId) : Built (a.avoiding ids)

theorem Built.sound (h : Built a) : a.Sound .handles := by
  induction h with
  | empty => exact sound_empty _
  | bind _ henv x hv ih =>
    refine ih.push henv ?_
    rintro _ ⟨⟩
    exact hv.mono fun _ _ hscope ↦ ⟨trivial, hscope⟩
  | bindType _ henv _ _ ih => exact ih.push henv nofun
  | bindPending _ henv _ ih => exact ih.push henv nofun
  | set _ env hv ih => exact ih.set env (hv.mono fun _ _ hscope ↦ ⟨trivial, hscope⟩)
  | freeze _ ih => exact ih.freeze
  | avoiding _ ids ih => exact ⟨ih.parent, ih.value⟩

end Arena

end MeteredContract
