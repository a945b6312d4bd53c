import MeteredContract.Proofs.Metering.Evaluation
import MeteredContract.Proofs.Termination.Expr

/-!
How often the equation of evaluation has to be unfolded. With all code in an arena and an
expression of at most `k` nodes, unfolding it `(limit - depth) * k + size` times gives evaluation,
whatever stands for the calls further down. The same number of unfoldings without a limit on the
depth gives the same, unless the limit was hit.
-/

set_option autoImplicit false
set_option relaxedAutoImplicit false

namespace MeteredContract

open EvalM

section Follows

variable {α β : Type} {cut : Cause → Prop} {d : Discipline} {n : Nat}

/-- From a sound arena of at least `n` frames, the first computation does what the second does,
unless the second ends in a fault with one of the given causes. -/
def Follows (cut : Cause → Prop) (d : Discipline) (n : Nat) (x y : EvalM α) : Prop :=
  ∀ m : Machine, m.arena.Sound d → n ≤ m.arena.size →
    x m = y m ∨ ∃ f, (y m).1 = .error f ∧ cut f.cause

namespace Follows

theorem refl (x : EvalM α) : Follows cut d n x x := fun _ _ _ ↦ .inl rfl

theorem bind {x y : EvalM α} {f g : α → EvalM β} {post : Nat → α → Prop}
    (hxy : Follows cut d n x y) (hy : Safe d n y post)
    (hfg : ∀ a k, n ≤ k → post k a → Follows cut d k (f a) (g a)) :
    Follows cut d n (x >>= f) (y >>= g) := by
  intro m hm hn
  obtain ⟨hsound, hle, hpost⟩ := hy m hm hn
  cases hrun : y m with
  | mk result t =>
    rw [hrun] at hsound hle hpost
    have hxm := hxy m hm hn
    rw [hrun] at hxm
    cases result with
    | error e =>
      rw [Run.bind_of_error hrun g]
      rcases hxm with hxm | ⟨f', hf', hcut⟩
      · rw [Run.bind_of_error hxm f]
        exact .inl rfl
      · cases hf'
        exact .inr ⟨e, rfl, hcut⟩
    | ok a =>
      rw [Run.bind_of_ok hrun g]
      rcases hxm with hxm | ⟨f', hf', -⟩
      · rw [Run.bind_of_ok hxm f]
        exact hfg a t.arena.size (Nat.le_trans hn hle) (hpost a rfl) t hsound (Nat.le_refl _)
      · cases hf'

theorem annotate {x y : EvalM α} {g : Fault → Fault} (hg : ∀ e, (g e).cause = e.cause)
    (hxy : Follows cut d n x y) : Follows cut d n (x.annotate g) (y.annotate g) := by
  intro m hm hn
  rcases hxy m hm hn with hrun | ⟨f, hf, hcut⟩
  · left
    simp only [Run.annotate, hrun]
  · refine .inr ⟨g f, ?_, by rw [hg]; exact hcut⟩
    cases hrun : y m with
    | mk result t =>
      rw [hrun] at hf
      cases hf
      simp only [Run.annotate, hrun]

end Follows

/-- The ways into a body follow each other where frame and body keep to the discipline. -/
def EntersAlike (cut : Cause → Prop) (d : Discipline) (enter enter' : Enter) : Prop :=
  ∀ (n : Nat) (f : Frame) (body : Expr), d.scope n f.parent →
    (∀ v, f.binding = .value v → v.Obeys d n) → d.code body →
    Follows cut d n (enter f body) (enter' f body)

variable {enter enter' : Enter} (halike : EntersAlike cut d enter enter') (hsafe : enter'.IsSafe d)

include halike

theorem EntersAlike.apply {f arg : Value} (hf : f.Obeys d n) (harg : arg.Obeys d n) :
    Follows cut d n (enter.apply f arg) (enter'.apply f arg) := by
  cases f with
  | closure id param ty body env =>
    obtain ⟨hbody, henv⟩ := (Value.each_closure ..).mp hf
    refine halike n _ body henv ?_ hbody
    rintro _ ⟨⟩
    exact harg
  | _ => exact .refl _

theorem EntersAlike.tyApply {f : Value} (hf : f.Obeys d n) (t : Ty) :
    Follows cut d n (enter.tyApply f t) (enter'.tyApply f t) := by
  cases f with
  | tyClosure id tvar body env =>
    obtain ⟨hbody, henv⟩ := (Value.each_tyClosure ..).mp hf
    exact halike n _ body henv nofun hbody
  | _ => exact .refl _

include hsafe

theorem EntersAlike.applyAll (env : Env) {f : Value} (hf : f.Obeys d n) (xs : List String) :
    Follows cut d n (enter.applyAll env f xs) (enter'.applyAll env f xs) := by
  induction xs generalizing f n with
  | nil => exact .refl _
  | cons x xs ih =>
    refine (Follows.refl _).bind (safe_lookup env x) fun arg k hk harg ↦ ?_
    refine (halike.apply (hf.mono hk) harg).bind (Enter.safe_apply hsafe (hf.mono hk) harg) ?_
    intro g k' _ hg
    exact ih hg

theorem EntersAlike.tyApplyAll (env : Env) {f : Value} (hf : f.Obeys d n) (ts : List Ty) :
    Follows cut d n (enter.tyApplyAll env f ts) (enter'.tyApplyAll env f ts) := by
  induction ts generalizing f n with
  | nil => exact .refl _
  | cons t ts ih =>
    have ht : Safe d n (inspect fun a ↦ .ok (a.resolveTy env t)) fun _ _ ↦ True :=
      .inspect fun _ _ _ _ _ ↦ trivial
    refine (Follows.refl _).bind ht fun t k hk _ ↦ ?_
    refine (halike.tyApply (hf.mono hk) t).bind (Enter.safe_tyApply hsafe (hf.mono hk) t) ?_
    intro g k' _ hg
    exact ih hg

end Follows

/-! ### One unfolding -/

theorem safe_evalAt {d : Discipline} {n : Nat} (s : Setting) (depth : Nat) {e : Expr}
    (he : d.code e) {env : Env} (henv : d.scope n env) : SafeValue d n (evalAt s depth e env) :=
  safe_eval s _ he henv

section Unfold

variable {cut : Cause → Prop} {d : Discipline} {s : Setting} {guard : Guard}

/-- A guard that lets pass what the limit lets pass, and else refuses for the same cause or leaves
it to the limit to refuse for one of the given causes. -/
def Guard.Relaxes (guard : Guard) (s : Setting) (cut : Cause → Prop) : Prop :=
  ∀ depth, guard depth = s.guard depth ∨ ∃ c, s.guard depth = .error c ∧ cut c

/-- The evaluator follows evaluation on everything below an expression at a depth. -/
def Evaluator.FollowsBelow (self : Evaluator) (s : Setting) (cut : Cause → Prop) (d : Discipline)
    (depth : Nat) (e : Expr) : Prop :=
  ∀ depth' e', Below s.depthLimit (depth', e') (depth, e) → d.code e' →
    ∀ n env, d.scope n env → Follows cut d n (self depth' e' env) (evalAt s depth' e' env)

variable (hguard : guard.Relaxes s cut) {self : Evaluator} {depth : Nat} {e : Expr}
  (hself : self.FollowsBelow s cut d depth e)

include hguard hself

theorem Evaluator.entersAlike :
    EntersAlike cut d (self.enter guard depth) ((evalAt s).enter s.guard depth) := by
  intro n f body hparent hvalue hbody
  have hpass : Follows cut d n (Run.ofExcept (guard depth)) (Run.ofExcept (s.guard depth)) := by
    intro m _ _
    rcases hguard depth with heq | ⟨c, hc, hcut⟩
    · rw [heq]
      exact .inl rfl
    · rw [hc]
      exact .inr ⟨.ofCause c, rfl, hcut⟩
  have hsafe : Safe d n (Run.ofExcept (s.guard depth)) fun _ _ ↦ s.guard depth = .ok () :=
    .ofExcept fun _ hok _ _ ↦ hok
  refine hpass.bind hsafe fun _ k hk hok ↦ ?_
  have hpush : Safe d k (extend (·.push f)) d.scope :=
    .push (d.scope_mono hk hparent) fun v hv ↦ (hvalue v hv).mono hk
  refine (Follows.refl _).bind hpush fun env k' _ henv ↦ ?_
  exact hself _ body (below_call hok e body) hbody k' env henv

/-- If an evaluator follows evaluation below an expression, one unfolding more follows it at the
expression. -/
theorem Evaluator.unfold_follows (he : d.code e) {n : Nat} {env : Env} (henv : d.scope n env) :
    Follows cut d n (self.unfold s.datatypes guard depth e env) (evalAt s depth e env) := by
  have hsafe : ((evalAt s).enter s.guard depth).IsSafe d := by
    rw [enter_evalAt]
    exact isSafe_enter d s _
  have halike := entersAlike hguard hself
  have hpart : ∀ part ∈ e.parts, ∀ {k env}, d.scope k env →
      Follows cut d k (self depth part env) (evalAt s depth part env) ∧
        SafeValue d k (evalAt s depth part env) := by
    intro part hmem k env henv
    have hcode := d.code_part hmem he
    exact ⟨hself _ part (below_part _ depth hmem) hcode k env henv, safe_evalAt s depth hcode henv⟩
  rw [← evalAt_unfold s]
  cases e with
  | letIn x declared rhs body =>
    obtain ⟨hrhs, hsafe⟩ := hpart rhs (by simp [Expr.parts]) henv
    refine hrhs.bind hsafe fun v k hk hv ↦ ?_
    refine (Follows.refl _).bind (safe_bind (d.scope_mono hk henv) x hv) fun inner k' _ hinner ↦ ?_
    exact (hpart body (by simp [Expr.parts]) hinner).1
  | app f args =>
    refine (Follows.refl _).bind (safe_lookup env f) fun v k _ hv ↦ ?_
    exact halike.applyAll hsafe env hv args
  | tyApp f targs =>
    refine (Follows.refl _).bind (safe_lookup env f) fun v k _ hv ↦ ?_
    exact halike.tyApplyAll hsafe env hv targs
  | matching x clauses =>
    refine (Follows.refl _).bind (safe_lookup env x) fun v k hk hv ↦ ?_
    cases hmatch : Pattern.firstMatch (clauses.map Prod.fst) v with
    | none => exact .refl _
    | some found =>
      obtain ⟨i, binds⟩ := found
      obtain ⟨clause, hclause⟩ := exists_clause hmatch
      have hbinds := Pattern.each_of_firstMatch hmatch hv
      simp only [hclause]
      refine (Follows.refl _).bind (safe_bindAll (d.scope_mono hk henv) hbinds) ?_
      intro inner k' _ hinner
      exact (hpart clause.2 (List.mem_map_of_mem (List.mem_of_getElem? hclause)) hinner).1
  | fix name ty body =>
    have hpush : Safe d n (extend (·.bindPending env name)) d.scope := by
      refine .push henv ?_
      intro v hv
      cases hv
    refine (Follows.refl _).bind hpush fun inner k _ hinner ↦ ?_
    obtain ⟨hbody, hsafe⟩ := hpart body (by simp [Expr.parts]) hinner
    exact hbody.bind hsafe fun v k' _ _ ↦ .refl _
  | gas c body =>
    refine (Follows.refl _).bind (safe_charge env c) fun _ k hk _ ↦ ?_
    exact (hpart body (by simp [Expr.parts]) (d.scope_mono hk henv)).1
  | located span e =>
    exact (hpart e (by simp [Expr.parts]) henv).1.annotate fun f ↦ f.withSpan_cause span
  | _ => exact .refl _

end Unfold

/-! ### The number of unfoldings -/

/-- Any scope is allowed, and code of at most `k` nodes. -/
def Discipline.sized (k : Nat) : Discipline where
  code e := e.size ≤ k
  scope _ _ := True
  code_part hpart h := Nat.le_of_lt (Nat.lt_of_lt_of_le (Expr.size_part_lt hpart) h)
  scope_mono _ h := h
  scope_top _ := trivial

/-- How often the equation of evaluation has to be unfolded for an expression at a depth, if there
is no code of more than `k` nodes. -/
def unfoldings (limit k depth : Nat) (e : Expr) : Nat := (limit - depth) * k + e.size

theorem unfoldings_lt {limit k depth depth' : Nat} {e e' : Expr}
    (h : Below limit (depth', e') (depth, e)) (hk : e'.size ≤ k) :
    unfoldings limit k depth' e' < unfoldings limit k depth e := by
  unfold unfoldings
  have hpos := e.size_pos
  rcases (Prod.lex_def ..).mp h with hlt | ⟨heq, hlt⟩
  · have hlt' : limit - depth' + 1 ≤ limit - depth := hlt
    calc (limit - depth') * k + e'.size
        ≤ (limit - depth' + 1) * k := by rw [Nat.succ_mul]; omega
      _ ≤ (limit - depth) * k := Nat.mul_le_mul_right k hlt'
      _ < (limit - depth) * k + e.size := by omega
  · have heq' : limit - depth' = limit - depth := heq
    have hlt' : e'.size < e.size := hlt
    rw [heq']
    omega

theorem Evaluator.iterate_follows {cut : Cause → Prop} {s : Setting} {guard : Guard}
    (hguard : guard.Relaxes s cut) (rest : Evaluator) {k : Nat} {r depth : Nat} {e : Expr}
    (hr : unfoldings s.depthLimit k depth e ≤ r) (he : e.size ≤ k) (n : Nat) (env : Env) :
    Follows cut (.sized k) n ((unfold s.datatypes guard)^[r] rest depth e env)
      (evalAt s depth e env) := by
  induction r generalizing depth e n env with
  | zero =>
    have hpos := e.size_pos
    unfold unfoldings at hr
    omega
  | succ r ih =>
    rw [Function.iterate_succ_apply']
    refine unfold_follows hguard ?_ he trivial
    intro depth' e' hbelow he' n env _
    have hlt := unfoldings_lt hbelow he'
    exact ih (by omega) he' n env

mutual

/-- Size of the largest code of a closure in the value. -/
def Value.codeSize : Value → Nat
  | .closure _ _ _ body _ => body.size
  | .tyClosure _ _ body _ => body.size
  | .data _ _ _ args => codeSizeAll args
  | .map ⟨_, _, es⟩ => codeSizeEntries es
  | .message es => codeSizeMessage es
  | .int _ => 0
  | .str _ => 0
  | .bnum _ => 0
  | .bystrx _ => 0
  | .bystr _ => 0

def Value.codeSizeAll : List Value → Nat
  | [] => 0
  | v :: vs => max v.codeSize (codeSizeAll vs)

def Value.codeSizeEntries : List (Value × Value) → Nat
  | [] => 0
  | (k, v) :: es => max (max k.codeSize v.codeSize) (codeSizeEntries es)

def Value.codeSizeMessage : List (EntryOf Value) → Nat
  | [] => 0
  | ⟨_, _, v⟩ :: es => max v.codeSize (codeSizeMessage es)

end

namespace Value

theorem codeSize_le_all {vs : List Value} {v : Value} (h : v ∈ vs) :
    v.codeSize ≤ codeSizeAll vs := by
  induction vs with
  | nil => simp at h
  | cons w vs ih =>
    rw [codeSizeAll]
    rcases List.mem_cons.mp h with rfl | h
    · exact Nat.le_max_left _ _
    · exact Nat.le_trans (ih h) (Nat.le_max_right _ _)

theorem codeSize_le_entries {es : List (Value × Value)} {e : Value × Value} (h : e ∈ es) :
    e.1.codeSize ≤ codeSizeEntries es ∧ e.2.codeSize ≤ codeSizeEntries es := by
  induction es with
  | nil => simp at h
  | cons e' es ih =>
    rw [codeSizeEntries]
    rcases List.mem_cons.mp h with rfl | h
    · omega
    · have := ih h
      omega

theorem codeSize_le_message {es : List MessageEntry} {e : MessageEntry} (h : e ∈ es) :
    e.value.codeSize ≤ codeSizeMessage es := by
  induction es with
  | nil => simp at h
  | cons e' es ih =>
    rw [codeSizeMessage]
    rcases List.mem_cons.mp h with rfl | h
    · exact Nat.le_max_left _ _
    · exact Nat.le_trans (ih h) (Nat.le_max_right _ _)

theorem each_size_le_codeSize (v : Value) : v.Each fun body _ ↦ body.size ≤ v.codeSize := by
  induction v with
  | closure id param ty body env =>
    rw [each_closure, codeSize]
  | tyClosure id tvar body env =>
    rw [each_tyClosure, codeSize]
  | data tyName constructor targs args ih =>
    rw [each_data, codeSize]
    exact fun v hv ↦ (ih v hv).mono fun _ _ h ↦ Nat.le_trans h (codeSize_le_all hv)
  | map m ih =>
    rw [each_map, codeSize]
    intro e he
    have hle := codeSize_le_entries he
    exact ⟨(ih e he).1.mono fun _ _ h ↦ Nat.le_trans h hle.1,
      (ih e he).2.mono fun _ _ h ↦ Nat.le_trans h hle.2⟩
  | message es ih =>
    rw [each_message, codeSize]
    exact fun e he ↦ (ih e he).mono fun _ _ h ↦ Nat.le_trans h (codeSize_le_message he)
  | _ => simp

end Value

/-- Size of the largest code of a closure that a frame of the arena binds. -/
def Arena.codeSize (a : Arena) : Nat :=
  Value.codeSizeAll (a.freeze.toList.filterMap fun f ↦
    match f.binding with
    | .value v => some v
    | _ => none)

theorem Arena.sound_sized {a : Arena} {k : Nat} (hk : a.codeSize ≤ k) : a.Sound (.sized k) := by
  refine ⟨fun _ ↦ trivial, fun {i f v} hf hv ↦ ?_⟩
  have hframe : f ∈ a.freeze.toList := by
    unfold frame? at hf
    rw [Array.mem_toList_iff, freeze, Array.mem_append]
    split at hf
    · exact .inl (Array.mem_of_getElem? hf)
    · exact .inr (Array.mem_of_getElem? hf)
  have hmem : v.codeSize ≤ a.codeSize :=
    Value.codeSize_le_all (List.mem_filterMap.mpr ⟨f, hframe, by simp only [hv]⟩)
  exact v.each_size_le_codeSize.mono fun _ _ h ↦
    ⟨Nat.le_trans h (Nat.le_trans hmem hk), trivial⟩

/-- The bound on the unfoldings for an expression at a depth, with the code that the arena holds. -/
def Arena.unfoldings (a : Arena) (limit depth : Nat) (e : Expr) : Nat :=
  MeteredContract.unfoldings limit (max a.codeSize e.size) depth e

/-- Unfolding often enough gives evaluation, in every arena and whatever stands for the calls
further down. -/
theorem iterate_unfold (s : Setting) (rest : Evaluator) (m : Machine) {r depth : Nat} {e : Expr}
    (hr : m.arena.unfoldings s.depthLimit depth e ≤ r) (env : Env) :
    (Evaluator.unfold s.datatypes s.guard)^[r] rest depth e env m = evalAt s depth e env m := by
  have hguard : s.guard.Relaxes s fun _ ↦ False := fun _ ↦ .inl rfl
  have hsound := Arena.sound_sized (Nat.le_max_left m.arena.codeSize e.size)
  have hfollows := Evaluator.iterate_follows hguard rest hr (Nat.le_max_right _ _) 0 env
  rcases hfollows m hsound (Nat.zero_le _) with heq | ⟨_, _, hfalse⟩
  · exact heq
  · exact hfalse.elim

/-- Without a limit, the same number of unfoldings gives the same, unless the limit was hit. -/
theorem iterate_unfold_none (s : Setting) (rest : Evaluator) (m : Machine) {r depth : Nat}
    {e : Expr} (hr : m.arena.unfoldings s.depthLimit depth e ≤ r) (env : Env) :
    (Evaluator.unfold s.datatypes .none)^[r] rest depth e env m = evalAt s depth e env m ∨
      ∃ f, (evalAt s depth e env m).1 = .error f ∧ f.cause = .callDepthExceeded s.depthLimit := by
  have hguard : Guard.none.Relaxes s (· = .callDepthExceeded s.depthLimit) := by
    intro depth
    unfold Setting.guard
    split
    · exact .inl rfl
    · exact .inr ⟨_, rfl, rfl⟩
  have hsound := Arena.sound_sized (Nat.le_max_left m.arena.codeSize e.size)
  exact Evaluator.iterate_follows hguard rest hr (Nat.le_max_right _ _) 0 env m hsound
    (Nat.zero_le _)

end MeteredContract
