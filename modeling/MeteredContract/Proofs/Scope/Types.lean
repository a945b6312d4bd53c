import MeteredContract.Proofs.Primitive.Signature
import MeteredContract.Proofs.Scope.Lookup
import MeteredContract.Proofs.Ty.Substitution

/-!
Types in expressions, values and arenas. Type variables are looked up through the same frames as
names of values, so whether the types in the code of a closure can be resolved is a matter of the
frames of its scope. An arena is grounded on a set of frames if the frames in it lead to no others,
and the values in them carry concrete types and hold code whose type variables are all instantiated
(`Arena.Grounded`). New frames keep an arena grounded (`Arena.Grounded.push`), and so do values that
frames get later (`Arena.Grounded.set`).
-/

set_option autoImplicit false
set_option relaxedAutoImplicit false

namespace MeteredContract

/-! ### Code -/

mutual

/-- Every free type variable of a type that ends up in values is known or bound by a type function
around it. The names that terms bind hide the type variables of that name. Literals in messages need
no mention, since maps may not stand in messages. -/
def Expr.TypesKnown : Expr → (known : Set String) → Prop
  | .literal (.emptyMap k v), known => k.freeVars ⊆ known ∧ v.freeVars ⊆ known
  | .letIn x _ rhs body, known => rhs.TypesKnown known ∧ body.TypesKnown (known \ {x})
  | .fn param _ body, known => body.TypesKnown (known \ {param})
  | .construct _ targs _, known => ∀ t ∈ targs, t.freeVars ⊆ known
  | .matching _ clauses, known => clausesTypesKnown clauses known
  | .tyFn tvar body, known => body.TypesKnown (insert tvar known)
  | .tyApp _ targs, known => ∀ t ∈ targs, t.freeVars ⊆ known
  | .fix name _ body, known => body.TypesKnown (known \ {name})
  | .gas _ body, known => body.TypesKnown known
  | .located _ e, known => e.TypesKnown known
  | _, _ => True

def clausesTypesKnown : List (Pattern × Expr) → (known : Set String) → Prop
  | [], _ => True
  | (p, body) :: clauses, known =>
    body.TypesKnown (known \ {x | x ∈ p.names}) ∧ clausesTypesKnown clauses known

end

theorem clausesTypesKnown_iff {clauses : List (Pattern × Expr)} {known : Set String} :
    clausesTypesKnown clauses known ↔
      ∀ c ∈ clauses, c.2.TypesKnown (known \ {x | x ∈ c.1.names}) := by
  induction clauses with
  | nil => simp [clausesTypesKnown]
  | cons c clauses ih => rw [clausesTypesKnown, ih, List.forall_mem_cons]

theorem Expr.TypesKnown.mono {e : Expr} {known known' : Set String} (h : e.TypesKnown known)
    (hsub : known ⊆ known') : e.TypesKnown known' := by
  induction e generalizing known known' with
  | literal l =>
    cases l with
    | emptyMap k v => exact ⟨h.1.trans hsub, h.2.trans hsub⟩
    | _ => trivial
  | letIn x declared rhs body ihrhs ihbody =>
    exact ⟨ihrhs h.1 hsub, ihbody h.2 (Set.sdiff_subset_sdiff_left hsub)⟩
  | fn param ty body ih => exact ih h (Set.sdiff_subset_sdiff_left hsub)
  | construct name targs args => exact fun t ht ↦ (h t ht).trans hsub
  | matching x clauses ih =>
    rw [TypesKnown, clausesTypesKnown_iff] at h ⊢
    exact fun c hc ↦ ih c hc (h c hc) (Set.sdiff_subset_sdiff_left hsub)
  | tyFn tvar body ih => exact ih h (Set.insert_subset_insert hsub)
  | tyApp f targs => exact fun t ht ↦ (h t ht).trans hsub
  | fix name ty body ih => exact ih h (Set.sdiff_subset_sdiff_left hsub)
  | gas c body ih => exact ih h hsub
  | located span e ih => exact ih h hsub
  | _ => trivial

/-! ### Type variables -/

/-- The name of the frame, if it is a type variable that stands for a closed type. -/
def Frame.instantiates (f : Frame) : Set String :=
  {x | x = f.name ∧ ∃ t, f.binding = .type t ∧ t.Closed}

namespace Arena

variable {a b : Arena} {env : Env}

/-- The type variables that an environment instantiates with closed types. -/
def known (a : Arena) (env : Env) : Set String :=
  {x | ∃ t, a.lookupType? env x = some t ∧ t.Closed}

/-- What an environment instantiates once the frame is pushed: the frame may instantiate its name,
and hides what was instantiated under that name before. -/
def knownUnder (a : Arena) (f : Frame) : Set String :=
  f.instantiates ∪ (a.known f.parent \ {f.name})

theorem insert_subset_knownUnder {tvar : String} {t : Ty} (ht : t.Closed) (scope : Env) :
    insert tvar (a.known scope) ⊆ a.knownUnder ⟨tvar, .type t, scope⟩ := by
  rintro x (rfl | hx)
  · exact .inl ⟨rfl, t, rfl, ht⟩
  · by_cases heq : x = tvar
    · exact .inl ⟨heq, t, rfl, ht⟩
    · exact .inr ⟨hx, heq⟩

theorem Evolves.known_subset (hab : a.Evolves b) (env : Env) : a.known env ⊆ b.known env := by
  rintro x ⟨t, ht, hclosed⟩
  exact ⟨t, hab.lookupType? ht, hclosed⟩

theorem Evolves.knownUnder_subset (hab : a.Evolves b) (f : Frame) :
    a.knownUnder f ⊆ b.knownUnder f :=
  Set.union_subset_union_right _ (Set.sdiff_subset_sdiff_left (hab.known_subset f.parent))

theorem knownUnder_subset_push (a : Arena) (f : Frame) :
    a.knownUnder f ⊆ (a.push f).1.known (a.push f).2 := by
  rintro x (⟨rfl, t, hbinding, hclosed⟩ | ⟨⟨t, ht, hclosed⟩, hne⟩)
  · exact ⟨t, lookupType?_eq_some.mpr ⟨f, a.find?_push f, hbinding⟩, hclosed⟩
  · obtain ⟨e, he, hbinding⟩ := lookupType?_eq_some.mp ht
    obtain ⟨g, hg, hsettles⟩ := exists_find?_push (Ne.symm hne) he
    exact ⟨t, lookupType?_eq_some.mpr ⟨g, hg, hsettles.binding_eq hbinding nofun⟩, hclosed⟩

theorem closed_resolveTy {t : Ty} (h : t.freeVars ⊆ a.known env) : (a.resolveTy env t).Closed := by
  rw [resolveTy_eq]
  exact Ty.closed_resolve h

theorem concrete_runtimeTy {t : Ty} (h : t.freeVars ⊆ a.known env) :
    (a.runtimeTy env t).Concrete :=
  (closed_resolveTy h).concrete_erase

end Arena

/-! ### Values -/

/-- The types that the value itself carries are concrete. -/
def Value.TypesConcrete : Value → Prop
  | .data _ _ targs _ => ∀ t ∈ targs, t.Concrete
  | .map m => m.keyTy.Concrete ∧ m.valTy.Concrete
  | .message es => ∀ e ∈ es, e.ty.Concrete
  | _ => True

/-- If the value is a closure, its scope and the variable that it binds let all types in its code be
resolved. -/
def Value.CodeKnown (a : Arena) : Value → Prop
  | .closure _ param _ body scope => body.TypesKnown (a.known scope \ {param})
  | .tyClosure _ tvar body scope => body.TypesKnown (insert tvar (a.known scope))
  | _ => True

/-- The innermost frame of the environment is in the set. -/
def Env.Within (env : Env) (frames : Set Nat) : Prop := ∀ i, env.top = some i → i ∈ frames

def Value.ScopeWithin (frames : Set Nat) : Value → Prop
  | .closure _ _ _ _ scope => scope.Within frames
  | .tyClosure _ _ _ scope => scope.Within frames
  | _ => True

namespace Arena

/-- The value itself, without its parts, is grounded on the frames. -/
structure Grounds (a : Arena) (frames : Set Nat) (w : Value) : Prop where
  types : w.TypesConcrete
  code : w.CodeKnown a
  scope : w.ScopeWithin frames

/-- The value and all its parts are grounded. -/
def GroundsAll (a : Arena) (frames : Set Nat) (v : Value) : Prop := v.All (a.Grounds frames)

/-- The frames in the set lead to no others and bind grounded values. Frames that are still to come
count as members of the set. -/
structure Grounded (frames : Set Nat) (a : Arena) : Prop where
  fresh : ∀ {i}, a.size ≤ i → i ∈ frames
  parent : ∀ {i f}, i ∈ frames → a.frame? i = some f → f.parent.Within frames
  value : ∀ {i f v}, i ∈ frames → a.frame? i = some f → f.binding = .value v →
    a.GroundsAll frames v

variable {a b : Arena} {frames : Set Nat} {env : Env}

theorem Grounds.evolves {w : Value} (h : a.Grounds frames w) (hab : a.Evolves b) :
    b.Grounds frames w where
  types := h.types
  code := by
    have hcode := h.code
    cases w with
    | closure id param ty body scope =>
      exact Expr.TypesKnown.mono hcode (Set.sdiff_subset_sdiff_left (hab.known_subset scope))
    | tyClosure id tvar body scope =>
      exact Expr.TypesKnown.mono hcode (Set.insert_subset_insert (hab.known_subset scope))
    | _ => trivial
  scope := h.scope

theorem GroundsAll.evolves {v : Value} (h : a.GroundsAll frames v) (hab : a.Evolves b) :
    b.GroundsAll frames v :=
  fun w hw ↦ (h w hw).evolves hab

/-! ### Frames -/

theorem Grounded.within_push (ha : a.Grounded frames) (f : Frame) :
    (a.push f).2.Within frames := by
  rintro _ ⟨⟩
  exact ha.fresh (Nat.le_refl _)

theorem Grounded.push (ha : a.Grounded frames) {f : Frame} (hparent : f.parent.Within frames)
    (hvalue : ∀ v, f.binding = .value v → a.GroundsAll frames v) :
    (a.push f).1.Grounded frames where
  fresh hi := by
    rw [size_push] at hi
    exact ha.fresh (by omega)
  parent hi hg := by
    rw [frame?_push] at hg
    split at hg
    · cases hg
      exact hparent
    · exact ha.parent hi hg
  value hi hg hv := by
    rw [frame?_push] at hg
    split at hg
    · cases hg
      exact (hvalue _ hv).evolves (a.grows_push f).evolves
    · exact (ha.value hi hg hv).evolves (a.grows_push f).evolves

/-- A frame that is pending may get a grounded value. -/
theorem Grounded.set (ha : a.Grounded frames) {i : Nat} {f : Frame} (hf : a.frame? i = some f)
    (hpending : f.binding = .pending) {v : Value} (hv : a.GroundsAll frames v) :
    (a.set ⟨some i⟩ v).Grounded frames where
  fresh hi := by
    rw [size_set] at hi
    exact ha.fresh hi
  parent {j g} hj hg := by
    rw [frame?_set] at hg
    split at hg
    · obtain ⟨f', hf', rfl⟩ := Option.map_eq_some_iff.mp hg
      show f'.parent.Within frames
      exact ha.parent hj hf'
    · exact ha.parent hj hg
  value hi hg hw := by
    rw [frame?_set] at hg
    split at hg
    · obtain ⟨f', hf', rfl⟩ := Option.map_eq_some_iff.mp hg
      cases hw
      exact hv.evolves (evolves_set hf hpending v)
    · exact (ha.value hi hg hw).evolves (evolves_set hf hpending v)

theorem Grounded.mem_of_mem_walk (ha : a.Grounded frames) (henv : env.Within frames) {n : Nat}
    {f : Frame} (h : f ∈ a.walk n env) : ∃ i ∈ frames, a.frame? i = some f := by
  induction n generalizing env with
  | zero => simp [walk] at h
  | succ n ih =>
    unfold walk at h
    split at h
    · simp at h
    · next g hg =>
      obtain ⟨i, htop, hi⟩ := Option.bind_eq_some_iff.mp hg
      rcases List.mem_cons.mp h with rfl | h
      · exact ⟨i, henv i htop, hi⟩
      · exact ih (ha.parent (henv i htop) hi) h

theorem Grounded.lookup (ha : a.Grounded frames) (henv : env.Within frames) {x : String}
    {v : Value} (h : a.lookup env x = .ok v) : a.GroundsAll frames v := by
  obtain ⟨f, hf, hbinding⟩ := lookup_eq_ok.mp h
  obtain ⟨i, hi, hframe⟩ := ha.mem_of_mem_walk henv (List.mem_of_find?_eq_some hf)
  exact ha.value hi hframe hbinding

theorem Grounded.lookupAll (ha : a.Grounded frames) (henv : env.Within frames) {xs : List String}
    {vs : List Value} (h : a.lookupAll env xs = .ok vs) : ∀ v ∈ vs, a.GroundsAll frames v := by
  intro v hv
  obtain ⟨x, -, hx⟩ := exists_lookup_of_mem h hv
  exact ha.lookup henv hx

/-- Bindings hide the type variables of their names and no others. -/
theorem Grounded.bindAll (ha : a.Grounded frames) (henv : env.Within frames)
    {bs : List (String × Value)} (hbs : ∀ b ∈ bs, a.GroundsAll frames b.2) :
    (a.bindAll env bs).1.Grounded frames ∧ (a.bindAll env bs).2.Within frames ∧
      a.known env \ {x | x ∈ bs.map Prod.fst} ⊆
        (a.bindAll env bs).1.known (a.bindAll env bs).2 := by
  induction bs generalizing a env with
  | nil => exact ⟨ha, henv, Set.sdiff_subset⟩
  | cons b bs ih =>
    obtain ⟨hfirst, hrest⟩ := List.forall_mem_cons.mp hbs
    let f : Frame := ⟨b.1, .value b.2, env⟩
    have hpush : (a.push f).1.Grounded frames := by
      refine ha.push henv ?_
      rintro _ ⟨⟩
      exact hfirst
    obtain ⟨hgrounded, hwithin, hknown⟩ := ih hpush (ha.within_push f)
      fun b hb ↦ (hrest b hb).evolves (a.grows_push f).evolves
    refine ⟨hgrounded, hwithin, fun x hx ↦ hknown ⟨?_, ?_⟩⟩
    · have hne : x ≠ b.1 := fun heq ↦ hx.2 (heq ▸ List.mem_cons_self)
      exact a.knownUnder_subset_push f (.inr ⟨hx.1, hne⟩)
    · exact fun hmem ↦ hx.2 (List.mem_cons_of_mem _ hmem)

end Arena

end MeteredContract
