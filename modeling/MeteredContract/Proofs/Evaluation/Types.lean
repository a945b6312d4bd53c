import MeteredContract.Proofs.Scope.Types

/-!
Types at run time. Types in code are resolved where a value is made of them, through the frames that
there are at that time, and lose what address types ask. `EvalM.Grounding` carries this through an
evaluation: from a grounded arena it leads to a grounded arena, and to a value that is grounded
there, code of closures included (`Expr.grounding_evalWith`). So no value that comes of an
evaluation carries an address type or a type variable (`runtime_types_concrete`).
-/

set_option autoImplicit false
set_option relaxedAutoImplicit false

namespace MeteredContract

/-! ### Values made of values -/

theorem Value.TypesConcrete.typeOf? {v : Value} {t : Ty} (hv : v.TypesConcrete)
    (h : v.typeOf? = some t) : t.Concrete := by
  cases v with
  | bystrx b =>
    rw [Value.typeOf?] at h
    split at h
    · cases h
      exact Ty.concrete_prim _
    · cases h
  | data n c targs args =>
    cases h
    exact Ty.concrete_data.mpr hv
  | map m =>
    cases h
    exact Ty.concrete_map.mpr hv
  | closure | tyClosure => cases h
  | int | str | bnum | bystr | message =>
    cases h
    exact Ty.concrete_prim _

namespace Primitive

/-- Signatures make the type of the result of the types of the arguments. -/
theorem Takes.concrete_ret {p : Primitive} {args : List Value} {ret : Ty} (h : p.Takes args ret)
    (hargs : ∀ v ∈ args, v.TypesConcrete) : ret.Concrete := by
  cases h with
  | put | remove =>
    have hmap : Value.TypesConcrete (.map _) := hargs _ List.mem_cons_self
    exact hmap.typeOf? rfl
  | @get m k hk =>
    have hmap : Value.TypesConcrete (.map m) := hargs _ List.mem_cons_self
    exact Ty.concrete_data.mpr (List.forall_mem_singleton.mpr hmap.2)
  | convertInt t | convertStr t =>
    exact Ty.concrete_data.mpr (List.forall_mem_singleton.mpr (Ty.concrete_prim _))
  | eq | lt | blt | contains => exact Ty.concrete_data.mpr (List.forall_mem_nil _)
  | _ => exact Ty.concrete_prim _

end Primitive

namespace Arena

variable {a : Arena} {frames : Set Nat} {env : Env}

theorem groundsAll_data {tyName constructor : String} {targs : List Ty} {args : List Value}
    (htargs : ∀ t ∈ targs, t.Concrete) (hargs : ∀ v ∈ args, a.GroundsAll frames v) :
    a.GroundsAll frames (.data tyName constructor targs args) :=
  Value.all_data ⟨htargs, trivial, trivial⟩ hargs

/-- The types that a value carries are those of its type, if it is not a message. -/
theorem grounds_of_typeOf? {v : Value} {t : Ty} (h : v.typeOf? = some t) (ht : t.Concrete)
    (hne : ∀ es, v ≠ .message es) : a.Grounds frames v := by
  cases v with
  | data n c targs args =>
    cases h
    exact ⟨Ty.concrete_data.mp ht, trivial, trivial⟩
  | map m =>
    cases h
    exact ⟨Ty.concrete_map.mp ht, trivial, trivial⟩
  | message es => exact absurd rfl (hne es)
  | closure | tyClosure => cases h
  | _ => exact ⟨trivial, trivial, trivial⟩

theorem groundsAll_of_ofLiteral? {l : Literal} (hl : ∀ k v, l ≠ .emptyMap k v) {v : Value}
    (h : Value.ofLiteral? l = some v) : a.GroundsAll frames v := by
  cases l with
  | int t n =>
    obtain ⟨i, -, rfl⟩ := Option.map_eq_some_iff.mp h
    rintro _ ⟨⟩
    exact ⟨trivial, trivial, trivial⟩
  | emptyMap k v => exact absurd rfl (hl k v)
  | _ =>
    cases h
    rintro _ ⟨⟩
    exact ⟨trivial, trivial, trivial⟩

/-- The types that the result carries are those of its announced type, and its parts come from the
arguments. -/
theorem groundsAll_of_run {op : Primitive} {args : List Value} {ret : Ty} {v : Value}
    (htakes : op.Takes args ret) (hargs : ∀ w ∈ args, a.GroundsAll frames w)
    (h : op.run args ret = .ok v) : a.GroundsAll frames v := by
  have hagrees := Primitive.agrees_run htakes
  rw [h] at hagrees
  have hself : a.Grounds frames v := grounds_of_typeOf? hagrees.returns_of_ok.typeOf?
    (htakes.concrete_ret fun w hw ↦ (hargs w hw).self.types) (Primitive.ne_message_of_run h)
  exact Primitive.all_of_run hself (fun _ ↦ ⟨trivial, trivial, trivial⟩) hargs h

/-! ### Atoms -/

theorem groundsAll_of_literal {l : Literal} (hl : (Expr.literal l).TypesKnown (a.known env))
    {v : Value} (h : a.literal env l = .ok v) : a.GroundsAll frames v := by
  unfold Arena.literal at h
  split at h
  · cases h
    obtain ⟨hkey, hval⟩ := hl
    exact Value.all_map ⟨⟨concrete_runtimeTy hkey, concrete_runtimeTy hval⟩, trivial, trivial⟩
      (List.forall_mem_nil _)
  · next hne =>
    split at h
    · next hv =>
      cases h
      exact groundsAll_of_ofLiteral? hne hv
    · cases h

theorem groundsAll_of_construct (ha : a.Grounded frames) (henv : env.Within frames)
    {types : Datatypes} {name : String} {targs : List Ty} {args : List String}
    (htargs : ∀ t ∈ targs, t.freeVars ⊆ a.known env) {v : Value}
    (h : a.construct env types name targs args = .ok v) : a.GroundsAll frames v := by
  obtain ⟨tyName, vs, hvs, rfl⟩ := exists_of_construct h
  refine groundsAll_data (fun t ht ↦ ?_) (ha.lookupAll henv hvs)
  obtain ⟨u, hu, rfl⟩ := List.mem_map.mp ht
  exact concrete_runtimeTy (htargs u hu)

/-- A literal in a message is not a map, so no type in it has to be resolved. -/
theorem groundsAll_of_payload (ha : a.Grounded frames) (henv : env.Within frames) {p : Payload}
    {v : Value} (h : a.payload env p = .ok v) (hsend : v.isSendable = true) :
    a.GroundsAll frames v := by
  cases p with
  | var x => exact ha.lookup henv h
  | lit l =>
    refine groundsAll_of_literal ?_ h
    cases l with
    | emptyMap k t =>
      cases h
      cases hsend
    | _ => trivial

theorem groundsAll_of_messageEntries (ha : a.Grounded frames) (henv : env.Within frames)
    {entries : List (String × Payload)} {es : List MessageEntry}
    (h : a.messageEntries env entries = .ok es) : a.GroundsAll frames (.message es) := by
  have hentries : ∀ e ∈ es, e.ty.Concrete ∧ a.GroundsAll frames e.value := by
    intro e he
    obtain ⟨p, -, hv, htype, hsend⟩ := exists_payload_of_mem h he
    have hground := groundsAll_of_payload ha henv hv hsend
    exact ⟨hground.self.types.typeOf? htype, hground⟩
  intro w hw
  cases hw with
  | self => exact ⟨fun e he ↦ (hentries e he).1, trivial, trivial⟩
  | entry he hw => exact (hentries _ he).2 w hw

end Arena

/-! ### Evaluation -/

namespace EvalM

variable {α β : Type} {frames : Set Nat} {a : Arena} {env : Env}

/-- From a grounded arena that has grown out of `a`, success leads to a grounded arena that has
grown further, and its result satisfies `post` there. -/
def Grounding (frames : Set Nat) (a : Arena) (x : EvalM α) (post : Arena → α → Prop) : Prop :=
  ∀ m m' r, a.Grows m.arena → m.arena.Grounded frames → x m = (.ok r, m') →
    m.arena.Grows m'.arena ∧ m'.arena.Grounded frames ∧ post m'.arena r

namespace Grounding

variable {post : Arena → α → Prop} {post' : Arena → β → Prop}

theorem pure {r : α} (h : ∀ b, a.Grows b → post b r) : Grounding frames a (Pure.pure r) post := by
  rintro m _ _ hab hm ⟨⟩
  exact ⟨.refl _, hm, h _ hab⟩

theorem fail (c : Cause) : Grounding frames a (Run.fail c) post := by
  rintro m m' r - - h
  cases h

theorem bind {x : EvalM α} {f : α → EvalM β} (hx : Grounding frames a x post)
    (hf : ∀ r b, a.Grows b → post b r → Grounding frames b (f r) post') :
    Grounding frames a (x >>= f) post' := by
  intro m m' r hab hm h
  obtain ⟨r₁, m₁, hfirst, hsecond⟩ := Run.bind_eq_ok h
  obtain ⟨hgrows, hm₁, hpost⟩ := hx m m₁ r₁ hab hm hfirst
  have hrest := hf r₁ m₁.arena (hab.trans hgrows) hpost
  obtain ⟨hgrows', hm', hpost'⟩ := hrest m₁ m' r (.refl _) hm₁ hsecond
  exact ⟨hgrows.trans hgrows', hm', hpost'⟩

theorem annotate {x : EvalM α} (hx : Grounding frames a x post) (g : Fault → Fault) :
    Grounding frames a (x.annotate g) post :=
  fun m m' r hab hm h ↦ hx m m' r hab hm (Run.annotate_eq_ok.mp h)

theorem inspect {f : Arena → Except Cause α}
    (h : ∀ b r, a.Grows b → b.Grounded frames → f b = .ok r → post b r) :
    Grounding frames a (EvalM.inspect f) post := by
  intro m m' r hab hm hrun
  obtain ⟨hf, rfl⟩ := Run.read_eq_ok.mp hrun
  exact ⟨.refl _, hm, h _ r hab hm hf⟩

theorem extend {f : Arena → Arena × Env} {post : Arena → Env → Prop}
    (h : ∀ b, a.Grows b → b.Grounded frames →
      b.Grows (f b).1 ∧ (f b).1.Grounded frames ∧ post (f b).1 (f b).2) :
    Grounding frames a (EvalM.extend f) post := by
  rintro m _ _ hab hm ⟨⟩
  exact h m.arena hab hm

end Grounding

/-- The result is grounded. -/
abbrev GroundingValue (frames : Set Nat) (a : Arena) (x : EvalM Value) : Prop :=
  Grounding frames a x fun b v ↦ b.GroundsAll frames v

theorem grounding_lookup (henv : env.Within frames) (x : String) :
    GroundingValue frames a (lookup env x) :=
  .inspect fun _ _ _ hb h ↦ hb.lookup henv h

theorem grounding_push {f : Frame} (hparent : f.parent.Within frames)
    (hvalue : ∀ v, f.binding = .value v → a.GroundsAll frames v) :
    Grounding frames a (extend (·.push f)) fun b inner ↦
      inner.Within frames ∧ a.knownUnder f ⊆ b.known inner := by
  refine .extend fun b hab hb ↦ ⟨b.grows_push f, ?_, hb.within_push f, ?_⟩
  · exact hb.push hparent fun v hv ↦ (hvalue v hv).evolves hab.evolves
  · exact (hab.evolves.knownUnder_subset f).trans (b.knownUnder_subset_push f)

theorem grounding_bindAll (henv : env.Within frames) {bs : List (String × Value)}
    (hbs : ∀ b ∈ bs, a.GroundsAll frames b.2) :
    Grounding frames a (bindAll env bs) fun b inner ↦
      inner.Within frames ∧ a.known env \ {x | x ∈ bs.map Prod.fst} ⊆ b.known inner := by
  refine .extend fun b hab hb ↦ ⟨b.grows_bindAll env bs, ?_⟩
  obtain ⟨hgrounded, hwithin, hknown⟩ :=
    hb.bindAll henv fun e he ↦ (hbs e he).evolves hab.evolves
  exact ⟨hgrounded, hwithin,
    (Set.sdiff_subset_sdiff_left (hab.evolves.known_subset env)).trans hknown⟩

theorem grounding_charge (env : Env) (c : Charge) :
    Grounding frames a (charge env c) fun _ _ ↦ True := by
  intro m m' r _ hm h
  rw [arena_of_charge h]
  exact ⟨.refl _, hm, trivial⟩

theorem grounding_primitive (henv : env.Within frames) (op : String) (args : List String) :
    GroundingValue frames a (primitive env op args) := by
  intro m m' v _ hm h
  obtain ⟨call, hcall, hrun, harena⟩ := primitive_of_ok h
  obtain ⟨hargs, -, htakes⟩ := Arena.takes_of_primitiveCall hcall
  rw [harena]
  exact ⟨.refl _, hm, Arena.groundsAll_of_run htakes (hm.lookupAll henv hargs) hrun⟩

end EvalM

open EvalM

/-- Bodies are entered with a frame that makes all types in them known. -/
def Enter.IsGrounding (enter : Enter) (frames : Set Nat) : Prop :=
  ∀ (a : Arena) (f : Frame) (body : Expr), f.parent.Within frames →
    (∀ v, f.binding = .value v → a.GroundsAll frames v) → body.TypesKnown (a.knownUnder f) →
    GroundingValue frames a (enter f body)

section Expressions

variable {frames : Set Nat} {a : Arena} {env : Env} {enter : Enter}
  (henter : enter.IsGrounding frames)

include henter

theorem Enter.grounding_apply {f arg : Value} (hf : a.GroundsAll frames f)
    (harg : a.GroundsAll frames arg) : GroundingValue frames a (enter.apply f arg) := by
  cases f with
  | closure id param ty body scope =>
    have hcode : body.TypesKnown (a.known scope \ {param}) := hf.self.code
    refine henter a _ body hf.self.scope ?_ (hcode.mono Set.subset_union_right)
    rintro _ ⟨⟩
    exact harg
  | _ => exact .fail _

theorem Enter.grounding_tyApply {f : Value} (hf : a.GroundsAll frames f) {t : Ty} (ht : t.Closed) :
    GroundingValue frames a (enter.tyApply f t) := by
  cases f with
  | tyClosure id tvar body scope =>
    have hcode : body.TypesKnown (insert tvar (a.known scope)) := hf.self.code
    exact henter a _ body hf.self.scope nofun (hcode.mono (Arena.insert_subset_knownUnder ht scope))
  | _ => exact .fail _

theorem Enter.grounding_applyAll (henv : env.Within frames) {f : Value}
    (hf : a.GroundsAll frames f) (xs : List String) :
    GroundingValue frames a (enter.applyAll env f xs) := by
  induction xs generalizing f a with
  | nil => exact .pure fun b hab ↦ hf.evolves hab.evolves
  | cons x xs ih =>
    refine (grounding_lookup henv x).bind fun arg b hab harg ↦ ?_
    refine (grounding_apply henter (hf.evolves hab.evolves) harg).bind fun g c _ hg ↦ ?_
    exact ih hg

theorem Enter.grounding_tyApplyAll {f : Value} (hf : a.GroundsAll frames f) {ts : List Ty}
    (hts : ∀ t ∈ ts, t.freeVars ⊆ a.known env) :
    GroundingValue frames a (enter.tyApplyAll env f ts) := by
  induction ts generalizing f a with
  | nil => exact .pure fun b hab ↦ hf.evolves hab.evolves
  | cons t ts ih =>
    obtain ⟨ht, hrest⟩ := List.forall_mem_cons.mp hts
    have hclosed : Grounding frames a (inspect fun b ↦ .ok (b.resolveTy env t)) fun _ u ↦
        u.Closed := by
      refine .inspect ?_
      rintro b _ hab - ⟨⟩
      exact Arena.closed_resolveTy (ht.trans (hab.evolves.known_subset env))
    refine hclosed.bind fun u b hab hu ↦ ?_
    refine (grounding_tyApply henter (hf.evolves hab.evolves) hu).bind fun g c hbc hg ↦ ?_
    exact ih hg fun t ht ↦ (hrest t ht).trans ((hab.trans hbc).evolves.known_subset env)

omit henter in
/-- A recursive binding is pending while its body is evaluated, so the code in the body is judged
without it. -/
theorem Expr.grounding_fix {types : Datatypes} {body : Expr} {name : String}
    (hbody : ∀ {b inner}, body.TypesKnown (b.known inner) → inner.Within frames →
      GroundingValue frames b (body.evalWith types enter inner))
    (hknown : body.TypesKnown (a.known env \ {name})) (henv : env.Within frames) (ty : Ty) :
    GroundingValue frames a ((Expr.fix name ty body).evalWith types enter env) := by
  intro m m' v hab hm h
  let f : Frame := ⟨name, .pending, env⟩
  have hpush : extend (·.bindPending env name) m =
      (.ok (m.arena.push f).2, ⟨(m.arena.push f).1, m.gas⟩) := rfl
  rw [Expr.evalWith, Run.bind_of_ok hpush] at h
  obtain ⟨_, t, hrun, h⟩ := Run.bind_eq_ok h
  cases h
  have hsub : a.known env \ {name} ⊆ (m.arena.push f).1.known (m.arena.push f).2 :=
    (Set.subset_union_right.trans (hab.evolves.knownUnder_subset f)).trans
      (m.arena.knownUnder_subset_push f)
  have hvalue : ∀ w, f.binding = .value w → m.arena.GroundsAll frames w := by
    intro w hw
    cases hw
  obtain ⟨hgrows, ht, hv⟩ := hbody (hknown.mono hsub) (hm.within_push f) _ t v (.refl _)
    (hm.push henv hvalue) hrun
  have hpending : t.arena.frame? m.arena.size = some f := by
    refine hgrows.frame?_eq ?_
    rw [Arena.frame?_push, if_pos rfl]
  refine ⟨((m.arena.grows_push f).trans hgrows).set v (Nat.le_refl _), ?_, ?_⟩
  · exact ht.set hpending rfl hv
  · exact hv.evolves (Arena.evolves_set hpending rfl v)

/-- If all types in the code are known in its environment, evaluation gives a grounded value. -/
theorem Expr.grounding_evalWith (types : Datatypes) {e : Expr} (he : e.TypesKnown (a.known env))
    (henv : env.Within frames) : GroundingValue frames a (e.evalWith types enter env) := by
  induction e generalizing a env with
  | literal l =>
    refine .inspect fun b v hab _ hv ↦ ?_
    exact Arena.groundsAll_of_literal (he.mono (hab.evolves.known_subset env)) hv
  | var x => exact grounding_lookup henv x
  | letIn x declared rhs body ihrhs ihbody =>
    refine (ihrhs he.1 henv).bind fun v b hab hv ↦ ?_
    have hpush : Grounding frames b (EvalM.bind env x v) _ :=
      grounding_push (f := ⟨x, .value v, env⟩) henv (by rintro _ ⟨⟩; exact hv)
    refine hpush.bind fun inner c hbc hinner ↦ ihbody (he.2.mono ?_) hinner.1
    exact (Set.subset_union_right.trans (hab.evolves.knownUnder_subset _)).trans hinner.2
  | message entries =>
    have hentries : Grounding frames a (inspect (·.messageEntries env entries)) fun b es ↦
        b.GroundsAll frames (.message es) :=
      .inspect fun _ _ _ hb hes ↦ Arena.groundsAll_of_messageEntries hb henv hes
    exact hentries.bind fun es b _ hes ↦ .pure fun c hbc ↦ hes.evolves hbc.evolves
  | fn param ty body =>
    refine .inspect ?_
    rintro b _ hab - ⟨⟩
    have hcode : body.TypesKnown (b.known env \ {param}) :=
      Expr.TypesKnown.mono he (Set.sdiff_subset_sdiff_left (hab.evolves.known_subset env))
    rintro _ ⟨⟩
    exact ⟨trivial, hcode, henv⟩
  | app f args =>
    exact (grounding_lookup henv f).bind fun v b _ hv ↦
      Enter.grounding_applyAll henter henv hv args
  | construct name targs args =>
    refine .inspect fun b v hab hb hv ↦ Arena.groundsAll_of_construct hb henv ?_ hv
    exact fun t ht ↦ (he t ht).trans (hab.evolves.known_subset env)
  | matching x clauses ih =>
    rw [TypesKnown, clausesTypesKnown_iff] at he
    refine (grounding_lookup henv x).bind fun v b hab hv ↦ ?_
    cases hmatch : Pattern.firstMatch (clauses.map Prod.fst) v with
    | none => exact .fail _
    | some found =>
      obtain ⟨i, binds⟩ := found
      obtain ⟨clause, hclause⟩ := exists_clause hmatch
      have hmem : clause ∈ clauses := List.mem_of_getElem? hclause
      have hparts := Pattern.part_of_firstMatch hmatch
      have hnames : ∀ y ∈ binds.map Prod.fst, y ∈ clause.1.names := by
        simpa using Pattern.fst_mem_names_of_clause hmatch hclause
      refine (grounding_bindAll henv fun e he ↦ hv.part (hparts e he)).bind ?_
      intro inner c _ hinner
      simp only [evalClause_eq x hclause]
      refine ih clause hmem ((he clause hmem).mono fun y hy ↦ hinner.2 ?_) hinner.1
      exact ⟨hab.evolves.known_subset env hy.1, fun hmem ↦ hy.2 (hnames y hmem)⟩
  | builtin op targs args => exact grounding_primitive henv op args
  | tyFn tvar body =>
    refine .inspect ?_
    rintro b _ hab - ⟨⟩
    have hcode : body.TypesKnown (insert tvar (b.known env)) :=
      Expr.TypesKnown.mono he (Set.insert_subset_insert (hab.evolves.known_subset env))
    rintro _ ⟨⟩
    exact ⟨trivial, hcode, henv⟩
  | tyApp f targs =>
    refine (grounding_lookup henv f).bind fun v b hab hv ↦ ?_
    exact Enter.grounding_tyApplyAll henter hv fun t ht ↦
      (he t ht).trans (hab.evolves.known_subset env)
  | fix name ty body ih => exact Expr.grounding_fix (fun h ↦ ih h) he henv ty
  | gas c body ih =>
    refine (grounding_charge env c).bind fun _ b hab _ ↦ ?_
    exact ih (Expr.TypesKnown.mono he (hab.evolves.known_subset env)) henv
  | located span e ih => exact (ih he henv).annotate _

end Expressions

theorem isGrounding_enter (frames : Set Nat) (s : Setting) (room : Nat) :
    (enter s room).IsGrounding frames := by
  induction room with
  | zero => exact fun _ _ _ _ _ _ ↦ .fail _
  | succ room ih =>
    intro a f body hparent hvalue hbody
    exact (grounding_push hparent hvalue).bind fun env b _ henv ↦
      Expr.grounding_evalWith ih s.datatypes (hbody.mono henv.2) henv.1

/-! ### Values that come of evaluations -/

/-- The frames that can be got at from an environment: through the frames it is made of, and through
the scopes of the closures that these bind. -/
inductive Arena.Live (a : Arena) (env : Env) : Nat → Prop
  | top {i : Nat} (hi : env.top = some i) : Live a env i
  | parent {i j : Nat} {f : Frame} (h : Live a env i) (hf : a.frame? i = some f)
    (hj : f.parent.top = some j) : Live a env j
  | scope {i j : Nat} {f : Frame} {v : Value} {body : Expr} {scope : Env} (h : Live a env i)
    (hf : a.frame? i = some f) (hv : f.binding = .value v) (hscope : v.Captures body scope)
    (hj : scope.top = some j) : Live a env j

/-- The arena is grounded on the frames that can be got at and those to come. -/
theorem Arena.grounded_live {a : Arena} {env : Env}
    (h : ∀ i f v, a.Live env i → a.frame? i = some f → f.binding = .value v →
      v.All fun w ↦ w.TypesConcrete ∧ w.CodeKnown a) :
    a.Grounded {i | a.Live env i ∨ a.size ≤ i} := by
  have hlive : ∀ {i f}, i ∈ {i | a.Live env i ∨ a.size ≤ i} → a.frame? i = some f →
      a.Live env i := by
    intro i f hi hf
    have hlt := lt_size_of_frame? hf
    exact hi.resolve_right (by omega)
  constructor
  · exact fun hi ↦ .inr hi
  · exact fun hi hf j hj ↦ .inl (.parent (hlive hi hf) hf hj)
  · intro i f v hi hf hv w hw
    obtain ⟨htypes, hcode⟩ := h i f v (hlive hi hf) hf hv w hw
    refine ⟨htypes, hcode, ?_⟩
    cases w with
    | closure id param ty body scope =>
      exact fun j hj ↦
        .inl (.scope (hlive hi hf) hf hv (hw.captures (.closure id param ty)) hj)
    | tyClosure id tvar body scope =>
      exact fun j hj ↦ .inl (.scope (hlive hi hf) hf hv (hw.captures (.tyClosure id tvar)) hj)
    | _ => trivial

/-- Types at run time are concrete. Let every type variable in the code be instantiated with a
closed type in the environment or be bound by a type function around it, and likewise in the code of
every closure that can be got at, in its own scope; a name that a term binds in between must not be
that of the variable. If the values that can be got at carry concrete types, so does the result, in
all its parts, also if type variables were instantiated with address types. -/
theorem runtime_types_concrete {s : Setting} {room : Nat} {e : Expr} {env : Env} {m m' : Machine}
    {v : Value} (he : e.TypesKnown (m.arena.known env))
    (harena : ∀ i f w, m.arena.Live env i → m.arena.frame? i = some f → f.binding = .value w →
      w.All fun u ↦ u.TypesConcrete ∧ u.CodeKnown m.arena)
    (h : eval s room e env m = (.ok v, m')) : v.All Value.TypesConcrete := by
  let frames : Set Nat := {i | m.arena.Live env i ∨ m.arena.size ≤ i}
  have henv : env.Within frames := fun i hi ↦ .inl (.top hi)
  have heval := Expr.grounding_evalWith (isGrounding_enter frames s room) s.datatypes he henv
  obtain ⟨-, -, hv⟩ := heval m m' v (.refl _) (Arena.grounded_live harena) h
  exact fun w hw ↦ (hv w hw).types

namespace Owners

/-- A contract with a field. -/
def owner : Ty := .address ⟨.contract, [("balance", .uint128)]⟩

/-- A function that puts a value into a pair with an empty map, instantiated at an address type and
applied. -/
def code : Expr :=
  .letIn "make" none
    (.tyFn "'A" <| .fn "x" (.var "'A") <|
      .letIn "none" none (.literal (.emptyMap (.var "'A") (.option (.var "'A")))) <|
        .construct "Pair" [.var "'A", .map (.var "'A") (.option (.var "'A"))] ["x", "none"]) <|
    .letIn "makeOwner" none (.tyApp "make" [owner]) (.app "makeOwner" ["a"])

def address : Value := .bystrx (List.replicate addressWidth 3)

def arena : Arena := (Arena.empty.bind .empty "a" address).1

def env : Env := (Arena.empty.bind .empty "a" address).2

def result : Value :=
  .pair .bystr20 (.map .bystr20 (.option .bystr20)) address
    (.map (.empty .bystr20 (.option .bystr20)))

end Owners

/-- The pair is one of byte strings. -/
theorem runtime_types_concrete_owners :
    ∃ m', eval ⟨.standard, 2⟩ 2 Owners.code Owners.env ⟨Owners.arena, 0⟩ =
        (.ok Owners.result, m') ∧
      Owners.result.All Value.TypesConcrete := by
  have hrun : eval ⟨.standard, 2⟩ 2 Owners.code Owners.env ⟨Owners.arena, 0⟩ =
      (.ok Owners.result, (eval ⟨.standard, 2⟩ 2 Owners.code Owners.env ⟨Owners.arena, 0⟩).2) := by
    rfl
  have hsub : ∀ {t : Ty} {known : Set String}, t.hasFreeVarsBeyond ["'A"] = false →
      "'A" ∈ known → t.freeVars ⊆ known :=
    fun ht hmem ↦ (Ty.freeVars_subset ht).trans fun x hx ↦ List.mem_singleton.mp hx ▸ hmem
  have howner : Owners.owner.freeVars = ∅ := Ty.closed_of_hasFreeVars rfl
  have hknown : Owners.code.TypesKnown (Owners.arena.known Owners.env) := by
    have hparam : ∀ known : Set String, "'A" ∈ insert "'A" known \ {"x"} :=
      fun known ↦ ⟨.inl rfl, by decide⟩
    have hpair : ∀ t ∈ [Ty.var "'A", .map (.var "'A") (.option (.var "'A"))], ∀ known,
        t.freeVars ⊆ (insert "'A" known \ {"x"}) \ {"none"} := by
      intro t ht known
      refine hsub ?_ ⟨hparam known, by decide⟩
      revert t
      decide
    refine ⟨⟨⟨hsub rfl (hparam _), hsub rfl (hparam _)⟩, fun t ht ↦ hpair t ht _⟩, ?_, trivial⟩
    exact List.forall_mem_singleton.mpr (howner ▸ Set.empty_subset _)
  have harena : ∀ i f w, Owners.arena.Live Owners.env i → Owners.arena.frame? i = some f →
      f.binding = .value w → w.All fun u ↦ u.TypesConcrete ∧ u.CodeKnown Owners.arena := by
    have hbinds : Owners.arena.Binds
        (Value.All fun u ↦ u.TypesConcrete ∧ u.CodeKnown Owners.arena) := by
      refine (Arena.binds_empty _).bind _ _ ?_
      rintro _ ⟨⟩
      exact ⟨trivial, trivial⟩
    exact fun i f w _ hf hw ↦ hbinds i f w hf hw
  exact ⟨_, hrun, runtime_types_concrete hknown harena hrun⟩

end MeteredContract
