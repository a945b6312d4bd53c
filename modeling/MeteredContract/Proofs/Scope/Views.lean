import MeteredContract.Proofs.Scope.Bindings

/-!
The views of an environment. One may ask it for the value of a name, list its bindings, keep some of
them in an environment of their own, or bind all of them anew. A listing follows the frames and
leaves out the names it has come upon, and a look-up stops at the first frame of its name; both see
the same values, and in both a frame hides those further out, whatever it binds its name to
(`Arena.mem_bindings_iff`). Environments that are made of a listing see what was listed and nothing
else (`Arena.lookup_filter`, `Arena.Consists.bindings`). The views of an environment do not change
when frames are added (`Arena.chain_of_grows`).
-/

set_option autoImplicit false
set_option relaxedAutoImplicit false

namespace MeteredContract

namespace Arena

variable {a b : Arena} {env : Env} {x : String} {v : Value}

/-! ### What is visible on a chain of frames -/

variable {seen : List String} {f : Frame} {fs : List Frame}

theorem visible_cons_of_mem (h : f.name ∈ seen) : visible seen (f :: fs) = visible seen fs := by
  rw [visible, if_pos (by simpa using h)]

theorem visible_cons_of_value (h : f.name ∉ seen) (hf : f.binding = .value v) :
    visible seen (f :: fs) = (f.name, v) :: visible (f.name :: seen) fs := by
  rw [visible, if_neg (by simpa using h), hf]

theorem visible_cons_of_ne_value (h : f.name ∉ seen) (hf : ∀ v, f.binding ≠ .value v) :
    visible seen (f :: fs) = visible (f.name :: seen) fs := by
  rw [visible, if_neg (by simpa using h)]
  cases hbinding : f.binding with
  | value v => exact absurd hbinding (hf v)
  | type | pending => rfl

/-- Visible are the values of the first frames of their names. -/
theorem mem_visible_iff :
    (x, v) ∈ visible seen fs ↔
      x ∉ seen ∧ ∃ f, fs.find? (·.name = x) = some f ∧ f.binding = .value v := by
  induction fs generalizing seen with
  | nil => simp [visible]
  | cons f fs ih =>
    by_cases hseen : f.name ∈ seen
    · rw [visible_cons_of_mem hseen, ih]
      refine and_congr_right fun hx ↦ ?_
      have hne : f.name ≠ x := fun h ↦ hx (h ▸ hseen)
      rw [List.find?_cons_of_neg (by simpa using hne)]
    · by_cases hx : f.name = x
      · subst hx
        rw [List.find?_cons_of_pos (by simp)]
        cases hbinding : f.binding with
        | value w =>
          -- No later frame of the name is visible: the name is among those that were seen.
          rw [visible_cons_of_value hseen hbinding, List.mem_cons, ih]
          simp [hseen, hbinding, eq_comm]
        | type | pending =>
          rw [visible_cons_of_ne_value hseen (by simp [hbinding]), ih]
          simp [hbinding]
      · rw [List.find?_cons_of_neg (by simpa using hx)]
        cases hbinding : f.binding with
        | value w =>
          rw [visible_cons_of_value hseen hbinding, List.mem_cons, ih]
          simp [Ne.symm hx]
        | type | pending =>
          rw [visible_cons_of_ne_value hseen (by simp [hbinding]), ih]
          simp [Ne.symm hx]

theorem nodup_visible (seen : List String) (fs : List Frame) :
    ((visible seen fs).map Prod.fst).Nodup := by
  induction fs generalizing seen with
  | nil => exact List.nodup_nil
  | cons f fs ih =>
    by_cases hseen : f.name ∈ seen
    · rw [visible_cons_of_mem hseen]
      exact ih seen
    · cases hbinding : f.binding with
      | value v =>
        rw [visible_cons_of_value hseen hbinding]
        refine List.nodup_cons.mpr ⟨fun hmem ↦ ?_, ih _⟩
        obtain ⟨⟨y, w⟩, hvisible, rfl⟩ := List.mem_map.mp hmem
        exact (mem_visible_iff.mp hvisible).1 List.mem_cons_self
      | type | pending =>
        rw [visible_cons_of_ne_value hseen (by simp [hbinding])]
        exact ih _

/-- If all frames bind values to different names, then all of them are visible. -/
theorem visible_of_nodup {cs : List (String × Value)}
    (hfs : fs.map (fun f ↦ (f.name, f.binding)) = cs.map fun c ↦ (c.1, .value c.2))
    (hcs : (cs.map Prod.fst).Nodup) (hseen : ∀ c ∈ cs, c.1 ∉ seen) : visible seen fs = cs := by
  induction fs generalizing cs seen with
  | nil =>
    cases List.map_eq_nil_iff.mp hfs.symm
    rfl
  | cons f fs ih =>
    obtain ⟨c, cs, rfl⟩ : ∃ c cs', cs = c :: cs' := by
      cases cs with
      | nil => cases hfs
      | cons c cs => exact ⟨c, cs, rfl⟩
    obtain ⟨hfirst, hrest⟩ := List.cons.inj hfs
    obtain ⟨hname, hbinding⟩ := Prod.mk.inj hfirst
    obtain ⟨hnew, hdistinct⟩ := List.nodup_cons.mp hcs
    obtain ⟨hc, hseen⟩ := List.forall_mem_cons.mp hseen
    rw [visible_cons_of_value (by rwa [hname]) hbinding, hname, ih hrest hdistinct]
    intro d hd hmem
    rcases List.mem_cons.mp hmem with heq | hmem
    · exact hnew (heq ▸ List.mem_map_of_mem hd)
    · exact hseen d hd hmem

/-! ### Listings -/

theorem nodup_bindings (a : Arena) (env : Env) : ((a.bindings env).map Prod.fst).Nodup := by
  rw [bindings, List.map_reverse, List.nodup_reverse]
  exact nodup_visible [] (a.chain env)

/-- A listing has the values that look-ups find. -/
theorem mem_bindings_iff : (x, v) ∈ a.bindings env ↔ a.lookup env x = .ok v := by
  rw [bindings, List.mem_reverse, mem_visible_iff, lookup_eq_ok]
  exact and_iff_right List.not_mem_nil

theorem notMem_bindings_iff :
    x ∉ (a.bindings env).map Prod.fst ↔ a.lookup env x = .error (.unboundIdentifier x) := by
  constructor
  · intro hx
    cases hlookup : a.lookup env x with
    | ok v => exact absurd (List.mem_map_of_mem (mem_bindings_iff.mpr hlookup)) hx
    | error c => rw [eq_of_lookup_eq_error hlookup]
  · intro hlookup hx
    obtain ⟨⟨y, v⟩, hmem, rfl⟩ := List.mem_map.mp hx
    rw [mem_bindings_iff.mp hmem] at hlookup
    cases hlookup

/-- An environment that consists of bindings of different names lists them as they were bound. -/
theorem Consists.bindings {bs : List (String × Value)} (h : a.Consists env bs)
    (hdistinct : (bs.map Prod.fst).Nodup) : a.bindings env = bs := by
  obtain ⟨fs, hchain, hlength, hbindings⟩ := h
  have hvisible : visible [] fs = bs.reverse := by
    refine visible_of_nodup hbindings ?_ fun _ _ ↦ List.not_mem_nil
    rwa [List.map_reverse, List.nodup_reverse]
  rw [Arena.bindings, chain, hchain.walk_eq hlength, hvisible, List.reverse_reverse]

/-- Bindings that are made anew, over the empty environment, are listed as before. -/
theorem bindings_bindAll (b : Arena) {bs : List (String × Value)}
    (hdistinct : (bs.map Prod.fst).Nodup) :
    (b.bindAll .empty bs).1.bindings (b.bindAll .empty bs).2 = bs :=
  ((consists_empty b).bindAll bs).bindings hdistinct

theorem bindings_filter (a : Arena) (env : Env) (keep : String → Bool) :
    (a.filter env keep).1.bindings (a.filter env keep).2 =
      (a.bindings env).filter fun c ↦ keep c.1 :=
  bindings_bindAll a ((nodup_bindings a env).sublist (List.filter_sublist.map Prod.fst))

/-- An environment of the bindings with some names has these and no others. -/
theorem lookup_filter (a : Arena) (env : Env) (keep : String → Bool) (x : String) :
    (a.filter env keep).1.lookup (a.filter env keep).2 x =
      if keep x = true then a.lookup env x else .error (.unboundIdentifier x) := by
  cases hlookup : (a.filter env keep).1.lookup (a.filter env keep).2 x with
  | ok v =>
    have hmem := mem_bindings_iff.mpr hlookup
    rw [bindings_filter, List.mem_filter, mem_bindings_iff] at hmem
    rw [if_pos hmem.2, hmem.1]
  | error c =>
    obtain rfl := eq_of_lookup_eq_error hlookup
    split
    next hx =>
      -- A value of the name would have been kept, and it would be found.
      refine (notMem_bindings_iff.mp fun hname ↦ ?_).symm
      obtain ⟨⟨y, v⟩, hmem, rfl⟩ := List.mem_map.mp hname
      refine notMem_bindings_iff.mpr hlookup ?_
      rw [bindings_filter]
      exact List.mem_map_of_mem (List.mem_filter.mpr ⟨hmem, hx⟩)
    next => rfl

/-- A frame hides the frames of its name further out, whatever the name is bound to. -/
theorem lookup_of_hidden (hf : a.find? env x = some f) (hbinding : ∀ v, f.binding ≠ .value v) :
    a.lookup env x = .error (.unboundIdentifier x) := by
  cases hlookup : a.lookup env x with
  | ok v =>
    obtain ⟨g, hg, hvalue⟩ := lookup_eq_ok.mp hlookup
    cases hf.symm.trans hg
    exact absurd hvalue (hbinding v)
  | error c => rw [eq_of_lookup_eq_error hlookup]

/-! ### Added frames -/

/-- The chain of an environment of a well-formed arena stays what it is. -/
theorem chain_of_grows (ha : a.WellFormed) (henv : env.InRange a.size) (hab : a.Grows b) :
    b.chain env = a.chain env := by
  obtain ⟨hchain, hlength⟩ := chain_complete ha.sound henv
  exact (hchain.mono hab.frame?_eq).walk_eq (hlength.trans hab.size_le)

end Arena

/-- A listing of an environment has different names, with the values that look-ups find, so in both
a binding that is no value hides those further out. A part of an environment is seen as the
environment is, with the names outside it unbound, and the environment itself is seen as before.
What is listed can be bound anew in any arena, and the same is listed there. -/
theorem environment_views_agree {a : Arena} (ha : a.WellFormed) {env : Env}
    (henv : env.InRange a.size) (keep : String → Bool) (b : Arena) :
    let part := a.filter env keep
    let anew := b.bindAll .empty (a.bindings env)
    ((a.bindings env).map Prod.fst).Nodup ∧
      (∀ x v, (x, v) ∈ a.bindings env ↔ a.lookup env x = .ok v) ∧
      (∀ x f, a.find? env x = some f → (∀ v, f.binding ≠ .value v) →
        x ∉ (a.bindings env).map Prod.fst ∧ a.lookup env x = .error (.unboundIdentifier x)) ∧
      (∀ x, part.1.lookup part.2 x =
        if keep x = true then a.lookup env x else .error (.unboundIdentifier x)) ∧
      (∀ x, part.1.lookup env x = a.lookup env x) ∧
      part.1.bindings env = a.bindings env ∧
      anew.1.bindings anew.2 = a.bindings env := by
  intro part anew
  have hgrows : a.Grows part.1 := Arena.grows_bindAll a _ _
  have hchain : part.1.chain env = a.chain env := Arena.chain_of_grows ha henv hgrows
  refine ⟨a.nodup_bindings env, fun x v ↦ Arena.mem_bindings_iff, fun x f hf hbinding ↦ ?_,
    a.lookup_filter env keep, fun x ↦ ?_, ?_, b.bindings_bindAll (a.nodup_bindings env)⟩
  · have hlookup := Arena.lookup_of_hidden hf hbinding
    exact ⟨Arena.notMem_bindings_iff.mpr hlookup, hlookup⟩
  · simp only [Arena.lookup, Arena.find?, hchain]
  · simp only [Arena.bindings, hchain]

namespace Hidden

/-- Two names with values, each of them bound once more further in: one to another value, and one to
a recursive function that is still being computed. -/
def arena : Arena :=
  let outer := (Arena.empty.bindAll .empty [("a", .bnum 1), ("f", .bnum 2), ("a", .bnum 3)]).1
  (outer.bindPending ⟨some 2⟩ "f").1

theorem built_frames : arena.Built := by
  have hempty : Env.InRange .empty 0 := by rintro _ ⟨⟩
  have hfirst : Env.InRange ⟨some 0⟩ 1 := by
    rintro _ ⟨⟩
    decide
  have hsecond : Env.InRange ⟨some 1⟩ 2 := by
    rintro _ ⟨⟩
    decide
  have hthird : Env.InRange ⟨some 2⟩ 3 := by
    rintro _ ⟨⟩
    decide
  have ha := Arena.Built.bind .empty hempty "a" (Value.each_bnum 1)
  have hf := ha.bind hfirst "f" (Value.each_bnum 2)
  exact (hf.bind hsecond "a" (Value.each_bnum 3)).bindPending hthird "f"

end Hidden

theorem environment_views_agree_hidden :
    Hidden.arena.WellFormed ∧ Env.InRange ⟨some 3⟩ Hidden.arena.size ∧
      Hidden.arena.bindings ⟨some 3⟩ = [("a", .bnum 3)] ∧
      Hidden.arena.lookup ⟨some 3⟩ "a" = .ok (.bnum 3) ∧
      Hidden.arena.lookup ⟨some 3⟩ "f" = .error (.unboundIdentifier "f") ∧
      let part := Hidden.arena.filter ⟨some 3⟩ (· == "f")
      part.1.lookup part.2 "a" = .error (.unboundIdentifier "a") := by
  have harena : Hidden.arena.WellFormed := Hidden.built_frames.sound.wellFormed
  have henv : Env.InRange ⟨some 3⟩ Hidden.arena.size := by
    rintro _ ⟨⟩
    decide
  have hbindings : Hidden.arena.bindings ⟨some 3⟩ = [("a", .bnum 3)] := by rfl
  obtain ⟨-, hmem, hhidden, hpart, -⟩ :=
    environment_views_agree harena henv (· == "f") .empty
  have ha := (hmem "a" (.bnum 3)).mp (by simp [hbindings])
  have hf := (hhidden "f" ⟨"f", .pending, ⟨some 2⟩⟩ rfl (by simp)).2
  exact ⟨harena, henv, hbindings, ha, hf, hpart "a"⟩

end MeteredContract
