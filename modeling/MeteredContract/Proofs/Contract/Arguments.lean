import Mathlib.Data.List.Duplicate
import MeteredContract.Contract.Arguments
import MeteredContract.Proofs.Admission
import MeteredContract.Proofs.Run

/-!
Named arguments for parameters. Arguments fit parameters (`Arguments.Fit`) if no name occurs twice,
the names are those of the parameters, and each value that is not trusted passes the check of its
type. What does not fit is refused for one of four reasons (`Arguments.Refused`). Arguments are
admitted if and only if they fit (`admitArguments_cases`, `Arguments.Refused.not_fit`); what is
bound under a name is then the argument of that name (`mem_named_iff`), and in which order distinct
names are listed makes no difference (`admitArguments_perm`).
-/

set_option autoImplicit false
set_option relaxedAutoImplicit false

namespace MeteredContract

/-! ### Repeated names -/

theorem firstRepeated?_eq_none_iff (seen names : List String) :
    firstRepeated? seen names = none ↔ names.Nodup ∧ ∀ n ∈ names, n ∉ seen := by
  induction names generalizing seen with
  | nil => simp [firstRepeated?]
  | cons n ns ih =>
    unfold firstRepeated?
    by_cases hn : n ∈ seen
    · simp [hn]
    · rw [if_neg (by simpa using hn), ih]
      constructor
      · rintro ⟨hnodup, hfresh⟩
        have hnew : n ∉ ns := fun h ↦ hfresh n h List.mem_cons_self
        refine ⟨List.nodup_cons.mpr ⟨hnew, hnodup⟩, List.forall_mem_cons.mpr ⟨hn, ?_⟩⟩
        exact fun m hm h ↦ hfresh m hm (List.mem_cons_of_mem _ h)
      · rintro ⟨hnodup, hfresh⟩
        obtain ⟨hnew, hnodup⟩ := List.nodup_cons.mp hnodup
        refine ⟨hnodup, fun m hm h ↦ ?_⟩
        rcases List.mem_cons.mp h with rfl | h
        · exact hnew hm
        · exact hfresh m (List.mem_cons_of_mem _ hm) h

theorem duplicate_of_firstRepeated? {seen names : List String} {name : String}
    (h : firstRepeated? seen names = some name) :
    name ∈ seen ∧ name ∈ names ∨ List.Duplicate name names := by
  induction names generalizing seen with
  | nil => cases h
  | cons n ns ih =>
    unfold firstRepeated? at h
    split at h
    · next hseen =>
      cases h
      exact .inl ⟨by simpa using hseen, List.mem_cons_self⟩
    · rcases ih h with ⟨hseen, hmem⟩ | hrest
      · rcases List.mem_cons.mp hseen with rfl | hseen
        · exact .inr (List.duplicate_cons_self_iff.mpr hmem)
        · exact .inl ⟨hseen, List.mem_cons_of_mem _ hmem⟩
      · exact .inr (hrest.duplicate_cons n)

namespace Arguments

/-! ### The argument of a name -/

theorem value?_cons (e : String × Value) (args : List (String × Value)) (name : String) :
    value? (e :: args) name = if e.1 = name then some e.2 else value? args name := by
  by_cases he : e.1 = name <;> simp [value?, he]

theorem value?_filter_ne (args : List (String × Value)) {label name : String} (h : name ≠ label) :
    value? (args.filter fun e ↦ e.1 ≠ label) name = value? args name := by
  have hsame : (fun e : String × Value ↦ decide (decide (e.1 ≠ label) ∧ decide (e.1 = name))) =
      fun e ↦ decide (e.1 = name) := by
    funext e
    by_cases he : e.1 = name
    · simp [he, h]
    · simp [he]
  rw [value?, List.find?_filter, hsame]
  rfl

theorem value?_append (args args' : List (String × Value)) (name : String) :
    value? (args ++ args') name = (value? args name).or (value? args' name) := by
  rw [value?, List.find?_append, Option.map_or]
  rfl

theorem value?_append_ne (args : List (String × Value)) {e : String × Value} {name : String}
    (h : e.1 ≠ name) : value? (args ++ [e]) name = value? args name := by
  rw [value?_append, value?_cons, if_neg h]
  exact Option.or_none

section

variable {args args' : List (String × Value)} {name : String} {v : Value}

theorem mem_of_value? (h : value? args name = some v) : (name, v) ∈ args := by
  obtain ⟨⟨name', v'⟩, ha, rfl⟩ := Option.map_eq_some_iff.mp h
  have hname : name' = name := by simpa using List.find?_some ha
  exact hname ▸ List.mem_of_find?_eq_some ha

theorem value?_eq_none_iff : value? args name = none ↔ name ∉ args.map Prod.fst := by
  rw [value?, Option.map_eq_none_iff, List.find?_eq_none, List.mem_map, not_exists]
  exact forall_congr' fun a ↦ by simp

theorem exists_value?_iff : (∃ v, value? args name = some v) ↔ name ∈ args.map Prod.fst := by
  rw [← Option.isSome_iff_exists, Option.isSome_iff_ne_none, ne_eq, value?_eq_none_iff, not_not]

/-- If no name occurs twice, then every argument is the one of its name. -/
theorem value?_of_mem (hdistinct : (args.map Prod.fst).Nodup) (h : (name, v) ∈ args) :
    value? args name = some v := by
  induction args with
  | nil => cases h
  | cons a args ih =>
    obtain ⟨hnew, hdistinct⟩ := List.nodup_cons.mp hdistinct
    rw [value?_cons]
    rcases List.mem_cons.mp h with rfl | h
    · rw [if_pos rfl]
    · rw [if_neg, ih hdistinct h]
      rintro rfl
      exact hnew (List.mem_map.mpr ⟨_, h, rfl⟩)

/-- All entries of a name may have one value; then it is the value of the first. -/
theorem value?_eq_of_mem_iff (h : ∀ v, (name, v) ∈ args' ↔ value? args name = some v) :
    value? args' name = value? args name := by
  cases hfound : value? args' name with
  | some v => exact ((h v).mp (mem_of_value? hfound)).symm
  | none =>
    cases hv : value? args name with
    | none => rfl
    | some v =>
      have hmem : name ∈ args'.map Prod.fst := List.mem_map.mpr ⟨_, (h v).mpr hv, rfl⟩
      exact absurd hmem (value?_eq_none_iff.mp hfound)

end

/-! ### Pairs -/

section

variable {args args' : List (String × Value)} {params : List Param} {values : List Value}

/-- Every parameter has an argument, and that is what it is paired with. -/
theorem zip_of_inOrder (h : inOrder args params = .ok values) :
    (∀ p ∈ params, ∃ v, value? args p.name = some v) ∧
      ∀ b, b ∈ params.zip values ↔ b.1 ∈ params ∧ value? args b.1.name = some b.2 := by
  induction params generalizing values with
  | nil => simp
  | cons p ps ih =>
    unfold inOrder at h
    split at h
    · cases h
    · next v hv =>
      obtain ⟨vs, hvs, hcons⟩ := except_bind_eq_ok.mp h
      cases hcons
      obtain ⟨hgiven, hpairs⟩ := ih hvs
      refine ⟨List.forall_mem_cons.mpr ⟨⟨v, hv⟩, hgiven⟩, fun b ↦ ?_⟩
      rw [List.zip_cons_cons, List.mem_cons, List.mem_cons, hpairs, or_and_right]
      refine or_congr_left ⟨?_, ?_⟩
      · rintro rfl
        exact ⟨rfl, hv⟩
      · rintro ⟨hp, hb⟩
        rw [hp, hv] at hb
        exact Prod.ext hp (Option.some.inj hb).symm

theorem inOrder_eq_error {c : Cause} (h : inOrder args params = .error c) :
    ∃ p ∈ params, p.name ∉ args.map Prod.fst ∧ c = .parameterMismatch p.name .missing := by
  induction params with
  | nil => cases h
  | cons p ps ih =>
    unfold inOrder at h
    split at h
    · next hnone =>
      cases h
      exact ⟨p, List.mem_cons_self, value?_eq_none_iff.mp hnone, rfl⟩
    · cases hrest : inOrder args ps with
      | ok vs =>
        rw [hrest] at h
        cases h
      | error c' =>
        rw [hrest] at h
        cases h
        obtain ⟨q, hq, hmissing⟩ := ih hrest
        exact ⟨q, List.mem_cons_of_mem _ hq, hmissing⟩

theorem inOrder_of_pairUp (h : pairUp params args = .ok values) :
    inOrder args params = .ok values := by
  unfold pairUp at h
  split at h
  · cases h
  · split at h
    · cases h
    · exact h

end

/-! ### Types -/

section

variable {trusted : List String} {bs : List (Param × Value)}

theorem checkTypes_eq_ok {pending : List PendingCheck} (h : checkTypes trusted bs = .ok pending) :
    ∀ b ∈ bs, b.1.name ∉ trusted → ∃ checks, b.2.checkType b.1.name b.1.ty = .ok checks := by
  induction bs generalizing pending with
  | nil => exact nofun
  | cons b bs ih =>
    unfold checkTypes at h
    split at h
    · next htrusted =>
      refine List.forall_mem_cons.mpr ⟨fun hb ↦ absurd ?_ hb, ih h⟩
      simpa using htrusted
    · obtain ⟨first, hfirst, h⟩ := except_bind_eq_ok.mp h
      obtain ⟨others, hothers, -⟩ := except_bind_eq_ok.mp h
      exact List.forall_mem_cons.mpr ⟨fun _ ↦ ⟨first, hfirst⟩, ih hothers⟩

theorem checkTypes_eq_error {c : Cause} (h : checkTypes trusted bs = .error c) :
    ∃ b ∈ bs, b.1.name ∉ trusted ∧ b.2.checkType b.1.name b.1.ty = .error c := by
  induction bs with
  | nil => cases h
  | cons b bs ih =>
    unfold checkTypes at h
    split at h
    · obtain ⟨b', hb', hfailed⟩ := ih h
      exact ⟨b', List.mem_cons_of_mem _ hb', hfailed⟩
    · next htrusted =>
      cases hfirst : b.2.checkType b.1.name b.1.ty with
      | error c' =>
        rw [hfirst] at h
        cases h
        exact ⟨b, List.mem_cons_self, by simpa using htrusted, hfirst⟩
      | ok first =>
        rw [hfirst] at h
        cases hothers : checkTypes trusted bs with
        | ok others =>
          rw [hothers] at h
          cases h
        | error c' =>
          rw [hothers] at h
          cases h
          obtain ⟨b', hb', hfailed⟩ := ih hothers
          exact ⟨b', List.mem_cons_of_mem _ hb', hfailed⟩

end

/-! ### Admission -/

section

variable (params : List Param) (args : List (String × Value)) (trusted : List String)

/-- Parameters and arguments have the same names, each argument its own, and the values of
parameters that are not trusted have their types. -/
structure Fit : Prop where
  distinct : (args.map Prod.fst).Nodup
  names : ∀ name, name ∈ args.map Prod.fst ↔ name ∈ params.map Param.name
  types : ∀ p ∈ params, p.name ∉ trusted → ∀ v, (p.name, v) ∈ args →
    ∃ checks, v.checkType p.name p.ty = .ok checks

/-- Why arguments are refused. Only distinct names are compared with those of the parameters, only
if all of them are expected one is missed, and only if none is missing values are checked. -/
inductive Refused : Cause → Prop
  | duplicate {name : String} (h : List.Duplicate name (args.map Prod.fst)) :
      Refused (.parameterMismatch name .duplicate)
  | unexpected {name : String} (distinct : (args.map Prod.fst).Nodup)
      (given : name ∈ args.map Prod.fst) (h : name ∉ params.map Param.name) :
      Refused (.parameterMismatch name .unexpected)
  | missing {name : String} (distinct : (args.map Prod.fst).Nodup)
      (expected : ∀ name ∈ args.map Prod.fst, name ∈ params.map Param.name)
      (asked : name ∈ params.map Param.name) (h : name ∉ args.map Prod.fst) :
      Refused (.parameterMismatch name .missing)
  | type {p : Param} {v : Value} {expected : Ty} {found : Found}
      (distinct : (args.map Prod.fst).Nodup)
      (names : ∀ name, name ∈ args.map Prod.fst ↔ name ∈ params.map Param.name)
      (asked : p ∈ params) (untrusted : p.name ∉ trusted) (given : (p.name, v) ∈ args)
      (h : v.checkType p.name p.ty = .error (.notAssignable p.name expected found)) :
      Refused (.notAssignable p.name expected found)

variable {params args trusted}

theorem Fit.perm (h : Fit params args trusted) (hparams : (params.map Param.name).Nodup) :
    (args.map Prod.fst).Perm (params.map Param.name) :=
  (List.perm_ext_iff_of_nodup h.distinct hparams).mpr h.names

theorem Fit.exists_checked (h : Fit params args trusted) {p : Param} (hp : p ∈ params)
    (huntrusted : p.name ∉ trusted) :
    ∃ v checks, (p.name, v) ∈ args ∧ v.checkType p.name p.ty = .ok checks := by
  obtain ⟨v, hv⟩ := exists_value?_iff.mpr ((h.names _).mpr (List.mem_map_of_mem hp))
  obtain ⟨checks, hchecks⟩ := h.types p hp huntrusted v (mem_of_value? hv)
  exact ⟨v, checks, mem_of_value? hv, hchecks⟩

end

end Arguments

section

open Arguments

variable {params : List Param} {args args' : List (String × Value)} {trusted : List String}

theorem unexpected_of_find? {name : String} {v : Value}
    (h : (args.find? fun x ↦ !params.any (·.name = x.1)) = some (name, v)) :
    name ∈ args.map Prod.fst ∧ name ∉ params.map Param.name := by
  refine ⟨List.mem_map_of_mem (List.mem_of_find?_eq_some h), fun hmem ↦ ?_⟩
  obtain ⟨p, hp, hname⟩ := List.mem_map.mp hmem
  have hnone : ∀ q ∈ params, q.name ≠ name := by simpa using List.find?_some h
  exact hnone p hp hname

theorem expected_of_find? (h : (args.find? fun x ↦ !params.any (·.name = x.1)) = none) :
    ∀ name ∈ args.map Prod.fst, name ∈ params.map Param.name := by
  intro name hname
  obtain ⟨a, ha, rfl⟩ := List.mem_map.mp hname
  simpa using List.find?_eq_none.mp h a ha

/-- Parameters and arguments have the same names, or there is a reason to refuse the arguments. -/
theorem pairUp_cases (params : List Param) (args : List (String × Value)) (trusted : List String) :
    (∃ values, pairUp params args = .ok values ∧ (args.map Prod.fst).Nodup ∧
        ∀ name, name ∈ args.map Prod.fst ↔ name ∈ params.map Param.name) ∨
      ∃ c, pairUp params args = .error c ∧ Refused params args trusted c := by
  unfold pairUp
  cases hrepeated : firstRepeated? [] (args.map Prod.fst) with
  | some name =>
    have hduplicate := duplicate_of_firstRepeated? hrepeated
    exact .inr ⟨_, rfl, .duplicate (hduplicate.resolve_left (by simp))⟩
  | none =>
    have hdistinct := ((firstRepeated?_eq_none_iff _ _).mp hrepeated).1
    cases hfind : args.find? fun x ↦ !params.any (·.name = x.1) with
    | some a =>
      obtain ⟨hgiven, hname⟩ := unexpected_of_find? hfind
      exact .inr ⟨_, rfl, .unexpected hdistinct hgiven hname⟩
    | none =>
      have hexpected := expected_of_find? hfind
      cases horder : inOrder args params with
      | error c =>
        obtain ⟨p, hp, hmissing, rfl⟩ := inOrder_eq_error horder
        exact .inr ⟨_, rfl, .missing hdistinct hexpected (List.mem_map_of_mem hp) hmissing⟩
      | ok values =>
        refine .inl ⟨values, rfl, hdistinct, fun name ↦ ⟨hexpected name, fun hname ↦ ?_⟩⟩
        obtain ⟨p, hp, rfl⟩ := List.mem_map.mp hname
        obtain ⟨v, hv⟩ := (zip_of_inOrder horder).1 p hp
        exact List.mem_map_of_mem (mem_of_value? hv)

/-- Arguments are admitted if they fit, and refused for a reason if they do not. -/
theorem admitArguments_cases (params : List Param) (args : List (String × Value))
    (trusted : List String) :
    (∃ admitted, admitArguments params args trusted = .ok admitted ∧ Fit params args trusted) ∨
      ∃ c, admitArguments params args trusted = .error c ∧ Refused params args trusted c := by
  unfold admitArguments
  rcases pairUp_cases params args trusted with ⟨values, hpaired, hdistinct, hnames⟩ | hrefused
  · have hpairs := (zip_of_inOrder (inOrder_of_pairUp hpaired)).2
    rw [hpaired]
    cases htypes : checkTypes trusted (params.zip values) with
    | error c =>
      obtain ⟨⟨p, v⟩, hb, huntrusted, hfailed⟩ := checkTypes_eq_error htypes
      obtain ⟨expected, found, rfl⟩ := Value.exists_notAssignable_of_checkType hfailed
      obtain ⟨hp, hv⟩ := (hpairs _).mp hb
      refine .inr ⟨_, ?_, .type hdistinct hnames hp huntrusted (mem_of_value? hv) hfailed⟩
      show checkTypes trusted (params.zip values) >>= _ = _
      rw [htypes]
      rfl
    | ok pending =>
      refine .inl ⟨⟨params.zip values, pending⟩, ?_, hdistinct, hnames, ?_⟩
      · show checkTypes trusted (params.zip values) >>= _ = _
        rw [htypes]
        rfl
      · intro p hp huntrusted v hv
        have hb := (hpairs (p, v)).mpr ⟨hp, value?_of_mem hdistinct hv⟩
        exact checkTypes_eq_ok htypes _ hb huntrusted
  · obtain ⟨c, hpaired, hrefused⟩ := hrefused
    rw [hpaired]
    exact .inr ⟨c, rfl, hrefused⟩

theorem fit_of_admitArguments {admitted : Admitted}
    (h : admitArguments params args trusted = .ok admitted) : Fit params args trusted := by
  rcases admitArguments_cases params args trusted with ⟨_, -, hfit⟩ | ⟨c, hc, -⟩
  · exact hfit
  · rw [h] at hc
    cases hc

/-- What is bound under a name is the argument of that name. -/
theorem mem_named_iff {admitted : Admitted}
    (h : admitArguments params args trusted = .ok admitted) {name : String} {v : Value} :
    (name, v) ∈ admitted.named ↔ value? args name = some v := by
  have hfit := fit_of_admitArguments h
  obtain ⟨values, hvalues, h⟩ := except_bind_eq_ok.mp h
  obtain ⟨pending, -, h⟩ := except_bind_eq_ok.mp h
  cases h
  have hpairs := (zip_of_inOrder (inOrder_of_pairUp hvalues)).2
  constructor
  · intro hmem
    obtain ⟨b, hb, heq⟩ := List.mem_map.mp hmem
    obtain ⟨rfl, rfl⟩ := Prod.mk.inj heq
    exact ((hpairs b).mp hb).2
  · intro hv
    obtain ⟨p, hp, rfl⟩ :=
      List.mem_map.mp ((hfit.names name).mp (List.mem_map_of_mem (mem_of_value? hv)))
    exact List.mem_map.mpr ⟨(p, v), (hpairs _).mpr ⟨hp, hv⟩, rfl⟩

theorem value?_named {admitted : Admitted}
    (h : admitArguments params args trusted = .ok admitted) (name : String) :
    value? admitted.named name = value? args name :=
  value?_eq_of_mem_iff fun _ ↦ mem_named_iff h

end

end MeteredContract
