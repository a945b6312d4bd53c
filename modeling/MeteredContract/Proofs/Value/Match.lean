import MeteredContract.Value.Match
import Mathlib.Data.List.Forall2

/-!
What matching finds. A pattern fits a value that has the constructors of the pattern where the pattern
has them (`Pattern.Fits`), and its binders stand at positions of their own (`Pattern.sites`). A match
succeeds on the values that the pattern fits, and adds each binder with the part of the value at its
position to the bindings there are (`Pattern.matchOnto_eq_true_iff`). So of several patterns the first
that fits is taken, with its own bindings only (`Pattern.firstMatch_eq_some_iff`,
`Pattern.firstMatch_eq_none_iff`), and what holds of all arguments of a value holds of what is bound
(`Pattern.forall_of_firstMatch`). A pattern without wildcards that is filled with what it has bound is
the value again, but for types (`Pattern.fill?_of_fits`).
-/

set_option autoImplicit false
set_option relaxedAutoImplicit false

namespace MeteredContract

namespace Value

/-- The arguments of a constructor value. -/
def args : Value → List Value
  | .data _ _ _ args => args
  | _ => []

/-- The value at a position, which is given by the numbers of the arguments on the way to it. -/
def argAt? (v : Value) : List Nat → Option Value
  | [] => some v
  | i :: pos => v.args[i]?.bind fun w ↦ w.argAt? pos
termination_by structural pos => pos

/-- What passes from values to their arguments holds at all positions. -/
theorem of_argAt? {q : Value → Prop} (hargs : ∀ v, q v → ∀ w ∈ v.args, q w) {v w : Value}
    {pos : List Nat} (hv : q v) (h : v.argAt? pos = some w) : q w := by
  induction pos generalizing v with
  | nil =>
    cases h
    exact hv
  | cons i pos ih =>
    obtain ⟨u, hu, h⟩ := Option.bind_eq_some_iff.mp h
    exact ih (hargs v hv u (List.mem_of_getElem? hu)) h

/-- The arguments from a number on: the first of them, and those after it. -/
theorem args_of_drop {v w : Value} {i : Nat} {ws : List Value} (h : v.args.drop i = w :: ws) :
    v.args[i]? = some w ∧ v.args.drop (i + 1) = ws := by
  rw [← List.head?_drop, ← List.tail_drop, h]
  exact ⟨rfl, rfl⟩

/-- The values differ at most in the type names and type arguments of constructor values: of
themselves, and of the arguments of such values at any depth. -/
inductive SameButTypes : Value → Value → Prop
  | refl (v : Value) : SameButTypes v v
  | data {tyName tyName' constructor : String} {targs targs' : List Ty} {args args' : List Value}
    (h : List.Forall₂ SameButTypes args args') :
    SameButTypes (.data tyName constructor targs args) (.data tyName' constructor targs' args')

end Value

namespace Pattern

/-- The pattern matches the value: where it has a constructor, the value has the same one, with as
many arguments. -/
inductive Fits : Pattern → Value → Prop
  | wildcard (v : Value) : Fits .wildcard v
  | binder (x : String) (v : Value) : Fits (.binder x) v
  | constructor {c tyName : String} {ps : List Pattern} {targs : List Ty} {args : List Value}
    (h : List.Forall₂ Fits ps args) : Fits (.constructor c ps) (.data tyName c targs args)

mutual

/-- The binders of the pattern from left to right, with their positions. -/
def sites : Pattern → List (String × List Nat)
  | .wildcard => []
  | .binder x => [(x, [])]
  | .constructor _ ps => sitesFrom 0 ps

/-- The binders of patterns for the arguments from number `i` on. -/
def sitesFrom : (i : Nat) → List Pattern → List (String × List Nat)
  | _, [] => []
  | i, p :: ps => (p.sites.map fun s ↦ (s.1, i :: s.2)) ++ sitesFrom (i + 1) ps

end

/-- The bindings are the binders of the pattern from left to right, each of them with the part of the
value at its position. -/
def Binds (p : Pattern) (v : Value) (binds : List (String × Value)) : Prop :=
  (p.sites.map fun s ↦ (s.1, v.argAt? s.2)) = binds.map fun b ↦ (b.1, some b.2)

/-- The same for the patterns of the arguments from number `i` on. -/
def BindsFrom (i : Nat) (ps : List Pattern) (v : Value) (binds : List (String × Value)) : Prop :=
  ((sitesFrom i ps).map fun s ↦ (s.1, v.argAt? s.2)) = binds.map fun b ↦ (b.1, some b.2)

inductive WildcardFree : Pattern → Prop
  | binder (x : String) : WildcardFree (.binder x)
  | constructor {c : String} {ps : List Pattern} (h : ∀ p ∈ ps, WildcardFree p) :
    WildcardFree (.constructor c ps)

mutual

/-- The pattern with values in place of its binders, in order, and the values that are left. Nothing
stands for a wildcard. The constructor values get no type name and no type arguments. -/
def fill? : Pattern → List Value → Option (Value × List Value)
  | .wildcard, _ => none
  | .binder _, [] => none
  | .binder _, v :: vs => some (v, vs)
  | .constructor c ps, vs => (fillAll? ps vs).map fun r ↦ (.data "" c [] r.1, r.2)

def fillAll? : List Pattern → List Value → Option (List Value × List Value)
  | [], vs => some ([], vs)
  | p :: ps, vs => do
    let (v, vs) ← p.fill? vs
    let (rest, vs) ← fillAll? ps vs
    return (v :: rest, vs)

end

/-! ### Bindings -/

theorem Binds.unique {p : Pattern} {v : Value} {binds binds' : List (String × Value)}
    (h : p.Binds v binds) (h' : p.Binds v binds') : binds = binds' := by
  have hinjective : Function.Injective fun b : String × Value ↦ (b.1, some b.2) := by
    rintro ⟨x, v⟩ ⟨y, w⟩ heq
    cases heq
    rfl
  exact List.map_injective_iff.mpr hinjective (h.symm.trans h')

theorem bindsFrom_nil {i : Nat} {v : Value} {binds : List (String × Value)} :
    BindsFrom i [] v binds ↔ binds = [] := by
  rw [BindsFrom, sitesFrom, List.map_nil, eq_comm, List.map_eq_nil_iff]

/-- The bindings of the pattern for one argument come before those for the others. -/
theorem bindsFrom_cons {i : Nat} {p : Pattern} {ps : List Pattern} {v w : Value}
    {binds : List (String × Value)} (hw : v.args[i]? = some w) :
    BindsFrom i (p :: ps) v binds ↔
      ∃ here rest, binds = here ++ rest ∧ p.Binds w here ∧ BindsFrom (i + 1) ps v rest := by
  have hsites : (p.sites.map fun s ↦ (s.1, i :: s.2)).map (fun s ↦ (s.1, v.argAt? s.2)) =
      p.sites.map fun s ↦ (s.1, w.argAt? s.2) := by
    rw [List.map_map]
    refine List.map_congr_left fun s _ ↦ ?_
    simp only [Function.comp_apply, Value.argAt?, hw, Option.bind_some]
  rw [BindsFrom, sitesFrom, List.map_append, hsites, eq_comm, List.map_eq_append_iff]
  simp only [Binds, BindsFrom, eq_comm]

/-! ### Matching one pattern -/

mutual

theorem matchOnto_of_fits : ∀ {p : Pattern} {v : Value}, p.Fits v →
    ∃ binds, p.Binds v binds ∧ ∀ old, p.matchOnto v old = (true, old ++ binds)
  | .wildcard, _, _ => ⟨[], rfl, fun old ↦ by rw [matchOnto, List.append_nil]⟩
  | .binder x, v, _ => ⟨[(x, v)], rfl, fun _ ↦ rfl⟩
  | .constructor c ps, v, hfits => by
    cases hfits with
    | @constructor _ tyName _ targs args h =>
      obtain ⟨binds, hbinds, hmatch⟩ :=
        matchAllOnto_of_fits (v := .data tyName c targs args) (i := 0) h rfl
      refine ⟨binds, hbinds, fun old ↦ ?_⟩
      rw [matchOnto, if_pos ⟨rfl, h.length_eq.symm⟩, hmatch]

-- The induction goes along the arguments from number `i` on, while positions are those in `v`.
theorem matchAllOnto_of_fits {v : Value} : ∀ {i : Nat} {ps : List Pattern} {ws : List Value},
    List.Forall₂ Fits ps ws → v.args.drop i = ws →
      ∃ binds, BindsFrom i ps v binds ∧ ∀ old, matchAllOnto ps ws old = (true, old ++ binds)
  | _, [], [], _, _ => ⟨[], rfl, fun old ↦ by simp [matchAllOnto]⟩
  | _, p :: ps, w :: ws, .cons hp hps, hdrop => by
    obtain ⟨hw, hws⟩ := Value.args_of_drop hdrop
    obtain ⟨here, hhere, hmatch⟩ := matchOnto_of_fits hp
    obtain ⟨rest, hrest, hmatchAll⟩ := matchAllOnto_of_fits hps hws
    refine ⟨here ++ rest, (bindsFrom_cons hw).mpr ⟨here, rest, rfl, hhere, hrest⟩, fun old ↦ ?_⟩
    rw [matchAllOnto, hmatch, ← List.append_assoc]
    exact hmatchAll _

end

mutual

theorem fits_of_matchOnto : ∀ {p : Pattern} {v : Value} {old new : List (String × Value)},
    p.matchOnto v old = (true, new) → p.Fits v
  | .wildcard, v, _, _, _ => .wildcard v
  | .binder x, v, _, _, _ => .binder x v
  | .constructor c ps, v, _, _, h => by
    cases v with
    | data tyName c' targs args =>
      rw [matchOnto] at h
      split at h
      · next hhead =>
        obtain ⟨rfl, hlength⟩ := hhead
        exact .constructor (fits_of_matchAllOnto hlength h)
      · cases h
    | _ => cases h

theorem fits_of_matchAllOnto : ∀ {ps : List Pattern} {vs : List Value}
    {old new : List (String × Value)}, vs.length = ps.length →
    matchAllOnto ps vs old = (true, new) → List.Forall₂ Fits ps vs
  | [], [], _, _, _, _ => .nil
  | p :: ps, v :: vs, _, _, hlength, h => by
    rw [matchAllOnto] at h
    split at h
    · next hp =>
      exact .cons (fits_of_matchOnto hp) (fits_of_matchAllOnto (Nat.succ.inj hlength) h)
    · cases h

end

/-- A match succeeds on the values that the pattern fits, and adds its bindings to those there
are. -/
theorem matchOnto_eq_true_iff {p : Pattern} {v : Value} {old new : List (String × Value)} :
    p.matchOnto v old = (true, new) ↔ p.Fits v ∧ ∃ binds, p.Binds v binds ∧ new = old ++ binds := by
  constructor
  · intro h
    have hfits := fits_of_matchOnto h
    obtain ⟨binds, hbinds, hmatch⟩ := matchOnto_of_fits hfits
    exact ⟨hfits, binds, hbinds, (Prod.mk.inj (h.symm.trans (hmatch old))).2⟩
  · rintro ⟨hfits, binds, hbinds, rfl⟩
    obtain ⟨binds', hbinds', hmatch⟩ := matchOnto_of_fits hfits
    rw [hmatch old, hbinds.unique hbinds']

/-! ### The first match -/

theorem firstMatch_cons_of_fits {p : Pattern} {v : Value} {binds : List (String × Value)}
    (hfits : p.Fits v) (hbinds : p.Binds v binds) (ps : List Pattern) :
    firstMatch (p :: ps) v = some (0, binds) := by
  have hmatch : p.matchOnto v [] = (true, binds) :=
    matchOnto_eq_true_iff.mpr ⟨hfits, binds, hbinds, rfl⟩
  rw [firstMatch, hmatch]

theorem firstMatch_cons_of_not_fits {p : Pattern} {v : Value} (h : ¬ p.Fits v) (ps : List Pattern) :
    firstMatch (p :: ps) v = (firstMatch ps v).map fun r ↦ (r.1 + 1, r.2) := by
  rw [firstMatch]
  split
  · next hmatch => exact absurd (fits_of_matchOnto hmatch) h
  · rfl

theorem firstMatch_eq_some_iff {ps : List Pattern} {v : Value} {i : Nat}
    {binds : List (String × Value)} :
    firstMatch ps v = some (i, binds) ↔
      (∃ p, ps[i]? = some p ∧ p.Fits v ∧ p.Binds v binds) ∧ ∀ q ∈ ps.take i, ¬ q.Fits v := by
  induction ps generalizing i with
  | nil => simp [firstMatch]
  | cons p ps ih =>
    by_cases hp : p.Fits v
    · obtain ⟨own, hown, -⟩ := matchOnto_of_fits hp
      rw [firstMatch_cons_of_fits hp hown]
      cases i with
      | zero =>
        constructor
        · intro h
          cases h
          exact ⟨⟨p, rfl, hp, hown⟩, nofun⟩
        · rintro ⟨⟨q, hq, -, hbinds⟩, -⟩
          cases hq
          rw [hown.unique hbinds]
      -- the pattern in front fits, so no later position is the first
      | succ i => simp [hp]
    · rw [firstMatch_cons_of_not_fits hp]
      cases i with
      | zero => simp [hp]
      | succ i => simp [hp, ← ih]

theorem firstMatch_eq_none_iff {ps : List Pattern} {v : Value} :
    firstMatch ps v = none ↔ ∀ p ∈ ps, ¬ p.Fits v := by
  induction ps with
  | nil => simp [firstMatch]
  | cons p ps ih =>
    rw [List.forall_mem_cons]
    by_cases hp : p.Fits v
    · obtain ⟨binds, hbinds, -⟩ := matchOnto_of_fits hp
      simp [firstMatch_cons_of_fits hp hbinds, hp]
    · rw [firstMatch_cons_of_not_fits hp, Option.map_eq_none_iff, ih]
      exact (and_iff_right hp).symm

/-! ### What a match binds -/

theorem Binds.exists_site {p : Pattern} {v : Value} {binds : List (String × Value)}
    (h : p.Binds v binds) {b : String × Value} (hb : b ∈ binds) :
    ∃ s ∈ p.sites, s.1 = b.1 ∧ v.argAt? s.2 = some b.2 := by
  have hmem : (b.1, some b.2) ∈ binds.map fun b ↦ (b.1, some b.2) := List.mem_map_of_mem hb
  rw [← h] at hmem
  obtain ⟨s, hs, heq⟩ := List.mem_map.mp hmem
  exact ⟨s, hs, Prod.mk.inj heq⟩

/-- What passes from values to their arguments passes to what a match binds. -/
theorem forall_of_firstMatch {q : Value → Prop} (hargs : ∀ v, q v → ∀ w ∈ v.args, q w)
    {ps : List Pattern} {v : Value} {i : Nat} {binds : List (String × Value)}
    (h : firstMatch ps v = some (i, binds)) (hv : q v) : ∀ b ∈ binds, q b.2 := by
  intro b hb
  obtain ⟨⟨p, -, -, hbinds⟩, -⟩ := firstMatch_eq_some_iff.mp h
  obtain ⟨s, -, -, hs⟩ := hbinds.exists_site hb
  exact Value.of_argAt? hargs hv hs

/-! ### Filling a pattern -/

mutual

theorem fill?_of_fits : ∀ {p : Pattern} {v : Value} {binds : List (String × Value)},
    p.WildcardFree → p.Fits v → p.Binds v binds → ∀ left,
      ∃ w, p.fill? (binds.map Prod.snd ++ left) = some (w, left) ∧ w.SameButTypes v
  | .binder x, v, binds, _, _, hbinds, left => by
    obtain rfl : binds = [(x, v)] := hbinds.unique rfl
    exact ⟨v, rfl, .refl v⟩
  | .constructor c ps, v, binds, .constructor hfree, hfits, hbinds, left => by
    cases hfits with
    | constructor h =>
      obtain ⟨ws, hfill, hsame⟩ := fillAll?_of_fits hfree h rfl hbinds left
      refine ⟨.data "" c [] ws, ?_, .data hsame⟩
      rw [fill?, hfill, Option.map_some]

theorem fillAll?_of_fits {v : Value} : ∀ {i : Nat} {ps : List Pattern} {ws : List Value}
    {binds : List (String × Value)}, (∀ p ∈ ps, WildcardFree p) → List.Forall₂ Fits ps ws →
      v.args.drop i = ws → BindsFrom i ps v binds → ∀ left,
        ∃ us, fillAll? ps (binds.map Prod.snd ++ left) = some (us, left) ∧
          List.Forall₂ Value.SameButTypes us ws
  | _, [], [], _, _, _, _, hbinds, left => by
    obtain rfl := bindsFrom_nil.mp hbinds
    exact ⟨[], rfl, .nil⟩
  | _, p :: ps, w :: ws, _, hfree, .cons hp hps, hdrop, hbinds, left => by
    obtain ⟨hpfree, hpsfree⟩ := List.forall_mem_cons.mp hfree
    obtain ⟨hw, hws⟩ := Value.args_of_drop hdrop
    obtain ⟨here, rest, rfl, hhere, hrest⟩ := (bindsFrom_cons hw).mp hbinds
    obtain ⟨u, hfill, hsame⟩ := fill?_of_fits hpfree hp hhere (rest.map Prod.snd ++ left)
    obtain ⟨us, hfillAll, hsameAll⟩ := fillAll?_of_fits hpsfree hps hws hrest left
    refine ⟨u :: us, ?_, .cons hsame hsameAll⟩
    rw [List.map_append, List.append_assoc, fillAll?, hfill]
    show (fillAll? ps _).bind _ = _
    rw [hfillAll]
    rfl

end

end Pattern

/-- Matching takes the first pattern that fits, and is faithful. A match of a list of patterns ends
at position `i` with bindings `binds` if and only if the pattern there fits the value, none before
it does, and `binds` are the binders of that pattern from left to right, each with the part of the
value at its position: nothing is left of the patterns that were tried before, however much of the
value they had matched. There is no match if and only if no pattern fits. A pattern without wildcards
that fits the value gives it back, up to the type names and type arguments of constructor values,
when its binders are replaced in order by the values that are bound. -/
theorem matching_faithful (ps : List Pattern) (v : Value) :
    (∀ i binds, Pattern.firstMatch ps v = some (i, binds) ↔
      (∃ p, ps[i]? = some p ∧ p.Fits v ∧ p.Binds v binds) ∧ ∀ q ∈ ps.take i, ¬ q.Fits v) ∧
    (Pattern.firstMatch ps v = none ↔ ∀ p ∈ ps, ¬ p.Fits v) ∧
    ∀ (p : Pattern) binds, p.WildcardFree → p.Fits v → p.Binds v binds →
      ∃ w, p.fill? (binds.map Prod.snd) = some (w, []) ∧ w.SameButTypes v := by
  refine ⟨fun i binds ↦ Pattern.firstMatch_eq_some_iff, Pattern.firstMatch_eq_none_iff, ?_⟩
  intro p binds hfree hfits hbinds
  obtain ⟨w, hfill, hsame⟩ := Pattern.fill?_of_fits hfree hfits hbinds []
  rw [List.append_nil] at hfill
  exact ⟨w, hfill, hsame⟩

namespace Parcel

def weight : Value := .int (.ofUInt32 7)

/-- A parcel with a label. -/
def value : Value :=
  .pair .uint32 (.option .string) weight (.present .string (.str "fragile"))

/-- The pattern of parcels without a label. It binds the weight before it fails. -/
def plain : Pattern := .constructor "Pair" [.binder "plain", .constructor "None" []]

def labelled : Pattern :=
  .constructor "Pair" [.binder "weight", .constructor "Some" [.binder "label"]]

end Parcel

theorem matching_faithful_parcel :
    Parcel.plain.matchOnto Parcel.value [] = (false, [("plain", Parcel.weight)]) ∧
      Pattern.firstMatch [Parcel.plain, Parcel.labelled] Parcel.value =
        some (1, [("weight", Parcel.weight), ("label", .str "fragile")]) ∧
      Parcel.labelled.WildcardFree ∧ Parcel.labelled.Fits Parcel.value ∧
      Parcel.labelled.Binds Parcel.value [("weight", Parcel.weight), ("label", .str "fragile")] ∧
      ∃ w, Parcel.labelled.fill? [Parcel.weight, .str "fragile"] = some (w, []) ∧
        w.SameButTypes Parcel.value := by
  have hmatch : Pattern.firstMatch [Parcel.plain, Parcel.labelled] Parcel.value =
      some (1, [("weight", Parcel.weight), ("label", .str "fragile")]) := by rfl
  have hfree : Parcel.labelled.WildcardFree :=
    .constructor (by simpa using ⟨.binder _, .constructor (by simpa using .binder _)⟩)
  obtain ⟨hfirst, -, hfill⟩ := matching_faithful [Parcel.plain, Parcel.labelled] Parcel.value
  obtain ⟨⟨p, hp, hfits, hbinds⟩, -⟩ := (hfirst _ _).mp hmatch
  cases hp
  exact ⟨rfl, hmatch, hfree, hfits, hbinds, hfill _ _ hfree hfits hbinds⟩

end MeteredContract
