import MeteredContract.Admission
import MeteredContract.Proofs.Run
import MeteredContract.Proofs.Ty.Variables
import Mathlib.Data.List.Basic

/-!
What a check of a value against a type looks at. The head of the value has to fit the type
(`Value.HasHead`). A type also gives types to some parts of the value: to the keys and values of a
map and to the arguments of options, lists and pairs (`Value.typedParts`). A check succeeds if and
only if the head fits and the checks of these parts succeed (`Value.accepts_iff`), and it yields
what they yield, in their order (`Value.checkType_eq_ok`).

Erasing a type changes neither which parts it gives types to nor which heads fit it, so the erased
type accepts the same values (`Value.accepts_erase`). It yields no checks
(`Value.checks_eq_nil_of_erase`).
-/

set_option autoImplicit false
set_option relaxedAutoImplicit false

namespace MeteredContract

namespace Value

/-- The parts of a value to which a type gives types, in the order in which they are checked. The
entries of a map stand in the order of their keys. What a list has after its head is a list of the
same type. -/
def typedParts : Value → Ty → List (Value × Ty)
  | .map m, .map k v => m.entries.flatMap fun e ↦ [(e.1, k), (e.2, v)]
  | .data "Option" "Some" _ [v], .data "Option" [t] => [(v, t)]
  | .data "List" "Cons" _ [head, tail], .data "List" [t] => [(head, t), (tail, .list t)]
  | .data "Pair" "Pair" _ [v, v'], .data "Pair" [t, t'] => [(v, t), (v', t')]
  | _, _ => []

/-- The type that is read off the value is the given one up to address types, or the value is a
message and stands for an event or an exception. -/
def HasHead (v : Value) (t : Ty) : Prop :=
  v.typeOf?.map Ty.erase = some t.erase ∨
    (∃ es, v = .message es) ∧ (t = .prim .event ∨ t = .prim .exception)

/-- The check that an address yields by itself. -/
def headChecks (name : String) : Value → Ty → List PendingCheck
  | .bystrx b, .address a => [⟨name, b, a⟩]
  | _, _ => []

/-- Check values against types, one after the other. -/
def checkParts (name : String) : List (Value × Ty) → Except Cause (List PendingCheck)
  | [] => .ok []
  | part :: parts => do
    let first ← part.1.checkType name part.2
    let rest ← checkParts name parts
    return first ++ rest

variable {name : String} {v : Value} {t : Ty}

/-! ### Heads -/

theorem hasHead_address {a : AddressTy} :
    v.HasHead (.address a) ↔ ∃ bytes, v = .bystrx bytes ∧ bytes.length = addressWidth := by
  cases v with
  | bystrx bytes =>
    simp only [HasHead, typeOf?]
    split
    · simp [Ty.erase, Ty.bystrx, Ty.bystr20]
    · next hwide =>
      have hne : bytes.length ≠ addressWidth := fun heq ↦ hwide (by rw [heq]; decide)
      simpa using hne
  | _ => simp [HasHead, typeOf?, Ty.erase, Ty.int, Ty.string, Ty.bnum, Ty.bystr, Ty.message,
      Ty.bystr20, Ty.bystrx, addressWidth]

theorem hasHead_map {key val : Ty} :
    v.HasHead (.map key val) ↔
      ∃ m : MapValue, v = .map m ∧ m.keyTy.erase = key.erase ∧ m.valTy.erase = val.erase := by
  cases v <;> simp [HasHead, typeOf?, Ty.erase, Ty.int, Ty.string, Ty.bnum, Ty.bystr, Ty.message,
    Ty.bystrx]

theorem hasHead_data {tyName : String} {ts : List Ty} :
    v.HasHead (.data tyName ts) ↔ ∃ constructor targs args,
      v = .data tyName constructor targs args ∧ Ty.eraseAll targs = Ty.eraseAll ts := by
  cases v <;> simp [HasHead, typeOf?, Ty.erase, Ty.int, Ty.string, Ty.bnum, Ty.bystr, Ty.message,
    Ty.bystrx]

theorem hasHead_prim {p : PrimTy} :
    v.HasHead (.prim p) ↔ v.typeOf? = some (.prim p) ∨
      (∃ es, v = .message es) ∧ (p = .event ∨ p = .exception) := by
  cases v with
  | bystrx bytes =>
    simp only [HasHead, typeOf?]
    split <;> simp [Ty.erase, Ty.bystrx]
  | _ => simp [HasHead, typeOf?, Ty.erase, Ty.int, Ty.string, Ty.bnum, Ty.bystr, Ty.message]

theorem hasHead_erase : v.HasHead t.erase ↔ v.HasHead t := by
  rw [HasHead, HasHead, Ty.erase_erase, Ty.erase_eq_prim (by decide),
    Ty.erase_eq_prim (by decide)]

theorem headChecks_eq_nil (v : Value) (h : t.isAddress = false) : v.headChecks name t = [] := by
  unfold headChecks
  split
  · cases h
  · rfl

/-! ### Parts -/

theorem typedParts_prim (v : Value) (p : PrimTy) : v.typedParts (.prim p) = [] := by
  unfold typedParts
  split <;> first | contradiction | rfl

theorem mem_typedParts_data {tyName constructor : String} {targs : List Ty} {args : List Value}
    {part : Value × Ty} (h : part ∈ (data tyName constructor targs args).typedParts t) :
    part.1 ∈ args := by
  unfold typedParts at h
  split at h
  · next heq => cases heq
  · next heq =>
    cases heq
    rw [List.mem_singleton.mp h]
    exact List.mem_cons_self
  · next heq =>
    cases heq
    obtain rfl | rfl := List.mem_pair.mp h
    · exact List.mem_cons_self
    · exact List.mem_cons_of_mem _ List.mem_cons_self
  · next heq =>
    cases heq
    obtain rfl | rfl := List.mem_pair.mp h
    · exact List.mem_cons_self
    · exact List.mem_cons_of_mem _ List.mem_cons_self
  · cases h

theorem mem_typedParts_map {m : MapValue} {part : Value × Ty} (h : part ∈ (map m).typedParts t) :
    ∃ e ∈ m.entries, part.1 = e.1 ∨ part.1 = e.2 := by
  cases t with
  | map key val =>
    obtain ⟨e, he, hpart⟩ := List.mem_flatMap.mp h
    exact ⟨e, he, (List.mem_pair.mp hpart).imp (congrArg Prod.fst) (congrArg Prod.fst)⟩
  | _ => cases h

/-- What holds of a value at a type if it holds of the parts at the types that they are given. -/
theorem inductionOnParts {motive : Value → Ty → Prop}
    (step : ∀ v t, (∀ part ∈ v.typedParts t, motive part.1 part.2) → motive v t) (v : Value)
    (t : Ty) : motive v t := by
  induction v generalizing t with
  | data tyName constructor targs args ih =>
    exact step _ t fun part hpart ↦ ih part.1 (mem_typedParts_data hpart) part.2
  | map m ih =>
    refine step _ t fun part hpart ↦ ?_
    obtain ⟨e, he, heq | heq⟩ := mem_typedParts_map hpart
    · rw [heq]
      exact (ih e he).1 part.2
    · rw [heq]
      exact (ih e he).2 part.2
  | _ => exact step _ t nofun

theorem typedParts_erase (v : Value) (t : Ty) :
    v.typedParts t.erase = (v.typedParts t).map fun part ↦ (part.1, part.2.erase) := by
  fun_cases typedParts v t with
  | case1 m key val =>
    rw [List.map_flatMap]
    rfl
  | case2 | case3 | case4 => rfl
  | case5 =>
    -- The erased type has the shape of the type, so it gives no types to parts either.
    unfold typedParts
    split
    · next heq hmap _ _ _ =>
      obtain ⟨key, val, rfl⟩ := Ty.erase_eq_map heq
      exact absurd rfl (hmap _ _ _ rfl)
    · next heq _ hsome _ _ =>
      obtain ⟨ts, rfl, hts⟩ := Ty.erase_eq_data heq
      obtain ⟨t, rfl, -⟩ := List.map_eq_singleton_iff.mp hts
      exact absurd rfl (hsome _ _ _ rfl)
    · next heq _ _ hcons _ =>
      obtain ⟨ts, rfl, hts⟩ := Ty.erase_eq_data heq
      obtain ⟨t, rfl, -⟩ := List.map_eq_singleton_iff.mp hts
      exact absurd rfl (hcons _ _ _ _ rfl)
    · next heq _ _ _ hpair =>
      obtain ⟨ts, rfl, hts⟩ := Ty.erase_eq_data heq
      obtain ⟨t, ts, rfl, -, hts⟩ := List.map_eq_cons_iff.mp hts
      obtain ⟨t', rfl, -⟩ := List.map_eq_singleton_iff.mp hts
      exact absurd rfl (hpair _ _ _ _ _ rfl)
    · rfl

/-! ### Checking the parts -/

theorem checkParts_singleton (v : Value) (t : Ty) :
    checkParts name [(v, t)] = v.checkType name t := by
  simp only [checkParts]
  cases v.checkType name t with
  | error c => rfl
  | ok first => exact congrArg Except.ok (List.append_nil first)

theorem checkParts_pair (v v' : Value) (t t' : Ty) :
    checkParts name [(v, t), (v', t')] = do
      let first ← v.checkType name t
      let rest ← v'.checkType name t'
      return first ++ rest := by
  rw [checkParts, checkParts_singleton]

theorem checkEntries_eq (es : List (Value × Value)) (key val : Ty) :
    checkEntries name es key val =
      checkParts name (es.flatMap fun e ↦ [(e.1, key), (e.2, val)]) := by
  induction es with
  | nil => rfl
  | cons e es ih =>
    rw [checkEntries, ih, List.flatMap_cons]
    simp only [List.cons_append, List.nil_append, checkParts]
    cases e.1.checkType name key with
    | error c => rfl
    | ok first =>
      cases e.2.checkType name val with
      | error c => rfl
      | ok second =>
        cases checkParts name _ with
        | error c => rfl
        | ok rest => exact congrArg Except.ok (List.append_assoc first second rest)

theorem checkType_prim {p : PrimTy} (h : v.typeOf? = some (.prim p)) :
    v.checkType name (.prim p) = .ok [] := by
  unfold checkType
  split
  case h_7 heq =>
    cases heq
    exact if_pos h
  case h_8 hprim _ _ _ _ _ _ => exact absurd rfl (hprim p)
  all_goals first | contradiction | rfl

theorem checkType_data {tyName constructor : String} {targs ts : List Ty} {args : List Value}
    (h : Ty.eraseAll targs = Ty.eraseAll ts) :
    (data tyName constructor targs args).checkType name (.data tyName ts) =
      checkParts name ((data tyName constructor targs args).typedParts (.data tyName ts)) := by
  unfold checkType
  rw [if_pos ⟨rfl, h⟩]
  split
  · exact (checkParts_singleton _ _).symm
  · exact (checkParts_pair _ _ _ _).symm
  · exact (checkParts_pair _ _ _ _).symm
  · next hsome hcons hpair =>
    unfold typedParts
    split
    · next heq _ => cases heq
    · next heq heq' =>
      cases heq
      cases heq'
      exact (hsome _ _ rfl rfl rfl rfl).elim
    · next heq heq' =>
      cases heq
      cases heq'
      exact (hcons _ _ _ rfl rfl rfl rfl).elim
    · next heq heq' =>
      cases heq
      cases heq'
      exact (hpair _ _ _ _ rfl rfl rfl rfl).elim
    · rfl

theorem checkType_of_hasHead (h : v.HasHead t) :
    v.checkType name t = do
      let checks ← checkParts name (v.typedParts t)
      return v.headChecks name t ++ checks := by
  cases t with
  | prim p =>
    rw [typedParts_prim, headChecks_eq_nil v rfl]
    obtain htype | ⟨⟨es, rfl⟩, rfl | rfl⟩ := hasHead_prim.mp h
    · exact checkType_prim htype
    · rfl
    · rfl
  | address a =>
    obtain ⟨bytes, rfl, hlen⟩ := hasHead_address.mp h
    exact if_pos hlen
  | map key val =>
    obtain ⟨m, rfl, htys⟩ := hasHead_map.mp h
    rw [headChecks_eq_nil _ rfl]
    calc (map m).checkType name (.map key val)
      _ = checkEntries name m.entries key val := if_pos htys
      _ = checkParts name ((map m).typedParts (.map key val)) := checkEntries_eq _ _ _
      _ = _ := (bind_pure _).symm
  | data tyName ts =>
    obtain ⟨constructor, targs, args, rfl, hts⟩ := hasHead_data.mp h
    rw [headChecks_eq_nil _ rfl, checkType_data hts]
    exact (bind_pure _).symm
  | fn | var | poly | unit =>
    cases v <;> simp [HasHead, typeOf?, Ty.erase, Ty.int, Ty.string, Ty.bnum, Ty.bystr, Ty.message,
      Ty.bystrx] at h

theorem checkType_of_not_hasHead (h : ¬ v.HasHead t) :
    v.checkType name t = .error (notAssignable name t v) := by
  unfold checkType
  split
  · exact if_neg fun hlen ↦ h (hasHead_address.mpr ⟨_, rfl, hlen⟩)
  · exact absurd (hasHead_prim.mpr (.inl rfl)) h
  · exact absurd (hasHead_prim.mpr (.inr ⟨⟨_, rfl⟩, .inl rfl⟩)) h
  · exact absurd (hasHead_prim.mpr (.inr ⟨⟨_, rfl⟩, .inr rfl⟩)) h
  · exact if_neg fun htys ↦ h (hasHead_map.mpr ⟨_, rfl, htys⟩)
  · refine if_neg fun htys ↦ h (hasHead_data.mpr ?_)
    obtain ⟨rfl, hts⟩ := htys
    exact ⟨_, _, _, rfl, hts⟩
  · exact if_neg fun htype ↦ h (hasHead_prim.mpr (.inl htype))
  · rfl

theorem checkType_eq_ok {checks : List PendingCheck} :
    v.checkType name t = .ok checks ↔
      v.HasHead t ∧ ∃ rest, checkParts name (v.typedParts t) = .ok rest ∧
        v.headChecks name t ++ rest = checks := by
  by_cases h : v.HasHead t
  · rw [checkType_of_hasHead h, and_iff_right h, except_bind_eq_ok]
    exact exists_congr fun rest ↦ and_congr_right' (Except.ok.injEq _ _).to_iff
  · rw [checkType_of_not_hasHead h]
    exact ⟨nofun, fun hhead ↦ absurd hhead.1 h⟩

/-! ### Accepted values -/

/-- The check of the value against the type succeeds. -/
def Accepts (name : String) (v : Value) (t : Ty) : Prop :=
  ∃ checks, v.checkType name t = .ok checks

theorem exists_checkParts_eq_ok {parts : List (Value × Ty)} :
    (∃ checks, checkParts name parts = .ok checks) ↔
      ∀ part ∈ parts, part.1.Accepts name part.2 := by
  induction parts with
  | nil => exact ⟨fun _ ↦ List.forall_mem_nil _, fun _ ↦ ⟨[], rfl⟩⟩
  | cons part parts ih =>
    rw [List.forall_mem_cons, ← ih]
    constructor
    · rintro ⟨checks, h⟩
      obtain ⟨first, hfirst, h⟩ := except_bind_eq_ok.mp h
      obtain ⟨rest, hrest, -⟩ := except_bind_eq_ok.mp h
      exact ⟨⟨first, hfirst⟩, rest, hrest⟩
    · rintro ⟨⟨first, hfirst⟩, rest, hrest⟩
      refine ⟨first ++ rest, ?_⟩
      rw [checkParts, hfirst, hrest]
      rfl

theorem accepts_iff :
    v.Accepts name t ↔ v.HasHead t ∧ ∀ part ∈ v.typedParts t, part.1.Accepts name part.2 := by
  rw [← exists_checkParts_eq_ok]
  constructor
  · rintro ⟨checks, h⟩
    obtain ⟨hhead, rest, hrest, -⟩ := checkType_eq_ok.mp h
    exact ⟨hhead, rest, hrest⟩
  · rintro ⟨hhead, rest, hrest⟩
    exact ⟨_, checkType_eq_ok.mpr ⟨hhead, rest, hrest, rfl⟩⟩

theorem accepts_erase : v.Accepts name t.erase ↔ v.Accepts name t := by
  induction v, t using inductionOnParts with
  | step v t ih =>
    rw [accepts_iff, accepts_iff, hasHead_erase, typedParts_erase, List.forall_mem_map]
    exact and_congr_right' (forall₂_congr ih)

theorem checkParts_eq_nil {parts : List (Value × Ty)} {checks : List PendingCheck}
    (hparts : ∀ part ∈ parts, ∀ checks, part.1.checkType name part.2 = .ok checks → checks = [])
    (h : checkParts name parts = .ok checks) : checks = [] := by
  induction parts generalizing checks with
  | nil =>
    cases h
    rfl
  | cons part parts ih =>
    obtain ⟨hpart, hparts⟩ := List.forall_mem_cons.mp hparts
    obtain ⟨first, hfirst, h⟩ := except_bind_eq_ok.mp h
    obtain ⟨rest, hrest, h⟩ := except_bind_eq_ok.mp h
    cases h
    rw [hpart first hfirst, ih hparts hrest, List.nil_append]

theorem checks_eq_nil_of_erase {checks : List PendingCheck}
    (h : v.checkType name t.erase = .ok checks) : checks = [] := by
  induction v, t using inductionOnParts generalizing checks with
  | step v t ih =>
    obtain ⟨-, rest, hrest, rfl⟩ := checkType_eq_ok.mp h
    rw [typedParts_erase] at hrest
    have hnil : rest = [] :=
      checkParts_eq_nil (List.forall_mem_map.mpr fun part hpart _ ↦ ih part hpart) hrest
    rw [hnil, headChecks_eq_nil v t.isAddress_erase, List.nil_append]

end Value

end MeteredContract
