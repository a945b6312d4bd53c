import MeteredContract.Proofs.Admission.Parts
import Mathlib.Data.List.Forall2

/-!
The checks that an accepted value leaves for the chain. A position in a value is given by the
numbers of the parts on the way to it, and a type gives types to the values at some positions
(`Value.typedAt`). A check of the value against the type yields one check for each position that is
given an address type, in the order in which the value is walked through (`Value.Defers`). A type
without address types accepts the same values and yields none, so all that address types add are
these checks (`addresses_only_defer`).
-/

set_option autoImplicit false
set_option relaxedAutoImplicit false

namespace MeteredContract

namespace Value

/-- The value at a position, with the type that it is given there. -/
def typedAt (v : Value) (t : Ty) : List Nat → Option (Value × Ty)
  | [] => some (v, t)
  | i :: p => (v.typedParts t)[i]?.bind fun part ↦ part.1.typedAt part.2 p
termination_by structural p => p

/-- The value at a position that starts with the number of a part, with its type. -/
def partAt (parts : List (Value × Ty)) : List Nat → Option (Value × Ty)
  | [] => none
  | i :: p => parts[i]?.bind fun part ↦ part.1.typedAt part.2 p

/-- The checks are those of the positions that are given an address type: one for each of them, in
the order of the positions, with the parameter that the value came with, the address that stands
there and the address type. -/
structure Defers (name : String) (typed : List Nat → Option (Value × Ty))
    (positions : List (List Nat)) (checks : List PendingCheck) : Prop where
  ordered : positions.Pairwise (· < ·)
  mem_iff : ∀ p, p ∈ positions ↔ ∃ w a, typed p = some (w, .address a)
  each : List.Forall₂ (fun p c ↦ c.name = name ∧ c.address.length = addressWidth ∧
    typed p = some (.bystrx c.address, .address c.ty)) positions checks

variable {name : String} {v : Value} {t : Ty}

/-! ### Positions in lists of parts -/

/-- The position when there is one more part in front. -/
def nextPart : List Nat → List Nat
  | [] => []
  | i :: p => (i + 1) :: p

theorem nextPart_lt {p q : List Nat} (h : p < q) : nextPart p < nextPart q := by
  cases p with
  | nil =>
    cases q with
    | nil => exact h
    | cons j q => exact List.nil_lt_cons _ _
  | cons i p =>
    cases q with
    | nil => cases h
    | cons j q =>
      rw [List.cons_lt_cons_iff] at h
      exact List.cons_lt_cons_iff.mpr (h.imp Nat.succ_lt_succ (And.imp_left (congrArg Nat.succ)))

theorem partAt_cons_nextPart (part : Value × Ty) (parts : List (Value × Ty)) (p : List Nat) :
    partAt (part :: parts) (nextPart p) = partAt parts p := by
  cases p <;> rfl

/-- Positions in the first part come before those in the others. -/
theorem Defers.cons {part : Value × Ty} {parts : List (Value × Ty)} {ps qs : List (List Nat)}
    {first rest : List PendingCheck} (hfirst : Defers name (part.1.typedAt part.2) ps first)
    (hrest : Defers name (partAt parts) qs rest) :
    Defers name (partAt (part :: parts)) (ps.map (0 :: ·) ++ qs.map nextPart) (first ++ rest) where
  ordered := by
    have hlt : ∀ p ∈ ps.map (0 :: ·), ∀ q ∈ qs.map nextPart, p < q := by
      rw [List.forall_mem_map]
      intro p _
      rw [List.forall_mem_map]
      intro q hq
      cases q with
      | nil =>
        obtain ⟨w, a, hnone⟩ := (hrest.mem_iff []).mp hq
        cases hnone
      | cons j q => exact List.cons_lt_cons_iff.mpr (.inl j.succ_pos)
    rw [List.pairwise_append, List.pairwise_map, List.pairwise_map]
    exact ⟨hfirst.ordered.imp fun h ↦ List.cons_lt_cons_iff.mpr (.inr ⟨rfl, h⟩),
      hrest.ordered.imp nextPart_lt, hlt⟩
  mem_iff p := by
    rw [List.mem_append, List.mem_map, List.mem_map]
    constructor
    · rintro (⟨p, hp, rfl⟩ | ⟨q, hq, rfl⟩)
      · exact (hfirst.mem_iff p).mp hp
      · rw [partAt_cons_nextPart]
        exact (hrest.mem_iff q).mp hq
    · rintro ⟨w, a, h⟩
      match p, h with
      | 0 :: p, h => exact .inl ⟨p, (hfirst.mem_iff p).mpr ⟨w, a, h⟩, rfl⟩
      | (i + 1) :: p, h => exact .inr ⟨i :: p, (hrest.mem_iff (i :: p)).mpr ⟨w, a, h⟩, rfl⟩
  each := by
    refine List.rel_append (List.forall₂_map_left_iff.mpr hfirst.each)
      (List.forall₂_map_left_iff.mpr (hrest.each.imp fun q c h ↦ ?_))
    rw [partAt_cons_nextPart]
    exact h

theorem defers_of_checkParts {parts : List (Value × Ty)} {checks : List PendingCheck}
    (hparts : ∀ part ∈ parts, ∀ checks, part.1.checkType name part.2 = .ok checks →
      ∃ positions, Defers name (part.1.typedAt part.2) positions checks)
    (h : checkParts name parts = .ok checks) :
    ∃ positions, Defers name (partAt parts) positions checks := by
  induction parts generalizing checks with
  | nil =>
    cases h
    refine ⟨[], .nil, fun p ↦ ⟨nofun, ?_⟩, .nil⟩
    rintro ⟨w, a, h⟩
    cases p <;> cases h
  | cons part parts ih =>
    obtain ⟨hpart, hparts⟩ := List.forall_mem_cons.mp hparts
    obtain ⟨first, hfirst, h⟩ := except_bind_eq_ok.mp h
    obtain ⟨rest, hrest, h⟩ := except_bind_eq_ok.mp h
    cases h
    obtain ⟨ps, hps⟩ := hpart first hfirst
    obtain ⟨qs, hqs⟩ := ih hparts hrest
    exact ⟨_, hps.cons hqs⟩

/-! ### Positions in values -/

/-- The value as a whole stands at no address type if the type is none. -/
theorem typedAt_eq_some_address (h : t.isAddress = false) {p : List Nat} {w : Value}
    {a : AddressTy} : v.typedAt t p = some (w, .address a) ↔
      partAt (v.typedParts t) p = some (w, .address a) := by
  cases p with
  | nil =>
    refine ⟨fun heq ↦ ?_, nofun⟩
    cases heq
    cases h
  | cons i p => exact Iff.rfl

theorem defers_address {bytes : List UInt8} (hlen : bytes.length = addressWidth) (a : AddressTy) :
    Defers name ((bystrx bytes).typedAt (.address a)) [[]] [⟨name, bytes, a⟩] where
  ordered := List.pairwise_singleton _ _
  mem_iff p := by
    cases p with
    | nil => exact ⟨fun _ ↦ ⟨_, _, rfl⟩, fun _ ↦ List.mem_singleton_self _⟩
    | cons i p => simp [typedAt, typedParts]
  each := .cons ⟨rfl, hlen, rfl⟩ .nil

theorem defers_of_checkType {checks : List PendingCheck} (h : v.checkType name t = .ok checks) :
    ∃ positions, Defers name (v.typedAt t) positions checks := by
  induction v, t using inductionOnParts generalizing checks with
  | step v t ih =>
    obtain ⟨hhead, rest, hrest, rfl⟩ := checkType_eq_ok.mp h
    cases haddress : t.isAddress with
    | true =>
      cases t with
      | address a =>
        obtain ⟨bytes, rfl, hlen⟩ := hasHead_address.mp hhead
        cases hrest
        exact ⟨_, defers_address hlen a⟩
      | _ => cases haddress
    | false =>
      rw [headChecks_eq_nil v haddress]
      obtain ⟨positions, hpos⟩ := defers_of_checkParts (fun part hpart _ ↦ ih part hpart) hrest
      refine ⟨positions, hpos.ordered, fun p ↦ ?_, hpos.each.imp fun p c hc ↦ ?_⟩
      · simp only [hpos.mem_iff, typedAt_eq_some_address haddress]
      · rw [typedAt_eq_some_address haddress]
        exact hc

end Value

/-- A value is accepted for a type if and only if it is for the type without address types, which
yields no checks. What an accepted value yields is one check for each position in it that the type
gives an address type, in the order in which the value is walked through: entries of maps by their
keys and key before value, heads of lists before what comes after them, and the left of a pair
before the right. The check names the parameter, the address that stands at the position and the
address type. -/
theorem addresses_only_defer (name : String) (v : Value) (t : Ty) :
    (v.Accepts name t ↔ v.Accepts name t.erase) ∧
      (∀ checks, v.checkType name t.erase = .ok checks → checks = []) ∧
      ∀ checks, v.checkType name t = .ok checks →
        ∃ positions, Value.Defers name (v.typedAt t) positions checks :=
  ⟨Value.accepts_erase.symm, fun _ ↦ Value.checks_eq_nil_of_erase,
    fun _ ↦ Value.defers_of_checkType⟩

namespace Escrow

def anyone : AddressTy := ⟨.any, []⟩

/-- Contracts that keep a balance. -/
def vault : AddressTy := ⟨.contract, [("balance", .uint128)]⟩

def party (b : UInt8) : Address := List.replicate addressWidth b

/-- Two witnesses and what is held for them. -/
def ty : Ty := .pair (.list (.address anyone)) (.map .uint32 (.address vault))

def deposit : Value :=
  .pair (.list .bystr20) (.map .uint32 .bystr20)
    (.list .bystr20 [.bystrx (party 1), .bystrx (party 2)])
    (.map ⟨.uint32, .bystr20, [(.int (.ofUInt32 7), .bystrx (party 3))]⟩)

end Escrow

theorem addresses_only_defer_escrow :
    Escrow.deposit.Accepts "deposit" Escrow.ty.erase ∧
      ∃ positions, Value.Defers "deposit" (Escrow.deposit.typedAt Escrow.ty) positions
        [⟨"deposit", Escrow.party 1, Escrow.anyone⟩, ⟨"deposit", Escrow.party 2, Escrow.anyone⟩,
          ⟨"deposit", Escrow.party 3, Escrow.vault⟩] := by
  have hrun : Escrow.deposit.checkType "deposit" Escrow.ty =
      .ok [⟨"deposit", Escrow.party 1, Escrow.anyone⟩, ⟨"deposit", Escrow.party 2, Escrow.anyone⟩,
        ⟨"deposit", Escrow.party 3, Escrow.vault⟩] := by rfl
  obtain ⟨haccepts, -, hdefers⟩ := addresses_only_defer "deposit" Escrow.deposit Escrow.ty
  exact ⟨haccepts.mp ⟨_, hrun⟩, hdefers _ hrun⟩

end MeteredContract
