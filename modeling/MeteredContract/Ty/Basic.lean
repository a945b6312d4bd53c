import MeteredContract.IntTy

/-!
Types of the contract language. Equality of types is structural and decided by `Ty.beq`; the
instance at the end makes it usable in conditions.
-/

set_option autoImplicit false
set_option relaxedAutoImplicit false

namespace MeteredContract

/-- Number of bytes of a contract address. -/
def addressWidth : Nat := 20

inductive PrimTy where
  | int (ty : IntTy)
  | string
  /-- Block numbers. -/
  | bnum
  /-- Byte strings of any length. -/
  | bystr
  /-- Byte strings of one length. -/
  | bystrx (width : Nat)
  | message
  | event
  | exception
  deriving DecidableEq

inductive AddressKind where
  /-- Any address in use. -/
  | any
  | library
  /-- A contract that declares certain fields. -/
  | contract
  deriving DecidableEq

/-- What an address type asks of the account: its kind and, for a contract, the fields it declares,
with types in `α`. -/
structure AddressOf (α : Type) where
  kind : AddressKind
  fields : List (String × α)

inductive Ty where
  | prim (p : PrimTy)
  | map (key val : Ty)
  | fn (arg res : Ty)
  /-- An algebraic datatype applied to type arguments. -/
  | data (name : String) (args : List Ty)
  | var (name : String)
  /-- A polymorphic type, binding the type variable `name` in `body`. -/
  | poly (name : String) (body : Ty)
  | unit
  | address (a : AddressOf Ty)

abbrev AddressTy : Type := AddressOf Ty

namespace Ty

def int (t : IntTy) : Ty := .prim (.int t)
def uint32 : Ty := int .uint32
def uint64 : Ty := int .uint64
def uint128 : Ty := int .uint128
def string : Ty := .prim .string
def bnum : Ty := .prim .bnum
def bystr : Ty := .prim .bystr
def bystrx (width : Nat) : Ty := .prim (.bystrx width)

/-- The type of addresses at run time. -/
def bystr20 : Ty := bystrx addressWidth

def message : Ty := .prim .message
def bool : Ty := .data "Bool" []
def option (t : Ty) : Ty := .data "Option" [t]
def list (t : Ty) : Ty := .data "List" [t]
def pair (a b : Ty) : Ty := .data "Pair" [a, b]

def isAddress : Ty → Bool
  | .address _ => true
  | _ => false

mutual

def beq : Ty → Ty → Bool
  | .prim p, .prim q => p = q
  | .map k v, .map k' v' => beq k k' && beq v v'
  | .fn a r, .fn a' r' => beq a a' && beq r r'
  | .data n ts, .data n' ts' => n = n' && beqAll ts ts'
  | .var n, .var n' => n = n'
  | .poly n t, .poly n' t' => n = n' && beq t t'
  | .unit, .unit => true
  | .address ⟨k, fs⟩, .address ⟨k', fs'⟩ => k = k' && beqFields fs fs'
  | _, _ => false
termination_by structural t => t

def beqAll : List Ty → List Ty → Bool
  | [], [] => true
  | t :: ts, t' :: ts' => beq t t' && beqAll ts ts'
  | _, _ => false
termination_by structural ts => ts

def beqFields : List (String × Ty) → List (String × Ty) → Bool
  | [], [] => true
  | (n, t) :: fs, (n', t') :: fs' => n = n' && beq t t' && beqFields fs fs'
  | _, _ => false
termination_by structural fs => fs

end

mutual

theorem beq_refl : ∀ t : Ty, beq t t = true
  | .prim p => by simp [beq]
  | .map k v => by simp [beq, beq_refl k, beq_refl v]
  | .fn a r => by simp [beq, beq_refl a, beq_refl r]
  | .data n ts => by simp [beq, beqAll_refl ts]
  | .var n => by simp [beq]
  | .poly n t => by simp [beq, beq_refl t]
  | .unit => rfl
  | .address ⟨k, fs⟩ => by simp [beq, beqFields_refl fs]

theorem beqAll_refl : ∀ ts : List Ty, beqAll ts ts = true
  | [] => rfl
  | t :: ts => by simp [beqAll, beq_refl t, beqAll_refl ts]

theorem beqFields_refl : ∀ fs : List (String × Ty), beqFields fs fs = true
  | [] => rfl
  | (n, t) :: fs => by simp [beqFields, beq_refl t, beqFields_refl fs]

end

mutual

theorem eq_of_beq : ∀ t t' : Ty, beq t t' = true → t = t'
  | .prim p, t' => by cases t' <;> simp [beq]
  | .map k v, t' => by
    cases t' <;> simp [beq]
    exact fun hk hv ↦ ⟨eq_of_beq k _ hk, eq_of_beq v _ hv⟩
  | .fn a r, t' => by
    cases t' <;> simp [beq]
    exact fun ha hr ↦ ⟨eq_of_beq a _ ha, eq_of_beq r _ hr⟩
  | .data n ts, t' => by
    cases t' <;> simp [beq]
    exact fun hn hts ↦ ⟨hn, eq_of_beqAll ts _ hts⟩
  | .var n, t' => by cases t' <;> simp [beq]
  | .poly n t, t' => by
    cases t' <;> simp [beq]
    exact fun hn ht ↦ ⟨hn, eq_of_beq t _ ht⟩
  | .unit, t' => by cases t' <;> simp [beq]
  | .address ⟨k, fs⟩, t' => by
    cases t' with
    | address a =>
      obtain ⟨k', fs'⟩ := a
      simp only [beq, Bool.and_eq_true, decide_eq_true_eq, address.injEq, AddressOf.mk.injEq]
      exact fun h ↦ ⟨h.1, eq_of_beqFields fs _ h.2⟩
    | _ => simp [beq]

theorem eq_of_beqAll : ∀ ts ts' : List Ty, beqAll ts ts' = true → ts = ts'
  | [], ts' => by cases ts' <;> simp [beqAll]
  | t :: ts, ts' => by
    cases ts' <;> simp [beqAll]
    exact fun ht hts ↦ ⟨eq_of_beq t _ ht, eq_of_beqAll ts _ hts⟩

theorem eq_of_beqFields : ∀ fs fs' : List (String × Ty), beqFields fs fs' = true → fs = fs'
  | [], fs' => by cases fs' <;> simp [beqFields]
  | (n, t) :: fs, fs' => by
    cases fs' with
    | nil => simp [beqFields]
    | cons f fs' =>
      obtain ⟨n', t'⟩ := f
      simp only [beqFields, Bool.and_eq_true, decide_eq_true_eq, List.cons.injEq, Prod.mk.injEq]
      exact fun h ↦ ⟨⟨h.1.1, eq_of_beq t _ h.1.2⟩, eq_of_beqFields fs _ h.2⟩

end

instance : DecidableEq Ty := fun t t' ↦
  decidable_of_iff (beq t t' = true) ⟨eq_of_beq t t', fun h ↦ h ▸ beq_refl t⟩

end Ty

end MeteredContract
