import MeteredContract.Gas.Size
import MeteredContract.Proofs.Induction
import Mathlib.Data.Nat.Log

/-!
Sizes and sorting costs without a largest amount. Stopping at the largest amount in every step of a
sum or product is the same as stopping once, at the end (`Gas.satAdd_min`, `Gas.satMul_min`). So the
size of a value is the number of its bytes cut at the largest amount (`Value.size_eq`), and the cost
of sorting `n` entries is `n` times the least `k` with `n ≤ 2 ^ k`, cut in the same place
(`Gas.sortCost_eq`).
-/

set_option autoImplicit false
set_option relaxedAutoImplicit false

namespace MeteredContract

namespace Gas

theorem satAdd_min (a b : Nat) : satAdd (min cap a) (min cap b) = min cap (a + b) := by
  unfold satAdd
  omega

theorem satMul_min (a b : Nat) : satMul (min cap a) (min cap b) = min cap (a * b) := by
  unfold satMul
  by_cases hfits : a ≤ cap ∧ b ≤ cap
  · rw [min_eq_right hfits.1, min_eq_right hfits.2]
  · by_cases hzero : a = 0 ∨ b = 0
    · obtain rfl | rfl := hzero <;> simp
    · -- one factor is too large and the other is not zero, so both products are too large
      have hpos : 1 ≤ a ∧ 1 ≤ b := by omega
      have hcut : cap ≤ min cap a * min cap b := by
        by_cases ha : a ≤ cap
        · have hb : min cap b = cap := by omega
          rw [hb]
          exact Nat.le_mul_of_pos_left cap (lt_min (by decide) hpos.1)
        · have ha' : min cap a = cap := by omega
          rw [ha']
          exact Nat.le_mul_of_pos_right cap (lt_min (by decide) hpos.2)
      have hexact : cap ≤ a * b :=
        hcut.trans (Nat.mul_le_mul (min_le_right cap a) (min_le_right cap b))
      rw [min_eq_left hcut, min_eq_left hexact]

/-- The binary logarithm rounded up, from the highest bit of the number before. -/
theorem clog_eq {n : Nat} (hn : 2 ≤ n) : Nat.clog 2 n = (n - 1).log2 + 1 := by
  have hne : n - 1 ≠ 0 := by omega
  refine le_antisymm ?_ ?_
  · have hlt : n - 1 < 2 ^ ((n - 1).log2 + 1) := Nat.lt_log2_self
    exact (Nat.clog_le_iff_le_pow Nat.one_lt_two).mpr (by omega)
  · have hle : n ≤ 2 ^ Nat.clog 2 n := Nat.le_pow_clog Nat.one_lt_two n
    exact (Nat.log2_lt hne).mpr (by omega)

theorem sortCost_eq (n : Nat) : sortCost n = min cap (n * Nat.clog 2 n) := by
  unfold sortCost
  split
  · have hzero : Nat.clog 2 n = 0 := Nat.clog_of_right_le_one (by omega) 2
    rw [hzero, Nat.mul_zero, Nat.min_zero]
  · next hn => rw [clog_eq (by omega), satMul]

end Gas

namespace Value

open Gas

mutual

/-- Serialized size in bytes, however large: the sum of the sizes of the parts. -/
def byteSize : Value → Nat
  | .int i => i.ty.width.bytes
  | .str s => s.utf8ByteSize
  | .bnum _ => 64
  | .bystrx b => b.length
  | .bystr b => b.length
  | .closure .. => 0
  | .tyClosure .. => 0
  | .data _ _ _ args => byteSizeAll args
  | .map ⟨_, _, es⟩ => byteSizeEntries es
  | .message es => byteSizeMessage es

def byteSizeAll : List Value → Nat
  | [] => 0
  | v :: vs => byteSize v + byteSizeAll vs

def byteSizeEntries : List (Value × Value) → Nat
  | [] => 0
  | (k, v) :: es => byteSize k + byteSize v + byteSizeEntries es

def byteSizeMessage : List (EntryOf Value) → Nat
  | [] => 0
  | ⟨n, _, v⟩ :: es => n.utf8ByteSize + byteSize v + byteSizeMessage es

end

theorem sizeAll_eq {vs : List Value} (h : ∀ v ∈ vs, v.size = min cap v.byteSize) :
    sizeAll vs = min cap (byteSizeAll vs) := by
  induction vs with
  | nil => rfl
  | cons v vs ih =>
    obtain ⟨hv, hvs⟩ := List.forall_mem_cons.mp h
    rw [sizeAll, byteSizeAll, hv, ih hvs, satAdd_min]

theorem sizeEntries_eq {es : List (Value × Value)}
    (h : ∀ e ∈ es, e.1.size = min cap e.1.byteSize ∧ e.2.size = min cap e.2.byteSize) :
    sizeEntries es = min cap (byteSizeEntries es) := by
  induction es with
  | nil => rfl
  | cons e es ih =>
    obtain ⟨⟨hkey, hval⟩, hes⟩ := List.forall_mem_cons.mp h
    rw [sizeEntries, byteSizeEntries, hkey, hval, ih hes, satAdd_min, satAdd_min]

theorem sizeMessage_eq {es : List MessageEntry}
    (h : ∀ e ∈ es, e.value.size = min cap e.value.byteSize) :
    sizeMessage es = min cap (byteSizeMessage es) := by
  induction es with
  | nil => rfl
  | cons e es ih =>
    obtain ⟨hval, hes⟩ := List.forall_mem_cons.mp h
    rw [sizeMessage, byteSizeMessage, hval, ih hes]
    unfold satAdd
    omega

theorem size_eq (v : Value) : v.size = min cap v.byteSize := by
  induction v with
  | int i =>
    rw [size, byteSize]
    cases i.ty.width <;> rfl
  | data tyName constructor targs args ih => exact sizeAll_eq ih
  | map m ih => exact sizeEntries_eq ih
  | message es ih => exact sizeMessage_eq ih
  | _ => rfl

end Value

end MeteredContract
