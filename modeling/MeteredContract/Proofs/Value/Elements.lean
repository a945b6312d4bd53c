import MeteredContract.Proofs.Value.Form

/-!
Values that stand for a list or for a number. A list is a chain of `Cons` nodes with a head and a
tail that ends in `Nil`, whatever types are noted in its nodes (`Value.ListOf`), and `Value.toList?`
finds its elements (`Value.toList?_eq_some_iff`). A number is an integer or a block number, and
`Value.magnitude?` answers with it if it fits a word of 64 bits (`Value.magnitude?_eq_some_iff`).
-/

set_option autoImplicit false
set_option relaxedAutoImplicit false

namespace MeteredContract

namespace Value

/-- The value is a list with these elements. -/
inductive ListOf : List Value → Value → Prop
  | nil (targs : List Ty) : ListOf [] (.data "List" "Nil" targs [])
  | cons {items : List Value} {tail : Value} (targs : List Ty) (head : Value)
      (htail : ListOf items tail) : ListOf (head :: items) (.data "List" "Cons" targs [head, tail])

theorem toList?_eq_some_iff {v : Value} {items : List Value} :
    v.toList? = some items ↔ ListOf items v := by
  constructor
  · intro h
    fun_induction toList? v generalizing items with
    | case1 targs =>
      cases h
      exact .nil targs
    | case2 targs head tail ih =>
      obtain ⟨rest, hrest, rfl⟩ := Option.map_eq_some_iff.mp h
      exact .cons targs head (ih hrest)
    | case3 => cases h
  · intro h
    induction h with
    | nil targs => rfl
    | cons targs head _ ih => rw [toList?, ih, Option.map_some]

/-- The value is a map or a list. -/
inductive IsCollection : Value → Prop
  | map (m : MapValue) : IsCollection (.map m)
  | list {items : List Value} {v : Value} (h : ListOf items v) : IsCollection v

/-- The number of entries of a map or of elements of a list. -/
def count : Value → Nat
  | .map m => m.entries.length
  | v => (v.toList?.getD []).length

/-- The value is an integer or a block number and fits a word of 64 bits. -/
inductive IsWord : Value → Prop
  | int {i : FixedInt} (hnonneg : 0 ≤ i.val) (hlt : i.val < wordCount 64) : IsWord (.int i)
  | bnum {n : Nat} (hlt : n < wordCount 64) : IsWord (.bnum n)

/-- The integer or block number. -/
def number : Value → Nat
  | .int i => i.val.toNat
  | .bnum n => n
  | _ => 0

theorem magnitude?_eq_some_iff {v : Value} {n : Nat} :
    v.magnitude? = some n ↔ v.IsWord ∧ v.number = n := by
  constructor
  · intro h
    cases v with
    | int i =>
      simp only [magnitude?, FixedInt.toWord?, Option.ite_none_right_eq_some,
        Option.some.injEq] at h
      exact ⟨.int h.1.1 h.1.2, h.2⟩
    | bnum m =>
      simp only [magnitude?, Option.ite_none_right_eq_some, Option.some.injEq] at h
      exact ⟨.bnum h.1, h.2⟩
    | _ => cases h
  · rintro ⟨hword, rfl⟩
    cases hword with
    | int hnonneg hlt => exact if_pos ⟨hnonneg, hlt⟩
    | bnum hlt => exact if_pos hlt

theorem IsWord.number_lt {v : Value} (h : v.IsWord) : v.number < wordCount 64 := by
  cases h with
  | int hnonneg hlt =>
    simp only [number]
    omega
  | bnum hlt => exact hlt

end Value

end MeteredContract
