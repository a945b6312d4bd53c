/-!
Finite tables as association lists. `Table.put` replaces the entry of a key that is present and
otherwise appends one, so a key occurs once in every table built by it.
-/

set_option autoImplicit false
set_option relaxedAutoImplicit false

namespace MeteredContract

abbrev Table (κ ν : Type) : Type := List (κ × ν)

namespace Table

variable {κ ν : Type} [DecidableEq κ]

def get? : Table κ ν → κ → Option ν
  | [], _ => none
  | (k, v) :: rest, key => if k = key then some v else get? rest key

def put : Table κ ν → κ → ν → Table κ ν
  | [], key, val => [(key, val)]
  | (k, v) :: rest, key, val => if k = key then (k, val) :: rest else (k, v) :: put rest key val

def putAll (t : Table κ ν) (entries : List (κ × ν)) : Table κ ν :=
  entries.foldl (fun acc e ↦ put acc e.1 e.2) t

theorem get?_put (t : Table κ ν) (key key' : κ) (val : ν) :
    (t.put key val).get? key' = if key = key' then some val else t.get? key' := by
  induction t with
  | nil => simp [put, get?]
  | cons e rest ih =>
    obtain ⟨k, v⟩ := e
    by_cases hk : k = key
    · subst hk
      by_cases hk' : k = key' <;> simp [put, get?, hk']
    · by_cases hk' : k = key'
      · subst hk'
        simp [put, get?, hk, Ne.symm hk]
      · simp [put, get?, hk, hk', ih]

end Table

end MeteredContract
