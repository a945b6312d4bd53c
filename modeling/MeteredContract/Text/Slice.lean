/-!
Slices of a text by byte offsets of its UTF-8 form. Offsets must fall between characters.
-/

set_option autoImplicit false
set_option relaxedAutoImplicit false

namespace MeteredContract.Text

/-- Split characters after `n` bytes, if a character ends there. -/
def splitBytes? : List Char → Nat → Option (List Char × List Char)
  | cs, 0 => some ([], cs)
  | [], _ + 1 => none
  | c :: cs, n + 1 =>
    if c.utf8Size ≤ n + 1 then
      (splitBytes? cs (n + 1 - c.utf8Size)).map fun r ↦ (c :: r.1, r.2)
    else none

/-- The `len` bytes of a text from offset `start` on. -/
def slice? (s : String) (start len : Nat) : Option String := do
  let (_, rest) ← splitBytes? s.toList start
  let (taken, _) ← splitBytes? rest len
  return String.ofList taken

end MeteredContract.Text
