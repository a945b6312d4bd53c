/-!
Sets of code points given by their edges: an increasing list of the points at which membership
changes, starting outside the set. The sets that are given so follow Unicode 17.
-/

set_option autoImplicit false
set_option relaxedAutoImplicit false

namespace MeteredContract.Text

def insideEdges (edges : List Nat) (point : Nat) : Bool :=
  (edges.takeWhile (· ≤ point)).length % 2 == 1

end MeteredContract.Text
