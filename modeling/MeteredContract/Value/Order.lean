import MeteredContract.Value.Basic

/-!
The order of values, by which map keys are sorted and compared. It ignores the type arguments of
constructors and the declared types of maps and message entries. Closures are compared by identity,
not by their code.
-/

set_option autoImplicit false
set_option relaxedAutoImplicit false

namespace MeteredContract

/-- Values of different kinds are ordered by their kinds. -/
def ValueKind.rank : ValueKind → Nat
  | .int => 0
  | .str => 1
  | .bnum => 2
  | .bystrx => 3
  | .bystr => 4
  | .closure => 5
  | .tyClosure => 6
  | .data => 7
  | .map => 8
  | .message => 9

/-- Given closures come before made ones, older before younger. -/
def ClosureId.cmp : ClosureId → ClosureId → Ordering
  | .given n, .given n' => compare n n'
  | .given _, .made _ => .lt
  | .made _, .given _ => .gt
  | .made n, .made n' => compare n n'

/-- Byte strings in dictionary order. -/
def cmpBytes : List UInt8 → List UInt8 → Ordering
  | [], [] => .eq
  | [], _ :: _ => .lt
  | _ :: _, [] => .gt
  | b :: bs, c :: cs => (compare b c).then (cmpBytes bs cs)

namespace Value

mutual

def cmp : Value → Value → Ordering
  | .int a, .int b => a.cmp b
  | .str a, .str b => compare a b
  | .bnum a, .bnum b => compare a b
  | .bystrx a, .bystrx b => cmpBytes a b
  | .bystr a, .bystr b => cmpBytes a b
  | .closure id .., .closure id' .. => id.cmp id'
  | .tyClosure id .., .tyClosure id' .. => id.cmp id'
  | .data t c _ args, .data t' c' _ args' =>
    (compare t t').then ((compare c c').then (cmpAll args args'))
  | .map ⟨_, _, es⟩, .map ⟨_, _, es'⟩ => cmpEntries es es'
  | .message es, .message es' => cmpMessage es es'
  | v, v' => compare v.kind.rank v'.kind.rank
termination_by structural v => v

def cmpAll : List Value → List Value → Ordering
  | [], [] => .eq
  | [], _ :: _ => .lt
  | _ :: _, [] => .gt
  | v :: vs, v' :: vs' => (cmp v v').then (cmpAll vs vs')
termination_by structural vs => vs

def cmpEntries : List (Value × Value) → List (Value × Value) → Ordering
  | [], [] => .eq
  | [], _ :: _ => .lt
  | _ :: _, [] => .gt
  | (k, v) :: es, (k', v') :: es' => ((cmp k k').then (cmp v v')).then (cmpEntries es es')
termination_by structural es => es

def cmpMessage : List (EntryOf Value) → List (EntryOf Value) → Ordering
  | [], [] => .eq
  | [], _ :: _ => .lt
  | _ :: _, [] => .gt
  | ⟨n, _, v⟩ :: es, ⟨n', _, v'⟩ :: es' =>
    ((compare n n').then (cmp v v')).then (cmpMessage es es')
termination_by structural es => es

end

/-- Equality as far as the order sees it. -/
def same (v v' : Value) : Bool := cmp v v' == .eq

end Value

end MeteredContract
