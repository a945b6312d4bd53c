import MeteredContract.FixedInt
import MeteredContract.Program.Expr

/-!
Run-time values. Addresses are byte strings of 20 bytes. Closures hold their code and a handle to
the scope they were made in, not the scope itself.

The observers say what a value is (`Value.kind`, `Value.typeOf?`), what it may be used for
(`Value.isPure`, `Value.isSendable`) and what it stands for (`Value.toBool?`, `Value.toList?`,
`Value.magnitude?`).
-/

set_option autoImplicit false
set_option relaxedAutoImplicit false

namespace MeteredContract

/-- Handle of an environment: the index of its innermost frame, or nothing for the empty one. -/
structure Env where
  top : Option Nat
  deriving DecidableEq

namespace Env

def empty : Env := ⟨none⟩

def isEmpty (env : Env) : Bool := env.top.isNone

end Env

/-- What tells closures apart. A closure that a program makes gets a number that no other closure in
use has, and so does one that comes from outside. -/
inductive ClosureId where
  | given (n : Nat)
  | made (n : Nat)
  deriving DecidableEq

/-- The least number above those of the closures that programs made. -/
def ClosureId.ceiling : List ClosureId → Nat
  | [] => 0
  | .given _ :: ids => ceiling ids
  | .made n :: ids => max (n + 1) (ceiling ids)

/-- A map with its declared key and value types. -/
structure TypedMap (α : Type) where
  keyTy : Ty
  valTy : Ty
  entries : List (α × α)

/-- One entry of a message, event or exception. -/
structure EntryOf (α : Type) where
  name : String
  ty : Ty
  value : α

inductive Value where
  | int (i : FixedInt)
  | str (s : String)
  | bnum (n : Nat)
  | bystrx (bytes : List UInt8)
  | bystr (bytes : List UInt8)
  | closure (id : ClosureId) (param : String) (ty : Ty) (body : Expr) (env : Env)
  | tyClosure (id : ClosureId) (tvar : String) (body : Expr) (env : Env)
  | data (tyName constructor : String) (targs : List Ty) (args : List Value)
  | map (m : TypedMap Value)
  | message (entries : List (EntryOf Value))

abbrev MapValue : Type := TypedMap Value

abbrev MessageEntry : Type := EntryOf Value

/-- The shape of a value. -/
inductive ValueKind where
  | int
  | str
  | bnum
  | bystrx
  | bystr
  | closure
  | tyClosure
  | data
  | map
  | message
  deriving DecidableEq

def ValueKind.name : ValueKind → String
  | .int => "integer"
  | .str => "string"
  | .bnum => "block number"
  | .bystrx => "fixed-width byte string"
  | .bystr => "byte string"
  | .closure => "closure"
  | .tyClosure => "type closure"
  | .data => "constructor value"
  | .map => "map"
  | .message => "message"

/-- Byte strings that have a width as a type are shorter than this. -/
def widthLimit : Nat := wordCount 32

namespace Value

def bool (b : Bool) : Value := .data "Bool" (if b then "True" else "False") [] []
def present (t : Ty) (v : Value) : Value := .data "Option" "Some" [t] [v]
def absent (t : Ty) : Value := .data "Option" "None" [t] []
def nil (t : Ty) : Value := .data "List" "Nil" [t] []
def cons (t : Ty) (head tail : Value) : Value := .data "List" "Cons" [t] [head, tail]
def list (t : Ty) (items : List Value) : Value := items.foldr (cons t) (nil t)
def pair (t t' : Ty) (v v' : Value) : Value := .data "Pair" "Pair" [t, t'] [v, v']

/-- An optional value as a value of the option datatype. -/
def ofOption (t : Ty) : Option Value → Value
  | some v => present t v
  | none => absent t

/-- The value of a literal, unless it is an integer outside its type. -/
def ofLiteral? : Literal → Option Value
  | .int t n => (FixedInt.ofInt? t n).map .int
  | .str s => some (.str s)
  | .bnum n => some (.bnum n)
  | .bystrx b => some (.bystrx b)
  | .address b => some (.bystrx b)
  | .bystr b => some (.bystr b)
  | .emptyMap k v => some (.map ⟨k, v, []⟩)

def kind : Value → ValueKind
  | .int _ => .int
  | .str _ => .str
  | .bnum _ => .bnum
  | .bystrx _ => .bystrx
  | .bystr _ => .bystr
  | .closure .. => .closure
  | .tyClosure .. => .tyClosure
  | .data .. => .data
  | .map _ => .map
  | .message _ => .message

/-- The type of a value, read off its head. Closures have none. -/
def typeOf? : Value → Option Ty
  | .int i => some (.int i.ty)
  | .str _ => some .string
  | .bnum _ => some .bnum
  | .bystrx b => if b.length < widthLimit then some (.bystrx b.length) else none
  | .bystr _ => some .bystr
  | .closure .. => none
  | .tyClosure .. => none
  | .data n _ ts _ => some (.data n ts)
  | .map m => some (.map m.keyTy m.valTy)
  | .message _ => some .message

mutual

/-- No closure or type closure occurs in the value. -/
def isPure : Value → Bool
  | .closure .. => false
  | .tyClosure .. => false
  | .data _ _ _ args => allPure args
  | .map ⟨_, _, entries⟩ => entriesPure entries
  | .message entries => messagePure entries
  | .int _ => true
  | .str _ => true
  | .bnum _ => true
  | .bystrx _ => true
  | .bystr _ => true

def allPure : List Value → Bool
  | [] => true
  | v :: vs => isPure v && allPure vs

def entriesPure : List (Value × Value) → Bool
  | [] => true
  | (k, v) :: es => isPure k && isPure v && entriesPure es

def messagePure : List (EntryOf Value) → Bool
  | [] => true
  | ⟨_, _, v⟩ :: es => isPure v && messagePure es

end

mutual

/-- The closures and type closures that occur in the value. -/
def closureIds : Value → List ClosureId
  | .closure id .. => [id]
  | .tyClosure id .. => [id]
  | .data _ _ _ args => allClosureIds args
  | .map ⟨_, _, entries⟩ => entriesClosureIds entries
  | .message entries => messageClosureIds entries
  | .int _ => []
  | .str _ => []
  | .bnum _ => []
  | .bystrx _ => []
  | .bystr _ => []

def allClosureIds : List Value → List ClosureId
  | [] => []
  | v :: vs => closureIds v ++ allClosureIds vs

def entriesClosureIds : List (Value × Value) → List ClosureId
  | [] => []
  | (k, v) :: es => closureIds k ++ closureIds v ++ entriesClosureIds es

def messageClosureIds : List (EntryOf Value) → List ClosureId
  | [] => []
  | ⟨_, _, v⟩ :: es => closureIds v ++ messageClosureIds es

end

mutual

/-- The value may stand in a message: it is pure and holds no map and no message. -/
def isSendable : Value → Bool
  | .closure .. => false
  | .tyClosure .. => false
  | .map _ => false
  | .message _ => false
  | .data _ _ _ args => allSendable args
  | .int _ => true
  | .str _ => true
  | .bnum _ => true
  | .bystrx _ => true
  | .bystr _ => true

def allSendable : List Value → Bool
  | [] => true
  | v :: vs => isSendable v && allSendable vs

end

def toBool? : Value → Option Bool
  | .data "Bool" "True" _ _ => some true
  | .data "Bool" "False" _ _ => some false
  | _ => none

/-- The elements of a list, head first. -/
def toList? : Value → Option (List Value)
  | .data "List" "Nil" _ [] => some []
  | .data "List" "Cons" _ [head, tail] => (toList? tail).map (head :: ·)
  | _ => none

/-- The integer or block number as a word of 64 bits. -/
def magnitude? : Value → Option Nat
  | .int i => i.toWord? 64
  | .bnum n => if n < wordCount 64 then some n else none
  | _ => none

end Value

/-- The first entry of a message with the given name. -/
def messageValue? (entries : List MessageEntry) (name : String) : Option Value :=
  (entries.find? (·.name = name)).map (·.value)

def messageHas (entries : List MessageEntry) (name : String) : Bool :=
  entries.any (·.name = name)

end MeteredContract
