import MeteredContract.Program.Module
import MeteredContract.Table

/-!
The algebraic datatypes that constructors may be taken from. Types and constructors are two tables:
registering a type again replaces its definition and adds its constructors, while constructors that
only the earlier definition had stay known.
-/

set_option autoImplicit false
set_option relaxedAutoImplicit false

namespace MeteredContract

structure Datatype where
  name : String
  tparams : List String
  constructors : List ConstructorDef

/-- The type that a constructor belongs to and the number of its arguments. -/
structure ConstructorInfo where
  tyName : String
  arity : Nat
  deriving DecidableEq

structure Datatypes where
  types : Table String Datatype
  constructors : Table String ConstructorInfo

namespace Datatypes

def empty : Datatypes := ⟨[], []⟩

def register (r : Datatypes) (d : Datatype) : Datatypes where
  types := r.types.put d.name d
  constructors :=
    r.constructors.putAll (d.constructors.map fun c ↦ (c.name, ⟨d.name, c.argTypes.length⟩))

def constructor? (r : Datatypes) (name : String) : Option ConstructorInfo :=
  r.constructors.get? name

def type? (r : Datatypes) (name : String) : Option Datatype := r.types.get? name

/-- The datatypes that every program has. -/
def standard : Datatypes :=
  [ ⟨"Bool", [], [⟨"True", []⟩, ⟨"False", []⟩]⟩,
    ⟨"Option", ["'A"], [⟨"Some", [.var "'A"]⟩, ⟨"None", []⟩]⟩,
    ⟨"List", ["'A"], [⟨"Cons", [.var "'A", .list (.var "'A")]⟩, ⟨"Nil", []⟩]⟩,
    ⟨"Pair", ["'A", "'B"], [⟨"Pair", [.var "'A", .var "'B"]⟩]⟩,
    ⟨"Nat", [], [⟨"Zero", []⟩, ⟨"Succ", [.data "Nat" []]⟩]⟩ ].foldl register empty

end Datatypes

end MeteredContract
