import MeteredContract.Program.Stmt

/-!
Contract modules: libraries, parameters, fields and components, with the names and parameters that
every contract and component has without declaring them.
-/

set_option autoImplicit false
set_option relaxedAutoImplicit false

namespace MeteredContract

namespace Label

def tag : String := "_tag"
def amount : String := "_amount"
def sender : String := "_sender"
def origin : String := "_origin"
def recipient : String := "_recipient"
def eventName : String := "_eventname"
def exception : String := "_exception"

/-- The balance of the contract, read like a field. -/
def balance : String := "_balance"

def thisAddress : String := "_this_address"
def creationBlock : String := "_creation_block"
def languageVersion : String := "_scilla_version"

end Label

structure Param where
  name : String
  ty : Ty

structure ConstructorDef where
  name : String
  argTypes : List Ty

inductive LibraryEntry where
  | value (name : String) (e : Expr)
  | datatype (name : String) (tparams : List String) (constructors : List ConstructorDef)

/-- Entries in order, each seeing those before it. -/
structure Library where
  name : String
  entries : List LibraryEntry

structure FieldDef where
  name : String
  ty : Ty
  init : Expr

inductive ComponentKind where
  | transition
  | procedure
  deriving DecidableEq

structure Component where
  kind : ComponentKind
  name : String
  params : List Param
  body : List Stmt

/-- Parameters of every transition and procedure, in the order in which a procedure gets them. -/
def implicitComponentParams : List Param :=
  [⟨Label.sender, .bystr20⟩, ⟨Label.origin, .bystr20⟩, ⟨Label.amount, .uint128⟩]

def implicitContractParams : List Param :=
  [⟨Label.thisAddress, .bystr20⟩, ⟨Label.creationBlock, .bnum⟩, ⟨Label.languageVersion, .uint32⟩]

def Component.allParams (c : Component) : List Param := implicitComponentParams ++ c.params

structure Module where
  name : String
  /-- Imported libraries, each after those it needs. -/
  imports : List Library
  library : Option Library
  params : List Param
  constraint : Option Expr
  fields : List FieldDef
  components : List Component

namespace Module

def allParams (m : Module) : List Param := m.params ++ implicitContractParams

/-- The libraries in the order of their evaluation. -/
def libraries (m : Module) : List Library := m.imports ++ m.library.toList

end Module

end MeteredContract
