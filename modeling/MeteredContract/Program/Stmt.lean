import MeteredContract.Program.Expr

/-!
Statements of the imperative language. As in expressions, a source position is a node of its own.
-/

set_option autoImplicit false
set_option relaxedAutoImplicit false

namespace MeteredContract

/-- What a contract can read of the chain. -/
inductive ChainQuery where
  | blockNumber
  | chainId
  /-- Timestamp of the block whose number a variable holds. -/
  | timestamp (block : String)

inductive Stmt where
  | load (x field : String)
  | remoteLoad (x addr field : String)
  | store (field value : String)
  | bind (x : String) (e : Expr)
  /-- Set the entry at a key path, or delete it if there is no value. -/
  | mapUpdate (map : String) (keys : List String) (value : Option String)
  /-- Read the entry at a key path if `fetch` holds, else ask whether it exists. -/
  | mapGet (x map : String) (keys : List String) (fetch : Bool)
  | remoteMapGet (x addr map : String) (keys : List String) (fetch : Bool)
  | readChain (x : String) (query : ChainQuery)
  | cast (x addr : String) (ty : Ty)
  | matching (scrutinee : String) (clauses : List (Pattern × List Stmt))
  | accept
  | send (msgs : String)
  | event (msg : String)
  | call (proc : String) (args : List String)
  /-- Call a procedure on each element of a list. -/
  | forEach (list proc : String)
  | throw (exception : Option String)
  | gas (charge : Charge)
  | located (span : Span) (s : Stmt)

/-- Give the outermost node a position, in place of the one it may have. -/
def Stmt.withSpan (s : Span) : Stmt → Stmt
  | .located _ st => .located s st
  | st => .located s st

end MeteredContract
