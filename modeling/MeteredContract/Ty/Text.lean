import MeteredContract.Ty.Basic
import MeteredContract.Text.Decimal

/-!
Text of types. Arguments are always put in parentheses, so the text of a type shows its structure.
-/

set_option autoImplicit false
set_option relaxedAutoImplicit false

namespace MeteredContract

def PrimTy.text : PrimTy → String
  | .int t => t.name
  | .string => "String"
  | .bnum => "BNum"
  | .bystr => "ByStr"
  | .bystrx w => "ByStr" ++ Decimal.ofNat w
  | .message => "Message"
  | .event => "Event"
  | .exception => "Exception"

namespace Ty

mutual

def text : Ty → String
  | .prim p => p.text
  | .map k v => "Map (" ++ text k ++ ") (" ++ text v ++ ")"
  | .fn a r => "(" ++ text a ++ ") -> (" ++ text r ++ ")"
  | .data n ts => n ++ textArgs ts
  | .var n => n
  | .poly n t => "forall " ++ n ++ ". " ++ text t
  | .unit => "Unit"
  | .address ⟨.any, _⟩ => "ByStr20 with end"
  | .address ⟨.library, _⟩ => "ByStr20 with library end"
  | .address ⟨.contract, fs⟩ =>
    "ByStr20 with contract " ++ String.intercalate ", " (textFields fs) ++ " end"

def textArgs : List Ty → String
  | [] => ""
  | t :: ts => " (" ++ text t ++ ")" ++ textArgs ts

def textFields : List (String × Ty) → List String
  | [] => []
  | (n, t) :: fs => ("field " ++ n ++ " : " ++ text t) :: textFields fs

end

end Ty

end MeteredContract
