import MeteredContract.Text.Decimal
import MeteredContract.Text.Quoted
import MeteredContract.Value.Basic

/-!
Text of values.
-/

set_option autoImplicit false
set_option relaxedAutoImplicit false

namespace MeteredContract.Value

mutual

def text : Value → String
  | .int i => Decimal.ofInt i.val
  | .str s => Quoted.ofString s
  | .bnum n => "BNum " ++ Decimal.ofNat n
  | .bystrx b => Hex.tagged b
  | .bystr b => Hex.tagged b
  | .closure .. => "<closure>"
  | .tyClosure .. => "<type closure>"
  | .data _ c _ [] => c
  | .data _ c _ (v :: vs) => "(" ++ c ++ textArgs (v :: vs) ++ ")"
  | .map ⟨_, _, es⟩ => "[" ++ String.intercalate "; " (textEntries es) ++ "]"
  | .message es => "\x7b" ++ String.intercalate "; " (textMessage es) ++ "\x7d"

def textArgs : List Value → String
  | [] => ""
  | v :: vs => " " ++ text v ++ textArgs vs

def textEntries : List (Value × Value) → List String
  | [] => []
  | (k, v) :: es => (text k ++ " => " ++ text v) :: textEntries es

def textMessage : List (EntryOf Value) → List String
  | [] => []
  | ⟨n, _, v⟩ :: es => (n ++ " : " ++ text v) :: textMessage es

end

end MeteredContract.Value
