import Prerender.Text.Quoted
import Prerender.Value.Basic

set_option autoImplicit false

/-!
Values as JavaScript expressions. A bare name is not in scope where the expression is placed: an
object drops the entry that holds one, anywhere else it becomes `undefined`.
-/
namespace Prerender.Value

mutual
def literal : Value → String
  | .undefined => "undefined"
  | .identifier _ => "undefined"
  | .null => "null"
  | .bool b => boolText b
  | .number x => numberText x
  | .string s => Text.Quoted.script s
  | .array items => "[" ++ literalItems items ++ "]"
  | .object entries => "\x7b" ++ literalEntries true entries ++ "\x7d"
  | .map entries => "new Map([" ++ literalPairs entries ++ "])"
  | .set items => "new Set([" ++ literalItems items ++ "])"
  | .symbol description => "Symbol(" ++ Text.Quoted.script description ++ ")"
def literalItems : List Value → String
  | [] => ""
  | [item] => literal item
  | item :: next :: items => literal item ++ ", " ++ literalItems (next :: items)
-- `first` says that no entry has been written yet.
def literalEntries (first : Bool) : List (String × Value) → String
  | [] => ""
  | (key, value) :: entries =>
      if value.isIdentifier then literalEntries first entries
      else
        (if first then "" else ", ") ++ Text.Quoted.script key ++ ": " ++ literal value ++
          literalEntries false entries
def literalPairs : List (Value × Value) → String
  | [] => ""
  | [(key, value)] => "[" ++ literal key ++ ", " ++ literal value ++ "]"
  | (key, value) :: next :: entries =>
      "[" ++ literal key ++ ", " ++ literal value ++ "], " ++ literalPairs (next :: entries)
end

end Prerender.Value
