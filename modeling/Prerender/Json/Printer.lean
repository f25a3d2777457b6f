import Prerender.Decimal.Layout
import Prerender.Json.Basic
import Prerender.Text.Quoted

set_option autoImplicit false

namespace Prerender.Json

-- A number that is not an integer is written positionally from `1e-5` up to below `1e16` and always
-- with a fraction; otherwise with a signed exponent.
def Number.layout : Decimal.Layout := ⟨.even, fun e => -5 ≤ e && e ≤ 15, true, true⟩

def Number.write : Number → String
  | .int n => toString n
  | .float x => Number.layout.write x

mutual
def render : Json → String
  | .null => "null"
  | .bool true => "true"
  | .bool false => "false"
  | .number n => n.write
  | .string s => Text.Quoted.json s
  | .array items => "[" ++ renderItems items ++ "]"
  | .object members => "\x7b" ++ renderMembers members ++ "\x7d"
def renderItems : List Json → String
  | [] => ""
  | [item] => render item
  | item :: next :: items => render item ++ "," ++ renderItems (next :: items)
def renderMembers : List (String × Json) → String
  | [] => ""
  | [(key, value)] => Text.Quoted.json key ++ ":" ++ render value
  | (key, value) :: next :: members =>
      Text.Quoted.json key ++ ":" ++ render value ++ "," ++ renderMembers (next :: members)
end

example : Number.write (.float 1e21) = "1e+21" := by decide +kernel
example : Number.write (.float 1e15) = "1000000000000000.0" := by decide +kernel
example : Number.write (.float 0.000001) = "1e-6" := by decide +kernel

end Prerender.Json
