import Prerender.Keyed

set_option autoImplicit false

/-!
JSON values. An object keeps its members in the order of their first appearance.
-/
namespace Prerender

-- A number without point and exponent is an integer, any other a binary64 number.
inductive Json.Number where
  | int (n : Int)
  | float (x : Float)
deriving DecidableEq

inductive Json where
  | null
  | bool (b : Bool)
  | number (n : Json.Number)
  | string (s : String)
  | array (items : List Json)
  | object (members : List (String × Json))

namespace Json

instance : Inhabited Json := ⟨.null⟩

def Number.toFloat : Number → Float
  | .int n => Float.ofInt n
  | .float x => x

def get? : Json → String → Option Json
  | .object members, key => Keyed.get? members key
  | _, _ => none

def string? : Json → Option String
  | .string s => some s
  | _ => none

def bool? : Json → Option Bool
  | .bool b => some b
  | _ => none

def array? : Json → Option (List Json)
  | .array items => some items
  | _ => none

def object? : Json → Option (List (String × Json))
  | .object members => some members
  | _ => none

mutual
def depth : Json → Nat
  | .array items => depthItems items + 1
  | .object members => depthMembers members + 1
  | _ => 0
def depthItems : List Json → Nat
  | [] => 0
  | item :: items => max (depth item) (depthItems items)
def depthMembers : List (String × Json) → Nat
  | [] => 0
  | (_, value) :: members => max (depth value) (depthMembers members)
end

end Json
end Prerender
