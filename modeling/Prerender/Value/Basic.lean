import Prerender.Decimal.Layout

set_option autoImplicit false

namespace Prerender

-- An object keeps its entries in source order, repeated keys included. An identifier is a bare name
-- whose value is not known.
inductive Value where
  | undefined
  | null
  | bool (b : Bool)
  | number (x : Float)
  | string (s : String)
  | array (items : List Value)
  | object (entries : List (String × Value))
  | map (entries : List (Value × Value))
  | set (items : List Value)
  | symbol (description : String)
  | identifier (name : String)

namespace Value

instance : Inhabited Value := ⟨.undefined⟩

def isIdentifier : Value → Bool
  | .identifier _ => true
  | _ => false

def string? : Value → Option String
  | .string s => some s
  | _ => none

-- The text of a number; zero has no sign, and no number an exponent.
def numberText (x : Float) : String :=
  match x.toModel.unpack with
  | .notANumber => "NaN"
  | .infinity .positive => "Infinity"
  | .infinity .negative => "-Infinity"
  | _ =>
      match Decimal.integer? x with
      | some n => toString n
      | none => Decimal.plain.write x

def boolText (b : Bool) : String := if b then "true" else "false"

-- The text of a value that an attribute can hold as it is. An infinite number has none, since it
-- could not be told from its name.
def attributeText? : Value → Option String
  | .bool b => some (boolText b)
  | .string s => some s
  | .identifier name => some name
  | .number x => if x.isFinite then some (numberText x) else none
  | _ => none

example : numberText 1e21 = "1000000000000000000000" := by decide +kernel
example : numberText (-0.0) = "0" := by decide +kernel

end Value
end Prerender
