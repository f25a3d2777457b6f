import Prerender.Json.Printer
import Prerender.Toml.Moment
import Prerender.Toml.Number
import Prerender.Toml.Quoted
import Prerender.Toml.Table

set_option autoImplicit false

namespace Prerender.Toml

def isBare (c : Char) : Bool := c.isAlphanum || c == '-' || c == '_'

def bareKey : Reader String := do
  let cs ← span isBare
  if cs.isEmpty then failure else return String.ofList cs

def keyPart : Reader String := do
  blanks
  let part ← basic <|> literal <|> bareKey
  blanks
  return part

-- How many parts a key may not reach, and how many arrays and inline tables may not be open at once.
def limit : Nat := 80

def key : Reader Key := do
  let first ← keyPart
  let rest ← many (do char '.'; keyPart)
  if limit ≤ rest.length + 1 then failure
  else
    match rest.reverse with
    | [] => return ⟨[], first⟩
    | last :: between => return ⟨first :: between.reverse, last⟩

def momentMember : String := "$__toml_private_datetime"

def scalar : Reader Json :=
  (do return .string (← text)) <|>
  (do return .object [(momentMember, .string (← Moment.moment))]) <|>
  (do return .number (← number)) <|>
  (do word "true"; return .bool true) <|>
  (do word "false"; return .bool false)

def separated {α : Type} (item : Reader α) : Reader (List α) := do
  match ← perhaps item with
  | none => return []
  | some first => return first :: (← many (do char ','; item))

def array (value : Reader Json) : Reader Json := do
  char '['
  let items ← separated (do gap; let v ← value; gap; return v)
  if !items.isEmpty then
    let _ ← perhaps (char ',')
  gap
  char ']'
  return .array items

def pair (value : Reader Json) : Reader (Key × Json) := do
  let k ← key
  char '='
  blanks
  return (k, ← value)

def inlineTable (value : Reader Json) : Reader Json := do
  char '\x7b'
  let pairs ← separated (do let p ← pair value; blanks; return p)
  blanks
  char '\x7d'
  match tableOf? pairs with
  | some table => return table
  | none => failure

def value : Nat → Reader Json
  | 0 => scalar
  | depth + 1 => scalar <|> array (value depth) <|> inlineTable (value depth)

def pairLine : Reader (Option Item) := do
  let (k, v) ← pair (value (limit - 1))
  lineEnd
  return some (.pair k v)

def headerLine : Reader (Option Item) := do
  char '['
  let element ← perhaps (char '[')
  let k ← key
  char ']'
  if element.isSome then char ']'
  lineEnd
  return some (if element.isSome then .element k else .header k)

def idleLine : Reader (Option Item) := do
  newline <|> (do comment; newline <|> atEnd)
  return none

def line : Reader (Option Item) := do
  blanks
  idleLine <|> headerLine <|> pairLine

def document : Reader Json := do
  let _ ← perhaps (char '\ufeff')
  let items ← many line
  blanks
  atEnd
  match documentOf? (items.filterMap id) with
  | some table => return table
  | none => failure

def parse? (source : String) : Option Json := (document source.toList).map (·.1)

example : (parse? "a.b = [1, 2,]\n[a.c]\nd = 'x'\n").map Json.render =
    some "\x7b\"a\":\x7b\"b\":[1,2],\"c\":\x7b\"d\":\"x\"\x7d\x7d\x7d" := by decide +kernel
example : (parse? "[a]\n[a]\n").isNone := by decide +kernel
example : (parse? "a.b = 1\n[a]\n").isNone := by decide +kernel
example : (parse? "[a.b]\n[a]\nb.c = 1\n").isNone := by decide +kernel

end Prerender.Toml
