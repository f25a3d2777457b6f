import Prerender.Json.Printer
import Prerender.Value.Basic

set_option autoImplicit false

namespace Prerender

-- Property names as scripts write them (`backgroundColor`), each with its value.
abbrev Style := List (String × Json)

namespace Style

def number (x : Float) : Json :=
  match Decimal.integer? x with
  | some n => .number (.int n)
  | none => .number (.float x)

mutual
-- Adds the entries that can be written: all but infinite numbers, `undefined`, names, lists and
-- collections.
def addEntries (style : Style) : List (String × Value) → Style
  | [] => style
  | (key, value) :: entries =>
      match node? value with
      | some node => addEntries (Keyed.put style key node) entries
      | none => addEntries style entries
def node? : Value → Option Json
  | .string s => some (.string s)
  | .bool b => some (.bool b)
  | .null => some .null
  | .number x => if x.isFinite then some (number x) else none
  | .object entries => some (.object (addEntries [] entries))
  | _ => none
end

def ofValue? : Value → Option Style
  | .object entries => some (addEntries [] entries)
  | _ => none

def literal (style : Style) : String := (Json.object style).render

end Style
end Prerender
