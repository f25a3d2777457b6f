import Prerender.Keyed
import Prerender.Text.Capital
import Prerender.Text.Search

set_option autoImplicit false

namespace Prerender.Tag

def ofExport (name : String) : String :=
  let lower (c : Char) : List Char := if c.isUpper then ['-', c.toLower] else [c]
  match name.toList with
  | [] => ""
  | c :: cs => String.ofList (c.toLower :: cs.flatMap lower)

def capitalize : List Char → List Char
  | [] => []
  | c :: cs => Text.capital c ++ cs

def toExport (tag : String) : String :=
  String.ofList ((Text.splitOn (· = '-') tag.toList).flatMap capitalize)

abbrev Renames := List (String × String)

def rename (renames : Renames) (tag : String) : String := (Keyed.get? renames tag).getD tag

example : ofExport "HTMLElement" = "h-t-m-l-element" := by decide +kernel
example : toExport "my-component" = "MyComponent" := by decide +kernel

end Prerender.Tag
