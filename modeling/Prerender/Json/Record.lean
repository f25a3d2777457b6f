import Prerender.Json.Basic

set_option autoImplicit false

/-!
Records in JSON. A record is an object, or a list of its fields in order. A repeated field is refused, an
unknown one is passed over.
-/
namespace Prerender.Json.Record

inductive Source where
  | members (entries : List (String × Json))
  | positions (items : List Json)

def source? (names : List String) : Json → Option Source
  | .object entries =>
      if names.all fun name => (entries.filter fun e => e.1 = name).length ≤ 1 then
        some (.members entries)
      else none
  | .array items => if items.length ≤ names.length then some (.positions items) else none
  | _ => none

def pick (names : List String) (source : Source) (name : String) : Option Json :=
  match source with
  | .members entries => entries.lookup name
  | .positions items => items[names.idxOf name]?

def orElse {α : Type} (field : Option Json) (fallback : α) (read : Json → Option α) : Option α :=
  match field with
  | none => some fallback
  | some value => read value

def optional {α : Type} (read : Json → Option α) : Json → Option (Option α)
  | .null => some none
  | value => (read value).map some

def listOf {α : Type} (read : Json → Option α) : Json → Option (List α)
  | .array items => items.mapM read
  | _ => none

end Prerender.Json.Record
