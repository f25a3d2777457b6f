import Prerender.Json.Reader
import Prerender.Json.Record
import Prerender.Registry.Basic

set_option autoImplicit false

/-!
Component metadata in JSON: a list of components, or an object whose `components` is that list. Fields
may be left out unless they are the name of a member or the tag of a component.
-/
namespace Prerender.Registry

open Json.Record

def MemberType.ofJson? (value : Json) : Option MemberType := do
  let names := ["original", "resolved", "references"]
  let field := pick names (← source? names value)
  let written ← orElse (field "original") "" Json.string?
  let resolved ← orElse (field "resolved") "" Json.string?
  return ⟨written, resolved, ((field "references").getD .null).merge⟩

def Member.ofJson? (value : Json) : Option Member := do
  let names := ["name", "attribute", "complexType", "docs"]
  let field := pick names (← source? names value)
  let name ← (field "name").bind Json.string?
  let attr ← orElse (field "attribute") none (optional Json.string?)
  let type ← orElse (field "complexType") none (optional MemberType.ofJson?)
  return ⟨name, attr, type, ((field "docs").getD .null).merge⟩

def Metadata.ofJson? (value : Json) : Option Metadata := do
  let names := ["tagName", "componentClassName", "properties", "events", "methods", "internal"]
  let field := pick names (← source? names value)
  let members (name : String) := orElse (field name) [] (listOf Member.ofJson?)
  let tag ← (field "tagName").bind Json.string?
  let className ← orElse (field "componentClassName") "" Json.string?
  let isInternal ← orElse (field "internal") false Json.bool?
  return ⟨tag, className, ← members "properties", ← members "events", ← members "methods", isInternal⟩

def metadata? : Json → Option (List Metadata)
  | .array items => items.mapM Metadata.ofJson?
  | .object entries =>
      match entries.filter fun e => e.1 = "components" with
      | [(_, value)] => listOf Metadata.ofJson? value
      | _ => none
  | _ => none

def ofMetadataText? (text : String) : Option Registry :=
  ((Json.parseRaw? Json.nesting text).bind metadata?).map ofMetadata

end Prerender.Registry
