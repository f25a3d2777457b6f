import Prerender.Json.Basic

set_option autoImplicit false

namespace Prerender

inductive Serialization where
  | declarative
  | scoped
  | disabled
deriving DecidableEq, Repr

namespace ShadowRoot

inductive Mode where
  | declarative
  | scoped
deriving DecidableEq, Repr

def Mode.name : Mode → String
  | .declarative => "declarative-shadow-dom"
  | .scoped => "scoped"

def Mode.ofName? : String → Option Mode
  | "declarative-shadow-dom" => some .declarative
  | "scoped" => some .scoped
  | _ => none

def Mode.serialization : Mode → Serialization
  | .declarative => .declarative
  | .scoped => .scoped

structure Lists where
  declarativeTags : List String
  scopedTags : List String
  default : Mode
deriving DecidableEq, Repr

def Lists.find? (lists : Lists) (tag : String) : Option Mode :=
  if tag ∈ lists.scopedTags then some .scoped
  else if tag ∈ lists.declarativeTags then some .declarative
  else none

inductive Choice where
  | enabled (on : Bool)
  | mode (m : Mode)
  | perTag (lists : Lists)
deriving DecidableEq, Repr

namespace Choice

def default : Choice := .mode .declarative

def resolve : Choice → String → Serialization
  | .enabled true, _ => .declarative
  | .enabled false, _ => .disabled
  | .mode m, _ => m.serialization
  | .perTag lists, tag => ((lists.find? tag).getD lists.default).serialization

-- The lists are searched for the old tag first, then for its new name.
def resolveRenamed (choice : Choice) (tag renamed : String) : Serialization :=
  match choice with
  | .perTag lists =>
      match (lists.find? tag).or (lists.find? renamed) with
      | some m => m.serialization
      | none => choice.resolve tag
  | _ => choice.resolve tag

def toJson : Choice → Json
  | .enabled on => .bool on
  | .mode m => .string m.name
  | .perTag lists =>
      let names (key : String) (tags : List String) : List (String × Json) :=
        if tags.isEmpty then [] else [(key, .array (tags.map .string))]
      .object (names "declarative-shadow-dom" lists.declarativeTags ++ names "scoped" lists.scopedTags ++
        [("default", .string lists.default.name)])

def strings? : Json → Option (List String)
  | .array items => items.mapM Json.string?
  | _ => none

def mode? : Json → Option Mode
  | .string name => Mode.ofName? name
  | .object [(name, .null)] => Mode.ofName? name
  | _ => none

def lists? : Json → Option Lists
  | .object members => do
      let tags (key : String) : Option (List String) :=
        match Keyed.get? members key with
        | none => some []
        | some value => strings? value
      let default ← Keyed.get? members "default"
      return ⟨← tags "declarative-shadow-dom", ← tags "scoped", ← mode? default⟩
  | .array [declarative, inner, default] => do
      return ⟨← strings? declarative, ← strings? inner, ← mode? default⟩
  | _ => none

def ofJson? : Json → Option Choice
  | .bool on => some (.enabled on)
  | value => ((mode? value).map .mode).or ((lists? value).map .perTag)

end Choice
end ShadowRoot
end Prerender
