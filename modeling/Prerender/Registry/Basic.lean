import Prerender.Json.Basic
import Prerender.Tag

set_option autoImplicit false

namespace Prerender

namespace Registry

structure MemberType where
  written : String
  resolved : String
  references : Json

structure Member where
  name : String
  attr : Option String
  type : Option MemberType
  docs : Json

structure Metadata where
  tag : String
  className : String
  properties : List Member
  events : List Member
  methods : List Member
  isInternal : Bool

structure Component where
  name : String
  tag : String
  metadata : Option Metadata

inductive Error where
  | fileNotFound (path : String)
  | unreadable (path cause : String)
  | unparsable (path : String)
deriving DecidableEq, Repr

def Error.message : Error → String
  | .fileNotFound path => "Component source not found: " ++ path
  | .unreadable path cause => "Failed to read " ++ path ++ ": " ++ cause
  | .unparsable path => "Failed to parse " ++ path

end Registry

structure Registry where
  entries : List (String × Registry.Component)

namespace Registry

def empty : Registry := ⟨[]⟩

def insert (registry : Registry) (component : Component) : Registry :=
  ⟨Keyed.put registry.entries component.name component⟩

def get? (registry : Registry) (name : String) : Option Component :=
  Keyed.get? registry.entries name

def contains (registry : Registry) (name : String) : Bool := (registry.get? name).isSome

def components (registry : Registry) : List Component := registry.entries.map (·.2)

def size (registry : Registry) : Nat := registry.entries.length

def tagOf (registry : Registry) (name : String) : String :=
  match registry.get? name with
  | some component => component.tag
  | none => Tag.ofExport name

def ofNames (names : List String) : Registry :=
  names.foldl (fun registry name => registry.insert ⟨name, Tag.ofExport name, none⟩) empty

def ofMetadata (all : List Metadata) : Registry :=
  (all.filter fun m => !m.isInternal).foldl (fun registry m =>
    let name := if m.className = "" then Tag.toExport m.tag else m.className
    registry.insert ⟨name, m.tag, some m⟩) empty

def isComponentName (name : String) : Bool :=
  match name.toList with
  | [] => false
  | c :: _ => c.isUpper

end Registry
end Prerender
