import Prerender.Json.Record
import Prerender.Loader

set_option autoImplicit false

/-!
The settings of a project, in four sections. A section is a record; where it is a list, the fields that
have no default must be there, and what is left over is passed over.
-/
namespace Prerender

namespace Config

structure Library where
  name : String
  components : Option String
  exports : Option (List String)
  entry : Option String
deriving DecidableEq, Repr

structure Hydrate where
  module : Option String
  runner : String
deriving DecidableEq, Repr

structure Output where
  strategy : Strategy
  shadowRoot : ShadowRoot.Choice
  policy : Policy
  extensions : List String
deriving DecidableEq, Repr

structure File where
  library : Library
  hydrate : Hydrate
  output : Output
  renames : Tag.Renames
deriving DecidableEq, Repr

inductive Error where
  | unreadable (path : String)
  | unparsable (path : String)
  | unwritable (path : String)
  | options (cause : Options.Error)
  | registry (cause : Registry.Error)
  | loader (cause : Loader.Error)
deriving DecidableEq, Repr

def Error.message? : Error → Option String
  | .unreadable path => some ("Failed to read " ++ path)
  | .unparsable path => some ("Failed to parse " ++ path)
  | .unwritable path => some ("Failed to write " ++ path)
  | .options cause => some cause.message
  | .registry (.unparsable _) => none
  | .registry cause => some cause.message
  | .loader cause => cause.message?

open Json Json.Record

def section? (names : List String) : Json → Option Source
  | .array items => source? names (.array (items.take names.length))
  | value => source? names value

def lenient {α : Type} (names : List String) (source : Source) (name : String) (read : Json → Option α) :
    Option (Option α) :=
  match source, pick names source name with
  | .positions _, none => none
  | _, field => orElse field none fun v => (read v).map some

def choice? {α : Type} (ofName? : String → Option α) : Json → Option α
  | .string name => ofName? name
  | .object [(name, .object [])] => ofName? name
  | .object [(name, .array [])] => ofName? name
  | _ => none

def Library.default : Library := ⟨"", none, none, none⟩

def Library.ofJson? (value : Json) : Option Library := do
  let names := ["from", "components", "exports", "module"]
  let source ← section? names value
  let name ← orElse (pick names source "from") "" string?
  let components ← lenient names source "components" string?
  let exports ← lenient names source "exports" (listOf string?)
  let entry ← lenient names source "module" string?
  return ⟨name, components, exports, entry⟩

def Hydrate.default : Hydrate := ⟨none, "node"⟩

def Hydrate.ofJson? (value : Json) : Option Hydrate := do
  let names := ["module", "node"]
  let source ← section? names value
  let module ← lenient names source "module" string?
  let runner ← orElse (pick names source "node") Hydrate.default.runner string?
  return ⟨module, runner⟩

def Output.default : Output := ⟨.react, .default, .strict, Loader.defaultExtensions⟩

def Output.ofJson? (value : Json) : Option Output := do
  let names := ["strategy", "serialize_shadow_root", "mode", "extensions"]
  let field := pick names (← section? names value)
  let strategy ← orElse (field "strategy") Output.default.strategy (choice? Strategy.ofName?)
  let shadowRoot ← orElse (field "serialize_shadow_root") Output.default.shadowRoot ShadowRoot.Choice.ofJson?
  let policy ← orElse (field "mode") Output.default.policy (choice? Policy.ofName?)
  let extensions ← orElse (field "extensions") Output.default.extensions (listOf string?)
  return ⟨strategy, shadowRoot, policy, extensions⟩

def renames? : Json → Option Tag.Renames
  | .object entries => entries.mapM fun (tag, name) => (string? name).map ((tag, ·))
  | _ => none

def File.ofJson? (value : Json) : Option File := do
  let library ← orElse (value.get? "library") Library.default Library.ofJson?
  let hydrate ← orElse (value.get? "hydrate") Hydrate.default Hydrate.ofJson?
  let output ← orElse (value.get? "ssr") Output.default Output.ofJson?
  let renames ← orElse (value.get? "tags") [] renames?
  return ⟨library, hydrate, output, renames⟩

def File.check (file : File) : Except Options.Error Unit :=
  let library := file.library
  if Options.isBlankText library.name then .error (.missing "library.from")
  else if library.components.isNone && library.exports.isNone && library.entry.isNone then
    .error (.missing "library.components")
  else if file.hydrate.module.isNone then .error (.missing "hydrate.module")
  else if file.output.extensions.isEmpty then
    .error (.invalid "ssr.extensions" "at least one extension is required")
  else .ok ()

end Config
end Prerender
