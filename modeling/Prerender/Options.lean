import Prerender.Registry.Basic
import Prerender.ShadowRoot
import Prerender.Text.Blank

set_option autoImplicit false

namespace Prerender

inductive Strategy where
  | react
  | nextjs
deriving DecidableEq, Repr

def Strategy.name : Strategy → String
  | .react => "react"
  | .nextjs => "nextjs"

def Strategy.ofName? : String → Option Strategy
  | "react" => some .react
  | "nextjs" => some .nextjs
  | _ => none

structure Options where
  library : String
  registry : Registry
  shadowRoot : ShadowRoot.Choice
  strategy : Strategy
  renames : Tag.Renames

namespace Options

inductive Error where
  | missing (option : String)
  | invalid (option reason : String)
deriving DecidableEq, Repr

def Error.message : Error → String
  | .missing option => "Missing required option: " ++ option
  | .invalid option reason => "Invalid option " ++ option ++ ": " ++ reason

def isBlankText (s : String) : Bool := s.toList.all Text.isBlank

def check (options : Options) : Except Error Unit :=
  if isBlankText options.library then .error (.missing "from")
  else if options.registry.size = 0 then
    .error (.invalid "components" "no components are registered")
  else .ok ()

end Options
end Prerender
