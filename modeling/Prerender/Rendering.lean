import Prerender.Element.Html
import Prerender.Markup.Split
import Prerender.Options
import Prerender.Props
import Prerender.Renderer

set_option autoImplicit false

namespace Prerender

structure Rendered where
  tag : String
  serialization : Serialization
  markup : Markup
  styles : List StyleSheet

namespace Rendering

def unwritten : List String :=
  ["children", "key", "ref", "style", "suppressHydrationWarning", "dangerouslySetInnerHTML"]

def attributeText? (encode : Value → String) : Value → Option String
  | .bool false => none
  | .undefined => none
  | v => some (v.attributeText?.getD (encode v))

def attributeList (encode : Value → String) (props : Props) : List (String × String) :=
  let ofValues := props.values.filterMap fun (name, value) =>
    if name ∈ unwritten then none
    else (attributeText? encode value).map fun text => (Element.domName name, text)
  let ofStyle :=
    match props.style with
    | none => []
    | some style => if style.css = "" then [] else [("style", style.css)]
  ofValues ++ ofStyle

def attributeSource : String × String → String
  | (name, text) => " " ++ name ++ "=\"" ++ Markup.Entity.escape text ++ "\""

def attributes (encode : Value → String) (props : Props) : String :=
  String.join ((attributeList encode props).map attributeSource)

def source (encode : Value → String) (tag : String) (props : Props) : String :=
  "<" ++ tag ++ attributes encode props ++ ">" ++
    Markup.Entity.escape (props.children.getD "") ++ "</" ++ tag ++ ">"

inductive Error where
  | renderer (tag : String) (cause : Renderer.Error)
  | emptyMarkup (tag : String)
  | markup (tag : String) (cause : Markup.Error)
deriving DecidableEq, Repr

def Error.message : Error → String
  | .renderer tag cause => s!"Failed to render <{tag}>: " ++ cause.message
  | .emptyMarkup tag => s!"Renderer returned no markup for <{tag}>"
  | .markup tag cause => s!"Unexpected markup for <{tag}>: " ++ cause.message

def request (options : Options) (renderer : Renderer) (tag : String) (props : Props) :
    Renderer.Request :=
  ⟨source renderer.encode (Tag.rename options.renames tag) props, options.shadowRoot⟩

def receive (options : Options) (tag : String) (answer : Except Renderer.Error Renderer.Output) :
    Except Error Rendered :=
  let renamed := Tag.rename options.renames tag
  match answer with
  | .error cause => .error (.renderer renamed cause)
  | .ok output =>
      match output.html.filter fun html => !Options.isBlankText html with
      | none => .error (.emptyMarkup renamed)
      | some html =>
          let serialization := options.shadowRoot.resolveRenamed tag renamed
          match Markup.split html renamed serialization with
          | .error cause => .error (.markup renamed cause)
          | .ok markup => .ok ⟨renamed, serialization, markup, output.styles⟩

def ask (options : Options) (renderer : Renderer) (tag : String) (props : Props) :
    Renderer.Outcome Error Rendered :=
  let asked := renderer.ask (request options renderer tag props)
  ⟨asked.requests, receive options tag asked.result⟩

def run (options : Options) (renderer : Renderer) (tag : String) (props : Props) :
    Except Error Rendered :=
  (ask options renderer tag props).result

theorem run_eq (options : Options) (renderer : Renderer) (tag : String) (props : Props) :
    run options renderer tag props =
      receive options tag (renderer.render (request options renderer tag props)) := rfl

end Rendering
end Prerender
