import Prerender.Json.Printer
import Prerender.Markup.OpenTag
import Prerender.ShadowRoot
import Prerender.Value.Envelope

set_option autoImplicit false

/-!
Renderers run components outside a browser: they are handed the HTML of one element and answer with
its content filled in.
-/
namespace Prerender

structure StyleSheet where
  href : Option String
  id : Option String
  content : String
deriving DecidableEq, Repr

namespace Renderer

structure Output where
  html : Option String
  styles : List StyleSheet
deriving DecidableEq, Repr

inductive Error where
  | io (message : String)
  | protocol (message : String)
  | failed (message : String)
deriving DecidableEq, Repr

def Error.message : Error → String
  | .io m => "Failed to run renderer: " ++ m
  | .protocol m => "Renderer protocol error: " ++ m
  | .failed m => "Renderer failed: " ++ m

-- One request: the HTML of an element, and how to serialize its shadow roots. Output has one element
-- per line and is no whole document.
structure Request where
  html : String
  shadowRoot : ShadowRoot.Choice
deriving DecidableEq, Repr

def Request.options (request : Request) : Json :=
  .object [("prettyHtml", .bool true), ("fullDocument", .bool false),
    ("serializeShadowRoot", request.shadowRoot.toJson)]

end Renderer

structure Renderer where
  render : Renderer.Request → Except Renderer.Error Renderer.Output
  encode : Value → String

namespace Renderer

structure Outcome (ε α : Type) where
  requests : List Request
  result : Except ε α

-- The only call of a renderer: who asks leaves a trace.
def ask (renderer : Renderer) (request : Request) : Outcome Error Output :=
  ⟨[request], renderer.render request⟩

def content (html : String) : String :=
  match Text.cutFirst? ['>'] html.toList with
  | none => ""
  | some (_, rest) => String.ofList (((Text.cutLast? ['<', '/'] rest).map (·.1)).getD [])

def hostAttribute : String × Option String → String
  | (name, some value) => " " ++ name ++ "=\"" ++ Markup.Entity.escape value ++ "\""
  | (name, none) => " " ++ name

-- The sample component: it greets the person named by the attributes `first`, `middleName` and
-- `last`. The element `broken-component` renders nothing.
def greet (request : Request) : Except Error Output :=
  match Markup.OpenTag.parse? request.html with
  | none => .error (.failed ("not an element: " ++ request.html))
  | some host =>
      let tag := host.name
      if tag = "broken-component" then .ok ⟨none, []⟩
      else
        let children := content request.html
        let attrs := String.join (host.attributes.map hostAttribute)
        let name := " ".intercalate (["first", "middleName", "last"].filterMap host.get?)
        match request.shadowRoot.resolve tag with
        | .declarative =>
            .ok ⟨some (
              "<" ++ tag ++ attrs ++ " class=\"hydrated\" s-id=\"1\">\n" ++
              "  <template shadowrootmode=\"open\">\n" ++
              "    <style>:host\x7bdisplay:block\x7d</style>\n" ++
              "    <div c-id=\"1.0.0.0\">Hello, World! I'm " ++ name ++ "</div>\n" ++
              "  </template>\n  <!--r.1-->\n  " ++ children ++ "\n</" ++ tag ++ ">"), []⟩
        | _ =>
            .ok ⟨some (
              "<" ++ tag ++ attrs ++ " class=\"sc-" ++ tag ++ "-h hydrated\" s-id=\"1\">\n" ++
              "  <div class=\"sc-" ++ tag ++ "\">" ++ children ++ "</div>\n</" ++ tag ++ ">"),
              [⟨none, some ("sc-" ++ tag), ".sc-" ++ tag ++ "-h\x7bdisplay:block\x7d"⟩]⟩

def greeter : Renderer := ⟨greet, Value.Envelope.encode⟩

end Renderer
end Prerender
