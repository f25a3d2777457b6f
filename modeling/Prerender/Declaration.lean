import Prerender.Element.Source
import Prerender.Rendering

set_option autoImplicit false

/-!
What a rendered component becomes in a module: one or two factories, the last of them bound to the name
that stands for the component in the call. Every element with markup from the server is marked, since
that markup never agrees with what a client would render.
-/
namespace Prerender

structure ComponentCall where
  identifier : String
  component : String
  tag : String
  props : Props

inductive Forward where
  | props
  | fixed (children : Option String)
deriving DecidableEq, Repr

namespace Declaration

inductive Body where
  | render (element : Element)
  | environment (client server : Element)
  | dynamic (module name : String) (loading : Element)

structure Factory where
  name : String
  body : Body

end Declaration

structure Declaration where
  identifier : String
  factories : List Declaration.Factory

namespace Declaration

open Element (AttrValue Attr Child)

-- The mark that switches off the comparison with the client's own rendering.
def mark (e : Element) : Element := e.attr "suppressHydrationWarning" (.flag true)

def styleAttr (style : Option Style) (text : String) : Attr :=
  .named "style" (.style (style.getD (Style.parseCss text)))

def hostAttr (style : Option Style) : String × Option String → Attr
  | (name, value) =>
      let text := value.getD ""
      if name = "style" then styleAttr style text
      else if name = "class" then .named "className" (.text text)
      else .named name (.text text)

def hostElement (tag : String) (host : Markup.OpenTag) (style : Option Style) (forward : Forward) :
    Element :=
  let written : Element := { Element.intrinsic tag with attrs := host.attributes.map (hostAttr style) }
  let styled :=
    match style with
    | some s =>
        if host.attributes.any fun a => a.1 == "style" then written
        else written.attr "style" (.style s)
    | none => written
  mark (match forward with
    | .props => styled.spread "props"
    | .fixed _ => styled)

def sheetElement (sheet : StyleSheet) : Element :=
  let named :=
    match sheet.id with
    | some id => (Element.intrinsic "style").attr "id" (.text id)
    | none => Element.intrinsic "style"
  (mark named).attr "dangerouslySetInnerHTML" (.innerHtml sheet.content)

-- The element of a rendered component. A shadow root stands in a template inside the host; scoped
-- markup stands in the host, behind its style sheets.
def renderElement (rendered : Rendered) (style : Option Style) (forward : Forward) : Element :=
  match rendered.markup with
  | .shadow host html =>
      let template :=
        (mark ((Element.intrinsic "template").attr "shadowrootmode" (.text "open"))).attr
          "dangerouslySetInnerHTML" (.innerHtml html)
      let element := (hostElement rendered.tag host style forward).nest template
      match forward with
      | .props => element.child (.expression "children")
      | .fixed (some text) => element.child (.text text)
      | .fixed none => element
  | .scoped host html =>
      let wrapper :=
        mark ((Element.intrinsic "div").attr "style" (.style [("display", .string "contents")]))
      let element :=
        (hostElement rendered.tag host style forward).attr "dangerouslySetInnerHTML" (.innerHtml html)
      (rendered.styles.foldl (fun e sheet => e.nest (sheetElement sheet)) wrapper).nest element

def withProps (e : Element) (props : Props) : Element :=
  let valued := (props.values.filter fun p => !p.2.isIdentifier).foldl
    (fun e (name, value) => e.attr name (.value value)) e
  let styled :=
    match props.style with
    | some style => valued.attr "style" (.style style)
    | none => valued
  match props.children with
  | some text => styled.child (.text text)
  | none => styled

def build (call : ComponentCall) (rendered : Rendered) (strategy : Strategy) (library : String) :
    Declaration :=
  let element := renderElement rendered call.props.style .props
  let factories : List Factory :=
    match rendered.markup, strategy with
    | .shadow _ _, .nextjs =>
        let fallback := call.identifier ++ "Fallback"
        let client :=
          (mark ((Element.intrinsic rendered.tag).spread "props")).child (.expression "children")
        [⟨fallback, .environment client element⟩,
          ⟨call.identifier, .dynamic library call.component
            (withProps ⟨.component fallback, [], []⟩ call.props)⟩]
    | _, _ => [⟨call.identifier, .render element⟩]
  ⟨call.identifier, factories⟩

def params : String := "(\x7b children, ...props \x7d)"

def test : String := "typeof window !== \"undefined\""

def Factory.jsx (f : Factory) : String :=
  "const " ++ f.name ++ " = " ++
    match f.body with
    | .render element => params ++ " => (\n  " ++ element.jsx ++ "\n);"
    | .environment client server =>
        params ++ " => " ++ test ++ "\n  ? " ++ client.jsx ++ "\n  : " ++ server.jsx ++ ";"
    | .dynamic module name loading =>
        "dynamic(() => import(" ++ Text.Quoted.script module ++ ").then((m) => m." ++ name ++
          "), \x7b\n  ssr: false,\n  loading: () => " ++ loading.jsx ++ ",\n\x7d);"

def jsx (d : Declaration) : String := "\n".intercalate (d.factories.map Factory.jsx)

def Factory.code (h dynamic : String) (f : Factory) : String :=
  "const " ++ f.name ++ " = " ++
    match f.body with
    | .render element => params ++ " => " ++ element.creation h ++ ";"
    | .environment client server =>
        params ++ " => " ++ test ++ " ? " ++ client.creation h ++ " : " ++ server.creation h ++ ";"
    | .dynamic module name loading =>
        dynamic ++ "(() => import(" ++ Text.Quoted.script module ++ ").then((m) => m." ++ name ++
          "), \x7b ssr: false, loading: () => " ++ loading.creation h ++ " \x7d);"

def code (h dynamic : String) (d : Declaration) : String :=
  "\n".intercalate (d.factories.map (Factory.code h dynamic))

def usesDynamic (d : Declaration) : Bool :=
  d.factories.any fun f =>
    match f.body with
    | .dynamic .. => true
    | _ => false

end Declaration
end Prerender
