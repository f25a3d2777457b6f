import Prerender.Declaration

set_option autoImplicit false

/-!
Rendering at request time, when the props are known. In the browser the element is written as it is
and comes to life by itself; on the server it is rendered.
-/
namespace Prerender

inductive Environment where
  | browser
  | server
deriving DecidableEq, Repr

namespace RequestTime

-- Where and how the component `tag` is rendered. In the browser `tag` is its name after renaming.
inductive Binding where
  | client (tag : String)
  | server (tag : String)
deriving DecidableEq, Repr

def bind (options : Options) (tag : String) : Environment → Binding
  | .browser => .client (Tag.rename options.renames tag)
  | .server => .server tag

def clientElement (tag : String) (props : Props) : Element :=
  let valued := props.values.foldl (fun e (name, value) => e.attr name (.value value))
    (Element.intrinsic tag)
  let styled :=
    match props.style with
    | some style => valued.attr "style" (.style style)
    | none => valued
  match props.children with
  | some text => styled.child (.text text)
  | none => styled

def requests (options : Options) (renderer : Renderer) (props : Props) : Binding → List Renderer.Request
  | .client _ => []
  | .server tag => (Rendering.ask options renderer tag props).requests

def render (options : Options) (renderer : Renderer) (props : Props) :
    Binding → Except Rendering.Error Element
  | .client tag => .ok (clientElement tag props)
  | .server tag => do
      let rendered ← Rendering.run options renderer tag props
      return Declaration.renderElement rendered props.style (.fixed props.children)

def renderHtml (options : Options) (renderer : Renderer) (props : Props) (binding : Binding) :
    Except Rendering.Error String :=
  (render options renderer props binding).map Element.html

end RequestTime
end Prerender
