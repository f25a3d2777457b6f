import Prerender.Style.Basic

set_option autoImplicit false

namespace Prerender

namespace Element

inductive Tag where
  | intrinsic (name : String)
  | component (name : String)
deriving DecidableEq, Repr

def Tag.name : Tag → String
  | .intrinsic name => name
  | .component name => name

inductive AttrValue where
  | text (s : String)
  | flag (b : Bool)
  | style (style : Style)
  | innerHtml (html : String)
  | expression (source : String)
  | value (v : Value)

inductive Attr where
  | named (name : String) (value : AttrValue)
  | spread (source : String)

inductive Child where
  | element (tag : Tag) (attrs : List Attr) (children : List Child)
  | expression (source : String)
  | text (s : String)

end Element

structure Element where
  tag : Element.Tag
  attrs : List Element.Attr
  children : List Element.Child

namespace Element

def intrinsic (name : String) : Element := ⟨.intrinsic name, [], []⟩

def attr (e : Element) (name : String) (value : AttrValue) : Element :=
  { e with attrs := e.attrs ++ [.named name value] }

def spread (e : Element) (source : String) : Element :=
  { e with attrs := e.attrs ++ [.spread source] }

def toChild (e : Element) : Child := .element e.tag e.attrs e.children

def child (e : Element) (c : Child) : Element := { e with children := e.children ++ [c] }

def nest (e : Element) (inner : Element) : Element := e.child inner.toChild

def get? (e : Element) (name : String) : Option AttrValue :=
  e.attrs.findSome? fun
    | .named n value => if n = name then some value else none
    | .spread _ => none

end Element
end Prerender
