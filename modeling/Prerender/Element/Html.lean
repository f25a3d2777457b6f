import Prerender.Element.Basic
import Prerender.Markup.Entity
import Prerender.Style.Css
import Prerender.Value.Envelope

set_option autoImplicit false

/-!
Elements as HTML. Expressions and spreads have no value here and are left out.
-/
namespace Prerender.Element

def clientOnly : List String := ["key", "ref", "suppressHydrationWarning"]

def domName (name : String) : String := if name = "className" then "class" else name

inductive Written where
  | nothing
  | bare
  | text (s : String)
deriving DecidableEq, Repr

def AttrValue.written : AttrValue → Written
  | .text s => .text s
  | .flag true => .bare
  | .flag false => .nothing
  | .style s => .text s.css
  | .innerHtml _ => .nothing
  | .expression _ => .nothing
  | .value (.bool false) => .nothing
  | .value .undefined => .nothing
  | .value v => .text (v.attributeText?.getD (Value.Envelope.encode v))

def Attr.html : Attr → String
  | .spread _ => ""
  | .named name value =>
      if name ∈ clientOnly then ""
      else
        match value.written with
        | .nothing => ""
        | .bare => " " ++ domName name
        | .text s => " " ++ domName name ++ "=\"" ++ Markup.Entity.escape s ++ "\""

def innerHtml? (attrs : List Attr) : Option String :=
  attrs.foldl (fun found a =>
    match a with
    | .named name (.innerHtml html) => if name ∈ clientOnly then found else some html
    | _ => found) none

mutual
def Child.html : Child → String
  | .element tag attrs children =>
      "<" ++ tag.name ++ String.join (attrs.map Attr.html) ++ ">" ++
        ((innerHtml? attrs).getD (Child.htmlAll children)) ++ "</" ++ tag.name ++ ">"
  | .expression _ => ""
  | .text s => Markup.Entity.escape s
def Child.htmlAll : List Child → String
  | [] => ""
  | child :: children => child.html ++ Child.htmlAll children
end

def html (e : Element) : String := e.toChild.html

end Prerender.Element
