import Prerender.Element.Basic
import Prerender.Text.Blank
import Prerender.Value.Literal

set_option autoImplicit false

namespace Prerender.Element

def isPlainAttribute (s : String) : Bool :=
  s.toList.all fun c => c != '"' && c != '\\' && c != '\n' && c != '\r'

def isPlainText (s : String) : Bool :=
  let cs := s.toList
  !cs.isEmpty && cs.all (fun c => c != '{' && c != '}' && c != '<' && c != '>' && c != '\n') &&
    Text.trim cs == cs

def braces (s : String) : String := "\x7b" ++ s ++ "\x7d"

def AttrValue.jsx : AttrValue → String
  | .text s => if isPlainAttribute s then "\"" ++ s ++ "\"" else braces (Text.Quoted.script s)
  | .flag b => braces (Value.boolText b)
  | .style s => braces s.literal
  | .innerHtml html => braces (braces (" __html: " ++ Text.Quoted.script html ++ " "))
  | .expression source => braces source
  | .value v => braces v.literal

def Attr.jsx : Attr → String
  | .named name value => name ++ "=" ++ value.jsx
  | .spread source => braces ("..." ++ source)

mutual
def Child.jsx : Child → String
  | .element tag attrs children =>
      "<" ++ tag.name ++ String.join (attrs.map fun a => " " ++ a.jsx) ++
        if children.isEmpty then " />"
        else ">" ++ Child.jsxAll children ++ "</" ++ tag.name ++ ">"
  | .expression source => braces source
  | .text s => if isPlainText s then s else braces (Text.Quoted.script s)
def Child.jsxAll : List Child → String
  | [] => ""
  | child :: children => child.jsx ++ Child.jsxAll children
end

def jsx (e : Element) : String := e.toChild.jsx

def isIdentifierName (s : String) : Bool :=
  match s.toList with
  | [] => false
  | c :: cs =>
      (c.isAlpha || c == '_' || c == '$') && cs.all fun c => c.isAlphanum || c == '_' || c == '$'

def keyText (name : String) : String :=
  if isIdentifierName name then name else Text.Quoted.script name

def AttrValue.argument : AttrValue → String
  | .text s => Text.Quoted.script s
  | .flag b => Value.boolText b
  | .style s => s.literal
  | .innerHtml html => braces (" __html: " ++ Text.Quoted.script html ++ " ")
  | .expression source => source
  | .value v => v.literal

def Attr.argument : Attr → String
  | .named name value => keyText name ++ ": " ++ value.argument
  | .spread source => "..." ++ source

def Tag.argument : Tag → String
  | .intrinsic name => Text.Quoted.script name
  | .component name => name

def attrsArgument (attrs : List Attr) : String :=
  if attrs.isEmpty then "null" else braces (" " ++ ", ".intercalate (attrs.map Attr.argument) ++ " ")

mutual
def Child.creation (h : String) : Child → String
  | .element tag attrs children =>
      h ++ "(" ++ tag.argument ++ ", " ++ attrsArgument attrs ++ Child.creations h children ++ ")"
  | .expression source => source
  | .text s => Text.Quoted.script s
def Child.creations (h : String) : List Child → String
  | [] => ""
  | child :: children => ", " ++ child.creation h ++ Child.creations h children
end

def creation (h : String) (e : Element) : String := e.toChild.creation h

end Prerender.Element
