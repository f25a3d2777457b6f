import Prerender.Style.Basic
import Prerender.Text.Blank
import Prerender.Text.Search

set_option autoImplicit false

/-!
Styles as CSS text, in both directions. A number other than zero is a length in pixels unless its
property has no unit. Read back, every value is a string.
-/
namespace Prerender.Style

def unitless : List String := [
  "animationIterationCount", "aspectRatio", "borderImageOutset", "borderImageSlice",
  "borderImageWidth", "boxFlex", "boxFlexGroup", "boxOrdinalGroup", "columnCount", "columns", "flex",
  "flexGrow", "flexPositive", "flexShrink", "flexNegative", "flexOrder", "gridArea", "gridRow",
  "gridRowEnd", "gridRowSpan", "gridRowStart", "gridColumn", "gridColumnEnd", "gridColumnSpan",
  "gridColumnStart", "fontWeight", "lineClamp", "lineHeight", "opacity", "order", "orphans", "scale",
  "tabSize", "widows", "zIndex", "zoom", "fillOpacity", "floodOpacity", "stopOpacity",
  "strokeDasharray", "strokeDashoffset", "strokeMiterlimit", "strokeOpacity", "strokeWidth"]

def isCustom (name : List Char) : Bool := Text.startsWith ['-', '-'] name

def unprefixed (name : List Char) : List Char :=
  let behind (vendor : String) : Option (List Char) :=
    match Text.after? vendor.toList name with
    | some (c :: rest) => if c.isUpper then some (c.toLower :: rest) else none
    | _ => none
  (["Webkit", "Moz", "ms", "O"].findSome? behind).getD name

def isUnitless (name : String) : Bool :=
  isCustom name.toList || unitless.contains (String.ofList (unprefixed name.toList))

-- `backgroundColor` is `background-color`, `WebkitTransform` `-webkit-transform` and `msFlex`
-- `-ms-flex`. Custom properties keep their name.
def cssName (name : String) : String :=
  let cs := name.toList
  if isCustom cs then name
  else
    let out := cs.flatMap fun c => if c.isUpper then ['-', c.toLower] else [c]
    String.ofList (if Text.startsWith ['m', 's', '-'] out then '-' :: out else out)

def camel : Bool → List Char → List Char
  | _, [] => []
  | capital, c :: cs =>
      if c = '-' then camel true cs
      else (if capital then c.toUpper else c) :: camel false cs

def scriptName (name : List Char) : List Char :=
  if isCustom name then name
  else
    match Text.after? ['-', 'm', 's', '-'] name with
    | some rest => camel false ('m' :: 's' :: '-' :: rest)
    | none => camel false (name.dropWhile (· = '-'))

def valueText? (name : String) : Json → Option String
  | .string s => some s
  | .number n =>
      let x := n.toFloat
      let text := Value.numberText x
      some (if x == 0.0 || isUnitless name then text else text ++ "px")
  | .bool b => some (Value.boolText b)
  | _ => none

def css (style : Style) : String :=
  " ".intercalate <| style.filterMap fun (name, value) =>
    (valueText? name value).map fun text => cssName name ++ ": " ++ text ++ ";"

def addDeclaration (style : Style) (declaration : List Char) : Style :=
  match Text.cutFirst? [':'] declaration with
  | none => style
  | some (name, value) =>
      let name := Text.trim name
      let value := Text.trim value
      if name.isEmpty || value.isEmpty then style
      else Keyed.put style (String.ofList (scriptName name)) (.string (String.ofList value))

def parseCss (text : String) : Style :=
  (Text.splitOn (· = ';') text.toList).foldl addDeclaration []

end Prerender.Style
