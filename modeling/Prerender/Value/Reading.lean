import Prerender.Props
import Prerender.Script.Tree

set_option autoImplicit false

/-!
Reading values off the tree of a script. Only literals are understood, and constructions of maps, sets
and symbols; a part that is not understood is left out of what holds it.
-/
namespace Prerender
namespace Value

open Script (Node Kind)

def ofName : String → Value
  | "Infinity" => .number (1.0 / 0.0)
  | "NaN" => .number (0.0 / 0.0)
  | "undefined" => .undefined
  | name => .identifier name

def negated? : Value → Option Value
  | .number x => some (.number (-x))
  | _ => none

def symbol? : Value → Option Value
  | .string s => some (.symbol s)
  | .number x => some (.symbol (numberText x))
  | _ => none

def pair? : Value → Option (Value × Value)
  | .array [key, value] => some (key, value)
  | _ => none

def collection? (name : String) : Value → Option Value
  | .array items =>
      if name = "Set" then some (.set items)
      else if name = "Map" then some (.map (items.filterMap pair?))
      else none
  | _ => none

def keyText? (key : Node) : Option String :=
  match key.kind with
  | .name text => some text
  | .string text => some text
  | .number x => some (numberText x)
  | _ => none

mutual
def ofNode? : Node → Option Value
| .mk (.string s) _ _ => some (.string s)
| .mk (.number x) _ _ => some (.number x)
| .mk (.boolean b) _ _ => some (.bool b)
| .mk .null _ _ => some .null
| .mk (.template pieces) _ [] => some (.string (String.join (pieces.map (·.getD ""))))
| .mk (.reference name) _ _ => some (ofName name)
| .mk (.unary operator) _ [e] => if operator = "-" then (ofNode? e).bind negated? else none
| .mk (.array _) _ items => some (.array (itemsOf items))
| .mk (.object _) _ properties => some (.object (entriesOf properties))
| .mk .construct _ [.mk (.reference name) _ _, _] => collection? name (.array [])
| .mk .construct _ (.mk (.reference name) _ _ :: _ :: e :: _) => (ofNode? e).bind (collection? name)
| .mk .call _ [.mk (.reference name) _ _, _] => if name = "Symbol" then some (.symbol "") else none
| .mk .call _ (.mk (.reference name) _ _ :: _ :: .mk .spread _ _ :: _) =>
    if name = "Symbol" then some (.symbol "") else none
| .mk .call _ (.mk (.reference name) _ _ :: _ :: e :: _) =>
    if name = "Symbol" then (ofNode? e).bind symbol? else none
| .mk .parenthesized _ [e] => ofNode? e
| .mk .ascription _ (e :: _) => ofNode? e
| _ => none
def itemsOf : List Node → List Value
| [] => []
| n :: ns => (ofNode? n).toList ++ itemsOf ns
def entriesOf : List Node → List (String × Value)
| [] => []
| .mk .property _ [key, value] :: ns =>
    (match keyText? key, ofNode? value with
      | some k, some v => [(k, v)]
      | _, _ => []) ++ entriesOf ns
| _ :: ns => entriesOf ns
end

end Value

def Props.ofProperties (properties : List Script.Node) : Props :=
  Props.ofValues (Value.entriesOf properties) none

end Prerender
