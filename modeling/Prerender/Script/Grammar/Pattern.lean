import Prerender.Script.Grammar.Basic

set_option autoImplicit false

namespace Prerender.Script.Pattern

open Parse

def isTaken (name : String) (c : Context) : Bool :=
  (c.awaits && name == "await") || (c.yields && name == "yield")

def bindingName : Parse Node := do
  match (← token).lexeme with
  | .word name _ =>
      if reservedWords.contains name then failure
      flawIf (isTaken name (← context))
      single (.binding name)
  | _ => failure

def wordName : Parse Node := do
  match (← token).lexeme with
  | .word name _ => single (.name name)
  | _ => failure

def stringLiteral : Parse Node := do
  match (← token).lexeme with
  | .string value => single (.string value)
  | _ => failure

variable (g : Grammar)

def propertyName : Parse Node := do
  match (← token).lexeme with
  | .word name _ => single (.name name)
  | .string value => single (.string value)
  | .number (some value) => single (.number value)
  | .number none => single .bigint
  | .privateName name => single (.privateName name)
  | _ =>
      expect "["
      let key ← within (fun c => { c with hasIn := true, decorates := false }) (g (.assignment true))
      expect "]"
      return key

def annotated (optional : Bool) : Parse Node := do
  let start ← position
  let target ← g .pattern
  if ← isTyped then
    if optional then
      let _ ← eat "?"
    if ← eat ":" then
      let type ← g .type
      node .annotated start [target, type]
    else return target
  else return target

def withDefault (start : Nat) (target : Node) : Parse Node := do
  if ← eat "=" then
    let value ← within (fun c => { c with hasIn := true, decorates := false }) (g (.assignment true))
    node .defaulted start [target, value]
  else return target

def element (optional : Bool) : Parse Node := do
  let start ← position
  withDefault g start (← annotated g optional)

def rest : Parse Node := do
  let start ← position
  expect "..."
  let target ← annotated g false
  let flawed ← sees "="
  flawIf flawed
  let whole ← withDefault g start target
  node .rest start [whole]

def isRest (n : Node) : Bool := n.kind = .rest

def misplacesRest (items : List Node) (comma : Bool) : Bool :=
  items.dropLast.any isRest || (comma && items.getLast?.any isRest)

def isBinding (n : Node) : Bool :=
  match n.kind with
  | .binding _ => true
  | _ => false

def property : Parse Node := do
  let start ← position
  if ← sees "..." then
    let r ← rest g
    flawIf (!r.parts.all isBinding)
    return r
  let t ← token
  let key ← propertyName g
  match t.lexeme, t.isName && !(← sees ":") with
  | .word name _, true =>
      flawIf (isTaken name (← context))
      let value ← withDefault g start (.mk (.binding name) key.span [])
      node .property start [key, value]
  | _, _ =>
      expect ":"
      let value ← element g false
      node .property start [key, value]

def item : Parse Node := do
  if ← sees "," then absent
  else if ← sees "..." then rest g
  else element g false

def target : Parse Node := do
  let start ← position
  if ← eat "\x7b" then
    let (properties, comma) ← commas "\x7d" (property g)
    expect "\x7d"
    flawIf (misplacesRest properties comma)
    node .objectPattern start properties
  else if ← eat "[" then
    let (items, comma) ← commas "]" (item g)
    expect "]"
    flawIf (misplacesRest items comma)
    node .arrayPattern start items
  else bindingName

def decorator : Parse Node := do
  let start ← position
  expect "@"
  let e ← within (fun c => { c with decorates := true }) (g .leftHand)
  node .decorator start [e]

def decoratorsCounted : Nat → Parse (List Node)
  | 0 => failure
  | n + 1 => do
      if ← sees "@" then
        let d ← decorator g
        return d :: (← decoratorsCounted n)
      else return []

def decorators : Parse (List Node) := do
  decoratorsCounted g (← get).limit

def decorate (ds : List Node) (n : Node) : Parse Node :=
  match ds with
  | [] => return n
  | d :: _ => node .decorated d.span.start (ds ++ [n])

def parameterModifiers : List String := ["public", "private", "protected", "readonly", "override"]

def seesModifier (words : List String) : Parse Bool := do
  if ← seesAny words then
    let next ← peek
    return !next.newline && (next.isWord || next.isOneOf ["\x7b", "["])
  else return false

def parameter : Parse Node := do
  let ds ← decorators g
  if ← isTyped then skipWhile (seesModifier parameterModifiers)
  if ← sees "..." then decorate ds (← rest g)
  else decorate ds (← element g true)

def receiver? : Parse (Option Node) := do
  if (← isTyped) && (← sees "this") then
    let start ← position
    let this ← single .thisValue
    let r ← if ← eat ":" then node .annotated start [this, ← g .type] else pure this
    if !(← sees ")") then expect ","
    return some r
  else return none

def parameters : Parse Node := do
  let start ← position
  expect "("
  let receiver ← receiver? g
  let (items, comma) ← commas ")" (parameter g)
  expect ")"
  flawIf (misplacesRest items comma)
  node .parameters start (receiver.toList ++ items)

end Prerender.Script.Pattern
