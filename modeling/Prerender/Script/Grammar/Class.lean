import Prerender.Script.Grammar.Function

set_option autoImplicit false

namespace Prerender.Script.ClassSyntax

open Parse

variable (g : Grammar)

def modifiers (typed : Bool) : List String :=
  ["static", "accessor"] ++
    if typed then ["public", "private", "protected", "readonly", "abstract", "override", "declare"] else []

-- Whether a modifier stands here; all but `static` have to be on the line of what they modify.
def seesModifier : Parse Bool := do
  if ← seesAny (modifiers (← isTyped)) then
    let next ← peek
    let isStatic ← sees "static"
    return (isStatic || !next.newline) &&
      (FunctionSyntax.startsName next || next.isOneOf ["*", "\x7b"])
  else return false

def modifiersCounted : Nat → Parse (List String)
  | 0 => failure
  | n + 1 => do
      if ← seesModifier then
        match (← token).lexeme with
        | .word text _ =>
            advance
            return text :: (← modifiersCounted n)
        | _ => failure
      else return []

def isNamed (text : String) (key : Node) : Bool := key.kind = .name text || key.kind = .string text

-- A method or a field. `computed` says that its name stands in brackets.
def namedMember (start : Nat) (isStatic : Bool) : Parse Node := do
  let form ← FunctionSyntax.form
  let computed ← sees "["
  let key ← Pattern.propertyName g
  flawIf (key.kind = .privateName "constructor")
  let isConstructor := !isStatic && !computed && isNamed "constructor" key
  flawIf (isStatic && !computed && isNamed "prototype" key)
  if ← isTyped then
    let _ ← eat "?"
    if !(← token).newline then
      let _ ← eat "!"
  if ← seesAny ["(", "<", "<<"] then
    flawIf (isConstructor && !form.isPlain)
    let f ←
      match form.accessor with
      | some isGetter => FunctionSyntax.accessor g isGetter
      | none => FunctionSyntax.method g form.async form.generator
    if FunctionSyntax.lacksBody f.parts then semicolon
    node .property start [key, f]
  else if !form.isPlain then failure
  else
    flawIf (!computed && isNamed "constructor" key)
    let type ← if ← eatIf (← isTyped) ":" then g .type else absent
    let value ←
      if ← eat "=" then
        within (fun c => { c with hasIn := true, decorates := false, awaits := false, yields := false })
          (g (.assignment true))
      else absent
    semicolon
    node .property start [key, type, value]

def member : Parse Node := do
  if ← eat ";" then absent
  else
    let ds ← Pattern.decorators g
    let start ← position
    let words ← modifiersCounted (← get).limit
    let isStatic := words.contains "static"
    if isStatic && (← sees "\x7b") then
      within (fun c =>
        { c with hasIn := true, awaits := true, yields := false, returns := false, decorates := false })
        (FunctionSyntax.block g)
    else if (← isTyped) && (← TypeSyntax.startsIndex) then
      let parts ← TypeSyntax.index g
      TypeSyntax.memberEnd
      node .typeSyntax start parts
    else Pattern.decorate ds (← namedMember g start isStatic)

def base : Parse Node := do
  let start ← position
  let e ← g .leftHand
  if (← isTyped) && (← seesAny ["<", "<<"]) then
    let arguments ← TypeSyntax.arguments g
    node .instantiation start [e, arguments]
  else return e

def heritageCounted : Nat → Parse (List Node)
  | 0 => failure
  | n + 1 => do
      let start ← position
      if ← eat "extends" then
        let bases ← separated "," (base g)
        flawIf (bases.length ≠ 1)
        let heritage ← node .heritage start bases
        let tail ← heritageCounted n
        flawIf (tail.any (·.kind = .heritage))
        return heritage :: tail
      else if ← eatIf (← isTyped) "implements" then
        let types ← separated "," (TypeSyntax.typeReference g)
        let implemented ← node .typeSyntax start types
        let tail ← heritageCounted n
        flawIf (!tail.isEmpty)
        return implemented :: tail
      else return []

def definition : Parse Node := do
  let start ← position
  expect "class"
  let isHeritage ← sees "implements"
  let name ←
    if (← token).isName && !isHeritage then Pattern.bindingName else absent
  let generics ← TypeSyntax.parameters? g
  let heritage ← heritageCounted g (← get).limit
  expect "\x7b"
  let members ← upTo ["\x7d"] (member g)
  expect "\x7d"
  node (.classDefinition (FunctionSyntax.bindingText? name)) start (generics :: heritage ++ members)

end Prerender.Script.ClassSyntax
