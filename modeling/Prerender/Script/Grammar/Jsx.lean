import Prerender.Script.Grammar.Type

set_option autoImplicit false

namespace Prerender.Script.Jsx

open Parse

def advanceInTags : Parse Unit := do moveTo (← token).nextInTags

def close (symbol : String) (inTags : Bool) : Parse Unit := do
  if inTags then
    if ← sees symbol then advanceInTags else failure
  else expect symbol

def namePart : Parse String := do
  reread (← token).asJsxName
  match (← token).lexeme with
  | .word text _ =>
      advance
      return text
  | _ => failure

def namePartsCounted : Nat → Parse String
  | 0 => failure
  | n + 1 => do
      if ← eat "." then
        let part ← namePart
        return "." ++ part ++ (← namePartsCounted n)
      else return ""

def attributeName : Parse Node := do
  let start ← position
  let first ← namePart
  if ← eat ":" then
    let second ← namePart
    node (.jsxName (first ++ ":" ++ second)) start []
  else node (.jsxName first) start []

def elementName : Parse Node := do
  let start ← position
  let first ← namePart
  if ← eat ":" then
    let second ← namePart
    node (.jsxName (first ++ ":" ++ second)) start []
  else
    let members ← namePartsCounted (← get).limit
    node (.jsxName (first ++ members)) start []

variable (g : Grammar)

def expression : Parse Node := do
  let e ← within (fun c =>
    { c with hasIn := true, yields := false, decorates := false, unconditional := false }) (g .expression)
  flawIf (e.kind = .sequence)
  return e

def container (inTags : Bool) : Parse Node := do
  let start ← position
  expect "\x7b"
  if ← sees "\x7d" then
    flawIf (!inTags)
    close "\x7d" inTags
    node .jsxContainer start []
  else
    if inTags then
      let _ ← eat "..."
    let e ← expression g
    close "\x7d" inTags
    node .jsxContainer start [e]

def attributeEntry : Parse Node := do
  let start ← position
  if ← eat "\x7b" then
    expect "..."
    let e ← expression g
    expect "\x7d"
    node .spread start [e]
  else
    let name ← attributeName
    if ← sees "=" then
      moveTo ((← token).nextInAttribute (html (← get)))
      let value ←
        match (← token).lexeme with
        | .string text => single (.string text)
        | _ =>
            if ← sees "\x7b" then container g false
            else if ← sees "<" then g (.jsx false)
            else failure
      node .jsxAttribute start [name, value]
    else node .jsxAttribute start [name]

def attributesCounted : Nat → Parse (List Node)
  | 0 => failure
  | n + 1 => do
      if ← seesAny ["/", ">"] then return []
      else
        let a ← attributeEntry g
        return a :: (← attributesCounted n)

def childrenCounted : Nat → Parse (List Node)
  | 0 => failure
  | n + 1 => do
      match (← token).lexeme with
      | .jsxText =>
          let t ← token
          advanceInTags
          return .mk .jsxText ⟨t.start, t.stop⟩ [] :: (← childrenCounted n)
      | _ =>
          if ← sees "\x7b" then
            let c ← container g true
            return c :: (← childrenCounted n)
          else if ← sees "<" then
            if (← peek).is "/" then return []
            let e ← g (.jsx true)
            return e :: (← childrenCounted n)
          else failure

def element (inTags : Bool) : Parse Node := do
  let start ← position
  expect "<"
  if ← sees ">" then
    advanceInTags
    let children ← childrenCounted g (← get).limit
    expect "<"
    expect "/"
    close ">" inTags
    node .jsxElement start children
  else
    let name ← elementName
    let generics ← if (← isTyped) && (← token).isOneOf ["<", "<<"] then TypeSyntax.arguments g else absent
    let attributes ← attributesCounted g (← get).limit
    if ← eat "/" then
      close ">" inTags
      node .jsxElement start (name :: generics :: attributes)
    else
      close ">" true
      let children ← childrenCounted g (← get).limit
      expect "<"
      expect "/"
      let closing ← elementName
      flawIf (closing.kind ≠ name.kind)
      close ">" inTags
      node .jsxElement start (name :: generics :: attributes ++ children)

end Prerender.Script.Jsx
