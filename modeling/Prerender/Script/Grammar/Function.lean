import Prerender.Script.Grammar.Type

set_option autoImplicit false

namespace Prerender.Script.FunctionSyntax

open Parse

variable (g : Grammar)

def block : Parse Node := do
  let start ← position
  expect "\x7b"
  let statements ← upTo ["\x7d"] (g (.statement false))
  expect "\x7d"
  node .block start statements

def body : Parse Node :=
  within (fun c => { c with returns := true, hasIn := true, decorates := false }) (block g)

-- Type parameters, parameters, return type and body. Only a dialect with types lets the body be
-- left out.
def signature (async generator : Bool) : Parse (List Node) :=
  within (fun c => { c with hasIn := true, decorates := false, awaits := async, yields := generator }) do
    let generics ← TypeSyntax.parameters? g
    let parameters ← Pattern.parameters g
    let result ← TypeSyntax.returnType? g
    let body ←
      if ← sees "\x7b" then body g
      else if ← isTyped then absent
      else failure
    return [generics, parameters, result, body]

def lacksBody (parts : List Node) : Bool := parts.getLast?.any Node.isAbsent

inductive Use where
  | declaration
  | expression
  | exported
deriving DecidableEq, Repr

def bindingText? (n : Node) : Option String :=
  match n.kind with
  | .binding name => some name
  | _ => none

def function (use : Use) : Parse Node := do
  let start ← position
  let async ← eat "async"
  expect "function"
  let generator ← eat "*"
  let name ←
    if (← token).isName then
      if use = .expression then
        within (fun c => { c with awaits := async, yields := generator }) Pattern.bindingName
      else Pattern.bindingName
    else absent
  if use = .declaration && name.isAbsent then failure
  let parts ← signature g async generator
  if lacksBody parts then semicolon
  node (.function (bindingText? name)) start parts

def starts : Parse Bool := do
  if ← sees "function" then return true
  else
    let next ← peek
    return (← sees "async") && next.is "function" && !next.newline

def method (async generator : Bool) : Parse Node := do
  let start ← position
  let parts ← signature g async generator
  node (.function none) start parts

def isReceiver (n : Node) : Bool :=
  n.kind = .thisValue || (n.kind = .annotated && n.parts.head?.any (·.kind = .thisValue))

def parametersOf (f : Node) : List Node :=
  match f.parts with
  | _ :: parameters :: _ => parameters.parts.filter (!isReceiver ·)
  | _ => []

def accessor (isGetter : Bool) : Parse Node := do
  let f ← method g false false
  let parameters := parametersOf f
  if isGetter then flawIf (!parameters.isEmpty)
  else flawIf (parameters.length ≠ 1 || parameters.any Pattern.isRest)
  return f

def startsName (t : Token) : Bool :=
  match t.lexeme with
  | .word _ _ | .string _ | .number _ | .privateName _ => true
  | _ => t.is "["

structure Form where
  async : Bool
  generator : Bool
  accessor : Option Bool
deriving DecidableEq, Repr

def Form.isPlain (f : Form) : Bool := f = ⟨false, false, none⟩

def form : Parse Form := do
  let next ← peek
  if (← sees "async") && !next.newline && (startsName next || next.is "*") then
    advance
    return ⟨true, ← eat "*", none⟩
  else if (← seesAny ["get", "set"]) && startsName next then
    let isGetter ← sees "get"
    advance
    return ⟨false, false, some isGetter⟩
  else return ⟨false, ← eat "*", none⟩

end Prerender.Script.FunctionSyntax
