import Prerender.Script.Grammar.Pattern

set_option autoImplicit false

/-!
Types. A type is read to know where it ends; of what it means nothing is kept but the expressions in it.
-/
namespace Prerender.Script.TypeSyntax

open Parse

variable (g : Grammar)

def list (close : String) (item : Parse Node) : Parse Node := do
  let start ← position
  narrow
  expect "<"
  let (items, _) ← commas close item
  flawIf items.isEmpty
  return .mk .typeSyntax ⟨start, start⟩ items

def arguments : Parse Node := do
  let start ← position
  let l ← list ">" (g .type)
  expect ">"
  node .typeSyntax start l.parts

def startsExpression (t : Token) : Bool :=
  match t.lexeme with
  | .finish | .unknown | .jsxText => false
  | .symbol _ =>
      t.isOneOf ["(", "[", "\x7b", "+", "-", "~", "!", "++", "--", "<", "<<", "/", "/=", "@"]
  | .word s _ =>
      !reservedWords.contains s ||
        ["this", "super", "null", "true", "false", "function", "class", "new", "delete", "typeof",
          "void", "import"].contains s
  | _ => true

-- Symbols that no expression goes on with behind type arguments, and the operators that it does.
def followsArguments (t : Token) : Bool :=
  t.is "(" || t.isTemplate ||
    (!t.isOneOf ["<", ">", "+", "-"] &&
      (t.newline ||
        t.isOneOf ["??", "||", "&&", "|", "^", "&", "==", "!=", "===", "!==", "<=", "<<", "*", "/", "%",
          "**", "instanceof", "in", "as", "satisfies"] ||
        !startsExpression t))

def argumentsInExpression : Parse Node := do
  let start ← position
  let l ← list ">" (g .type)
  if (← token).widened.is ">" then
    expect ">"
    if followsArguments (← token) then node .typeSyntax start l.parts else failure
  else failure

def seesParameterModifier : Parse Bool := do
  if ← seesAny ["const", "in"] then return true
  else if ← sees "out" then return (← peek).isWord
  else return false

def parameter : Parse Node := do
  let start ← position
  skipWhile seesParameterModifier
  let name ← Pattern.bindingName
  let constraint ← if ← eat "extends" then g .type else absent
  let default ← if ← eat "=" then g .type else absent
  node .typeSyntax start [name, constraint, default]

def parameters? : Parse Node := do
  if (← isTyped) && (← token).isOneOf ["<", "<<"] then
    let start ← position
    let l ← list ">" (parameter g)
    expect ">"
    node .typeSyntax start l.parts
  else absent

def predicate : Parse Node := do
  let start ← position
  let next ← peek
  if (← sees "asserts") && !next.newline && (next.isName || next.is "this") then
    advance
    advance
    if ← eat "is" then node .typeSyntax start [← g .type] else node .typeSyntax start []
  else if ((← token).isName || (← sees "this")) && next.is "is" && !next.newline then
    advance
    advance
    node .typeSyntax start [← g .type]
  else g .type

def returnType? : Parse Node := do
  if ← eatIf (← isTyped) ":" then
    within (fun c => { c with unconditional := false }) (predicate g)
  else absent

def startsParameters : Parse Bool := lookahead do
  expect "("
  if ← seesAny [")", "..."] then return true
  skipWhile (Pattern.seesModifier Pattern.parameterModifiers)
  if (← token).isName || (← sees "this") then advance
  else if ← seesAny ["[", "\x7b"] then
    let _ ← g .pattern
  else failure
  if ← seesAny [":", ",", "?", "="] then return true
  return (← sees ")") && (← peek).is "=>"

def startsFunction : Parse Bool := do
  if ← seesAny ["<", "<<", "new"] then return true
  else if ← sees "abstract" then return (← peek).is "new"
  else startsParameters g

def functionType : Parse Node := do
  let start ← position
  let _ ← eat "abstract"
  let _ ← eat "new"
  let generics ← parameters? g
  let parameters ← Pattern.parameters g
  expect "=>"
  let result ← predicate g
  node .typeSyntax start [generics, parameters, result]

def union (separator : String) (item : Parse Node) : Parse Node := do
  let start ← position
  let _ ← eat separator
  let items ← separated separator item
  node .typeSyntax start items

def type : Parse Node := do
  let start ← position
  if ← startsFunction g then functionType g
  else
    let subject ← union "|" (union "&" (g .typeOperand))
    if ← eatIf (!(← context).unconditional && !(← token).newline) "extends" then
      let bound ← within (fun c => { c with unconditional := true }) (g .type)
      expect "?"
      let yes ← within (fun c => { c with unconditional := false }) (g .type)
      expect ":"
      let no ← within (fun c => { c with unconditional := false }) (g .type)
      node .typeSyntax start [subject, bound, yes, no]
    else return subject

def startsType (t : Token) : Bool :=
  match t.lexeme with
  | .symbol _ => t.isOneOf ["\x7b", "[", "<", "<<", "|", "&", "(", "-"]
  | .word s _ =>
      !reservedWords.contains s ||
        ["void", "null", "this", "typeof", "new", "true", "false", "import", "function"].contains s
  | .number _ | .string _ | .template _ _ => true
  | _ => false

def entityName : Parse Node := do
  let start ← position
  if (← token).isWord then advance else failure
  skipWhile do
    if ← eat "." then
      if (← token).isWord then return true else failure
    else return false
  node .typeSyntax start []

def argumentsHere? : Parse Node := do
  if !(← token).newline && (← token).isOneOf ["<", "<<"] then arguments g else absent

def typeReference : Parse Node := do
  let start ← position
  let _ ← entityName
  let arguments ← argumentsHere? g
  node .typeSyntax start [arguments]

def importOptions : Parse Node := do
  let options ← g (.assignment true)
  match options.kind with
  | .object _ => return options
  | _ => failure

def importType : Parse Node := do
  let start ← position
  expect "import"
  expect "("
  let argument ← g .type
  let options ← if ← eat "," then importOptions g else absent
  expect ")"
  if ← eat "." then
    let _ ← entityName
  let arguments ← argumentsHere? g
  node .typeSyntax start [argument, options, arguments]

def templateCounted : Nat → Parse (List Node)
  | 0 => failure
  | n + 1 => do
      match (← token).lexeme with
      | .template _ true =>
          advance
          return []
      | .template _ false =>
          advance
          let t ← g .type
          match (← token).is "\x7d", (← token).asPiece? with
          | true, some piece =>
              reread piece
              return t :: (← templateCounted n)
          | _, _ => failure
      | _ => failure

def mappedSign (text : String) : Parse Unit := do
  if ← seesAny ["+", "-"] then
    advance
    expect text
  else
    let _ ← eat text

def startsMapped : Parse Bool := lookahead do
  expect "\x7b"
  if ← seesAny ["+", "-"] then
    advance
    return ← sees "readonly"
  if (← sees "readonly") && (← peek).is "[" then advance
  expect "["
  return (← token).isWord && (← peek).is "in"

def memberEnd : Parse Unit := do
  if ← eat "," then return ()
  else semicolon

def mapped : Parse Node := do
  let start ← position
  expect "\x7b"
  mappedSign "readonly"
  expect "["
  let name ← Pattern.bindingName
  expect "in"
  let keys ← g .type
  let renamed ← if ← eat "as" then g .type else absent
  expect "]"
  mappedSign "?"
  let value ← if ← eat ":" then g .type else absent
  let _ ← eat ";"
  let _ ← eat ","
  expect "\x7d"
  node .typeSyntax start [name, keys, renamed, value]

def signature : Parse (List Node) := do
  let generics ← parameters? g
  let parameters ← Pattern.parameters g
  let result ← returnType? g
  return [generics, parameters, result]

def startsIndex : Parse Bool := lookahead do
  expect "["
  if (← token).isName && (← peek).is ":" then return true
  else return false

def index : Parse (List Node) := do
  expect "["
  let key ← Pattern.annotated g false
  expect "]"
  let value ← if ← eat ":" then g .type else absent
  return [key, value]

def seesMemberModifier (words : List String) : Parse Bool := do
  if ← seesAny words then
    let next ← peek
    return !next.newline &&
      match next.lexeme with
      | .word _ _ | .string _ | .number _ | .privateName _ => true
      | .symbol _ => next.isOneOf ["[", "*", "\x7b"]
      | _ => false
  else return false

def member : Parse Node := do
  let start ← position
  skipWhile (seesMemberModifier ["readonly"])
  let parts ←
    if ← seesAny ["(", "<", "<<"] then signature g
    else if (← sees "new") && (← peek).isOneOf ["(", "<"] then do
      advance
      signature g
    else if ← startsIndex then index g
    else do
      if ← seesMemberModifier ["get", "set"] then advance
      let key ← Pattern.propertyName g
      let _ ← eat "?"
      if ← seesAny ["(", "<", "<<"] then
        let parts ← signature g
        pure (key :: parts)
      else if ← eat ":" then
        let value ← g .type
        pure [key, value]
      else pure [key]
  memberEnd
  node .typeSyntax start parts

def members : Parse Node := do
  let start ← position
  expect "\x7b"
  let ms ← upTo ["\x7d"]
    (within (fun c => { c with hasIn := true }) (member g))
  expect "\x7d"
  node .typeSyntax start ms

def tupleElement : Parse Node := do
  let start ← position
  let _ ← eat "..."
  let next ← peek
  let named ←
    if (← token).isWord then
      if next.is ":" then pure true
      else if next.is "?" then lookahead do
        advance
        advance
        sees ":"
      else pure false
    else pure false
  if named then
    advance
    let _ ← eat "?"
    expect ":"
    node .typeSyntax start [← g .type]
  else
    let t ← g .type
    let _ ← eat "?"
    node .typeSyntax start [t]

def primary : Parse Node := do
  let start ← position
  let t ← token
  match t.lexeme with
  | .string _ | .number _ => single .typeSyntax
  | .template _ _ =>
      let types ← templateCounted g (← get).limit
      node .typeSyntax start types
  | .symbol _ =>
      if t.is "\x7b" then
        if ← startsMapped then mapped g else members g
      else if t.is "[" then
        advance
        let (elements, _) ← commas "]" (tupleElement g)
        expect "]"
        node .typeSyntax start elements
      else if t.is "(" then
        advance
        let inner ← g .type
        expect ")"
        node .typeSyntax start [inner]
      else if t.is "-" then
        advance
        match (← token).lexeme with
        | .number _ => advance
        | _ => failure
        node .typeSyntax start []
      else if t.is "!" then
        advance
        node .typeSyntax start [← g .typeOperand]
      else if t.is "?" then
        advance
        if ← seesAny [",", "\x7d", ")", ">", "=", "|"] then node .typeSyntax start []
        else node .typeSyntax start [← g .type]
      else failure
  | .word _ _ =>
      if t.is "typeof" then
        advance
        if ← sees "import" then importType g
        else typeReference g
      else if t.is "import" then importType g
      else if t.isOneOf ["this", "void", "null", "true", "false"] then
        advance
        if (← sees "is") && t.is "this" && !(← token).newline then
          advance
          node .typeSyntax start [← g .type]
        else node .typeSyntax start []
      else if t.is "asserts" && !(← peek).newline && ((← peek).isName || (← peek).is "this") then
        predicate g
      else typeReference g
  | _ => failure

def suffix? (start : Nat) (inner : Node) : Parse (Option Node) := do
  let t ← token
  if t.newline then return none
  else if t.is "[" then
    advance
    if ← eat "]" then return some (← node .typeSyntax start [inner])
    else
      let index ← g .type
      expect "]"
      return some (← node .typeSyntax start [inner, index])
  else if t.is "!" || (t.is "?" && !startsType (← peek)) then
    advance
    return some (← node .typeSyntax start [inner])
  else return none

def inferBound : Parse Node := do
  expect "extends"
  let bound ← within (fun c => { c with unconditional := true }) (g .type)
  if !(← context).unconditional && (← sees "?") then failure
  return bound

def operand : Parse Node := do
  let start ← position
  if ← seesAny ["keyof", "unique", "readonly"] then
    advance
    let inner ← g .typeOperand
    node .typeSyntax start [inner]
  else if ← eat "infer" then
    let _ ← Pattern.bindingName
    let bound ← attempt (inferBound g)
    node .typeSyntax start bound.toList
  else
    within (fun c => { c with unconditional := false }) do
      extend (suffix? g start) (← primary g)

end Prerender.Script.TypeSyntax
