import Prerender.Script.Grammar.Class
import Prerender.Script.Grammar.Target

set_option autoImplicit false

/-!
Expressions, from the literals up to the comma. The arrow of a function comes behind its parameters, so
that a parenthesis is read as parameters first where it could hold them.
-/
namespace Prerender.Script.Expression

open Parse

variable (g : Grammar)

def inner : Parse Node :=
  within (fun c => { c with hasIn := true, decorates := false }) (g .expression)

def argument (returnType : Bool) : Parse Node :=
  within (fun c => { c with hasIn := true, decorates := false }) (g (.assignment returnType))

def spread : Parse Node := do
  let start ← position
  expect "..."
  let e ← argument g true
  node .spread start [e]

def spreadOrArgument : Parse Node := do
  if ← sees "..." then spread g else argument g true

def arguments : Parse (List Node) := do
  expect "("
  let (items, _) ← commas ")" (spreadOrArgument g)
  expect ")"
  return items

def templateCounted : Nat → Parse (List (Option String) × List Node)
  | 0 => failure
  | n + 1 => do
      match (← token).lexeme with
      | .template text true =>
          advance
          return ([text], [])
      | .template text false =>
          advance
          let e ← inner g
          match (← token).is "\x7d", (← token).asPiece? with
          | true, some piece =>
              reread piece
              let (texts, es) ← templateCounted n
              return (text :: texts, e :: es)
          | _, _ => failure
      | _ => failure

def template (tagged : Bool) : Parse Node := do
  let start ← position
  let (texts, es) ← templateCounted g (← get).limit
  flawIf (!tagged && texts.any Option.isNone)
  node (.template texts) start es

def element : Parse Node := do
  if ← sees "," then absent else spreadOrArgument g

def array : Parse Node := do
  let start ← position
  expect "["
  let (items, comma) ← commas "]" (element g)
  expect "]"
  node (.array comma) start items

def shorthand (start : Nat) (name : String) (key : Node) : Parse Node := do
  if Pattern.isTaken name (← context) then failure
  let target := Node.mk (.reference name) key.span []
  if ← eat "=" then
    let value ← argument g true
    let assignment ← node (.assignment "=") start [target, value]
    modify fun s => { s with covers := start :: s.covers }
    node .property start [key, assignment]
  else node .property start [key, target]

def property : Parse Node := do
  let start ← position
  if ← sees "..." then return ← spread g
  let form ← FunctionSyntax.form
  let t ← token
  let computed ← sees "["
  let key ← Pattern.propertyName g
  match key.kind, computed with
  | .privateName _, false => failure
  | _, _ =>
      if !form.isPlain || (← seesAny ["(", "<", "<<"]) then
        let f ←
          match form.accessor with
          | some isGetter => FunctionSyntax.accessor g isGetter
          | none => FunctionSyntax.method g form.async form.generator
        if FunctionSyntax.lacksBody f.parts then failure
        node .property start [key, f]
      else if ← eat ":" then
        let value ← argument g true
        node .property start [key, value]
      else
        match t.lexeme, t.isName with
        | .word name _, true => shorthand g start name key
        | _, _ => failure

def object : Parse Node := do
  let start ← position
  expect "\x7b"
  let (properties, comma) ← commas "\x7d" (property g)
  expect "\x7d"
  node (.object comma) start properties

def parenthesized : Parse Node := do
  let start ← position
  expect "("
  let e ← inner g
  expect ")"
  node .parenthesized start [e]

def variableName : Parse Node := do
  match (← token).lexeme with
  | .word name _ =>
      if reservedWords.contains name || Pattern.isTaken name (← context) then failure
      single (.reference name)
  | _ => failure

def memberName : Parse Node := do
  match (← token).lexeme with
  | .word name _ => single (.name name)
  | .privateName name => single (.privateName name)
  | _ => failure

def index (start : Nat) (e : Node) : Parse Node := do
  expect "["
  let i ← inner g
  expect "]"
  node .member start [e, i]

def split (e : Node) : Parse (Node × Node) := do
  match e.kind, e.parts with
  | .instantiation, [f, arguments] => return (f, arguments)
  | _, _ => return (e, ← absent)

def tagged (start : Nat) (e : Node) : Parse Node := do
  let (tag, generics) ← split e
  let t ← template g true
  node .taggedTemplate start [tag, generics, t]

abbrev Chained := Node × Bool

def memberStep (start : Nat) (x : Chained) : Parse (Option Chained) := do
  let (e, chained) := x
  let t ← token
  let brackets := !(← context).decorates
  if t.is "." then
    advance
    let name ← memberName
    return some (← node .member start [e, name], chained)
  else if t.is "?." then
    let next ← peek
    match next.lexeme with
    | .word _ _ | .privateName _ =>
        advance
        let name ← memberName
        return some (← node .member start [e, name], true)
    | _ =>
        if next.is "[" && brackets then
          advance
          return some (← index g start e, true)
        else return none
  else if t.is "[" && brackets then return some (← index g start e, chained)
  else if t.isTemplate then
    flawIf chained
    return some (← tagged g start e, chained)
  else if !(← isTyped) then return none
  else if t.is "!" && !t.newline then
    advance
    return some (← node .nonNull start [e], chained)
  else if t.isOneOf ["<", "<<"] then
    match ← attempt (TypeSyntax.argumentsInExpression g) with
    | some arguments => return some (← node .instantiation start [e, arguments], chained)
    | none => return none
  else return none

def callStep (start : Nat) (x : Chained) : Parse (Option Chained) := do
  match ← memberStep g start x with
  | some y => return some y
  | none =>
      let (e, chained) := x
      if ← eat "?." then
        let generics ←
          if (← isTyped) && (← seesAny ["<", "<<"]) then TypeSyntax.argumentsInExpression g else absent
        if (← token).isTemplate then
          flaw
          return some (← tagged g start e, true)
        else
          let as ← arguments g
          return some (← node .call start (e :: generics :: as), true)
      else if ← sees "(" then
        let (f, generics) ← split e
        let as ← arguments g
        return some (← node .call start (f :: generics :: as), chained)
      else return none

def chain (start : Nat) (x : Chained) : Parse Node :=
  if x.2 then node .chain start [x.1] else return x.1

def construct : Parse Node := do
  let start ← position
  expect "new"
  if ← eat "." then
    expect "target"
    node .metaProperty start []
  else
    let e ← g .constructed
    flawIf (e.kind = .chain || e.kind = .importCall || (← sees "?."))
    let (f, generics) ← split e
    let as ← if ← sees "(" then arguments g else pure []
    node .construct start (f :: generics :: as)

def importExpression : Parse Node := do
  let start ← position
  expect "import"
  let called ←
    if ← eat "." then
      if ← seesAny ["source", "defer"] then
        advance
        pure true
      else
        expect "meta"
        pure false
    else pure true
  if called then
    expect "("
    let (as, _) ← commas ")" (argument g true)
    expect ")"
    if as.length = 1 || as.length = 2 then node .importCall start as else failure
  else node .metaProperty start []

def word : Parse Node := do
  let start ← position
  let t ← token
  if t.is "function" then FunctionSyntax.function g .expression
  else if t.is "async" && (← FunctionSyntax.starts) then FunctionSyntax.function g .expression
  else if t.is "class" then ClassSyntax.definition g
  else if t.is "new" then construct g
  else if t.is "import" then importExpression g
  else if t.is "this" then single .thisValue
  else if t.is "null" then single .null
  else if t.is "true" then single (.boolean true)
  else if t.is "false" then single (.boolean false)
  else if t.is "super" then
    advance
    let follows ← seesAny [".", "[", "("]
    flawIf (!follows)
    node .superValue start []
  else variableName

def symbol : Parse Node := do
  let t ← token
  if t.is "(" then parenthesized g
  else if t.is "[" then array g
  else if t.is "\x7b" then object g
  else if t.isOneOf ["/", "/="] then
    match t.asRegex? with
    | some r =>
        reread r
        single .regex
    | none => failure
  else if t.is "@" then
    let ds ← Pattern.decorators g
    let c ← ClassSyntax.definition g
    Pattern.decorate ds c
  else failure

def primary : Parse Node := do
  match (← token).lexeme with
  | .word _ _ => word g
  | .symbol _ => symbol g
  | .string value => single (.string value)
  | .number (some value) => single (.number value)
  | .number none => single .bigint
  | .template _ _ => template g false
  | _ => failure

def constructed : Parse Node := do
  let start ← position
  let e ← primary g
  chain start (← extend (memberStep g start) (e, false))

def leftHand : Parse Node := do
  let start ← position
  let e ← primary g
  chain start (← extend (callStep g start) (e, false))

def prefixOperators : List String := ["+", "-", "~", "!", "delete", "void", "typeof"]

def symbolText (t : Token) : String :=
  match t.lexeme with
  | .symbol s | .word s _ => s
  | _ => ""

def suffixed : Parse Node := do
  let start ← position
  let e ← leftHand g
  if !(← token).newline && (← seesAny ["++", "--"]) then
    if Target.isSimple e then
      advance
      node .update start [e]
    else failure
  else return e

def assertion : Parse Node := do
  let start ← position
  narrow
  expect "<"
  let constant ← eat "const"
  let type ← if constant then absent else g .type
  expect ">"
  let e ← g .unary
  node .assertion start [type, e]

def unary : Parse Node := do
  let start ← position
  let t ← token
  if t.isOneOf prefixOperators then
    advance
    let e ← g .unary
    node (.unary (symbolText t)) start [e]
  else if t.isOneOf ["++", "--"] then
    advance
    let e ← g .unary
    if Target.isSimple e then node .update start [e] else failure
  else if t.isOneOf ["<", "<<"] then
    let dialect ← dialect
    if dialect.jsx then g (.jsx false)
    else if dialect.typed then assertion g
    else failure
  else if t.is "await" && (← context).awaits then
    advance
    let e ← g .unary
    node .awaits start [e]
  else suffixed g

def precedence? (t : Token) : Option Nat :=
  let levels : List (List String) :=
    [["??"], ["||"], ["&&"], ["|"], ["^"], ["&"], ["==", "!=", "===", "!=="],
      ["<", ">", "<=", ">=", "instanceof", "in", "as", "satisfies"], ["<<", ">>", ">>>"], ["+", "-"],
      ["*", "/", "%"], ["**"]]
  (levels.findIdx? t.isOneOf).map (· + 1)

def mixes (outer : String) (operand : Node) : Bool :=
  match operand.kind with
  | .binary "??" => outer == "||" || outer == "&&"
  | .binary "||" | .binary "&&" => outer == "??"
  | _ => false

-- `**` wants a sign in front of its base to be in parentheses.
def isBareSign (e : Node) : Bool :=
  match e.kind with
  | .unary _ | .awaits => true
  | _ => false

def binaryStep (start above : Nat) (left : Node) : Parse (Option Node) := do
  let t := (← token).widened
  match precedence? t with
  | none => return none
  | some p =>
      if p ≤ above then return none
      else if t.is "in" && !(← context).hasIn then return none
      else if t.isOneOf ["as", "satisfies"] then
        if t.newline || !(← isTyped) then return none
        else
          advance
          let constant ← eat "const"
          let type ← if constant then absent else g .type
          return some (← node .ascription start [left, type])
      else
        reread t
        advance
        let op := symbolText t
        let right ← g (.binary (if op == "**" then p - 1 else p))
        flawIf (mixes op left || mixes op right)
        flawIf (op == "**" && isBareSign left)
        return some (← node (.binary op) start [left, right])

def operand : Parse Node := do
  match (← token).lexeme, (← context).hasIn with
  | .privateName name, true =>
      let key ← single (.privateName name)
      if ← sees "in" then return key else failure
  | _, _ => g .unary

def binary (above : Nat) : Parse Node := do
  let start ← position
  let e ← operand g
  extend (binaryStep g start above) e

inductive Likelihood where
  | no
  | maybe
  | yes
deriving DecidableEq, Repr

def parameterLikelihood : Parse Likelihood := do
  let t ← token
  if t.is ")" then
    advance
    return if ← seesAny ["=>", ":", "\x7b"] then .yes else .no
  else if t.isOneOf ["[", "\x7b", "@"] then return .maybe
  else if t.is "..." then return .yes
  else
    if (← isTyped) && (← Pattern.seesModifier Pattern.parameterModifiers) then
      return if (← peek).is "as" then .no else .yes
    if !t.isName && !t.is "this" then return .no
    advance
    if ← sees ":" then return .yes
    else if ← eat "?" then
      return if ← seesAny [":", ",", "=", ")"] then .yes else .no
    else return if ← seesAny [",", "=", ")"] then .maybe else .no

-- Whether type parameters begin here. With JSX it takes `extends` or a comma to tell them from an
-- element.
def genericLikelihood : Parse Likelihood := do
  let dialect ← dialect
  if !dialect.typed then return .no
  advance
  if !(← token).isName && !(← sees "const") then return .no
  if dialect.jsx then
    let _ ← eat "const"
    advance
    if ← eat "extends" then
      return if ← seesAny ["=", ">", "/"] then .no else .yes
    else return if ← seesAny [",", "="] then .yes else .no
  else return .maybe

def arrowLikelihood : Parse Likelihood := lookaheadOr .no do
  if ← eat "async" then
    if (← token).newline then return .no
  if ← eat "(" then parameterLikelihood
  else if ← sees "<" then genericLikelihood
  else return .no

def head : Parse (Bool × List Node) := do
  let async ← eat "async"
  let parts ← within
      (fun c => { c with hasIn := true, decorates := false, awaits := c.awaits || async }) do
    let generics ← TypeSyntax.parameters? g
    let parameters ← Pattern.parameters g
    flawIf (parameters.parts.any FunctionSyntax.isReceiver)
    let result ← TypeSyntax.returnType? g
    return [generics, parameters, result]
  let newline := (← token).newline
  expect "=>"
  flawIf newline
  return (async, parts)

def arrowBody (start : Nat) (async : Bool) (parts : List Node) (returnType : Bool) : Parse Node := do
  let body ← within (fun c => { c with awaits := async, yields := false }) do
    if ← sees "\x7b" then FunctionSyntax.body g else g (.assignment returnType)
  node .arrow start (parts ++ [body])

def hasResult (parts : List Node) : Bool := !parts.getLast?.any Node.isAbsent

-- An arrow function, if its head can be read. Where a return type would take the `:` of a condition,
-- one has to follow its body as well.
def possibleArrow (returnType : Bool) : Parse (Option Node) := do
  let before ← get
  let start ← position
  match ← attempt (head g) with
  | none => return none
  | some (async, parts) =>
      if hasResult parts && !returnType then
        let whole ← attempt do
          let f ← arrowBody g start async parts returnType
          if ← sees ":" then return f else failure
        if whole.isNone then set before
        return whole
      else return some (← arrowBody g start async parts returnType)

def arrow? (returnType : Bool) : Parse (Option Node) := do
  if ← seesAny ["(", "<", "async"] then
    match ← arrowLikelihood with
    | .no => return none
    | .maybe => possibleArrow g returnType
    | .yes =>
        let start ← position
        let (async, parts) ← head g
        return some (← arrowBody g start async parts true)
  else return none

def fromParameter (start : Nat) (async : Bool) (parameter : Node) (returnType : Bool) : Parse Node := do
  let newline := (← token).newline
  expect "=>"
  flawIf newline
  let nothing ← absent
  arrowBody g start async
    [nothing, .mk .parameters parameter.span [parameter], nothing] returnType

def startsAsyncArrow : Parse Bool := lookahead do
  expect "async"
  if (← token).newline || !(← token).isName then return false
  advance
  sees "=>"

def asyncArrow (returnType : Bool) : Parse Node := do
  let start ← position
  expect "async"
  let parameter ← within (fun c => { c with awaits := true }) Pattern.bindingName
  fromParameter g start true parameter returnType

def yieldExpression : Parse Node := do
  let start ← position
  expect "yield"
  if (← token).newline then node .yields start []
  else
    let delegates ← eat "*"
    let ends ←
      match (← token).lexeme with
      | .finish => pure true
      | _ => seesAny [")", "]", "\x7d", ",", ";", ":", "in"]
    if delegates || !ends then
      let e ← g (.assignment true)
      node .yields start [e]
    else node .yields start []

def compoundOperators : List String :=
  ["+=", "-=", "*=", "/=", "%=", "**=", "<<=", ">>=", ">>>=", "&=", "|=", "^=", "&&=", "||=", "??="]

-- Accepts an expression as the target of an assignment; its properties with values turn out as
-- parts of a pattern.
def cover (e : Node) : Parse Unit := do
  if Target.isTarget e then
    let starts := Target.propertyStarts e
    modify fun s => { s with covers := s.covers.filter fun c => !starts.contains c }
  else failure

def isReference (e : Node) : Option String :=
  match e.kind with
  | .reference name => some name
  | _ => none

def assignment (returnType : Bool) : Parse Node := do
  let start ← position
  if (← context).yields && (← sees "yield") then return ← yieldExpression g
  match ← arrow? g returnType with
  | some f => return f
  | none =>
      if ← startsAsyncArrow then return ← asyncArrow g returnType
      let left ← g (.binary 0)
      let t := (← token).widened
      match isReference left, t.is "=>" with
      | some name, true =>
          flawIf (Pattern.isTaken name (← context))
          fromParameter g start false (.mk (.binding name) left.span []) returnType
      | _, _ =>
          if t.is "=" then
            cover left
            advance
            let right ← g (.assignment returnType)
            node (.assignment "=") start [left, right]
          else if t.isOneOf compoundOperators then
            if Target.isSimple left then
              reread t
              advance
              let right ← g (.assignment returnType)
              node (.assignment (symbolText t)) start [left, right]
            else failure
          else if t.is "?" then
            advance
            let yes ← within (fun c => { c with hasIn := true }) (g (.assignment false))
            expect ":"
            let no ← g (.assignment returnType)
            node .conditional start [left, yes, no]
          else return left

def expression : Parse Node := do
  let start ← position
  let es ← separated "," (g (.assignment true))
  match es with
  | [e] => return e
  | es => node .sequence start es

end Prerender.Script.Expression
