import Prerender.Script.Grammar.Expression
import Prerender.Script.Grammar.Module

set_option autoImplicit false

namespace Prerender.Script.StatementSyntax

open Parse

variable (g : Grammar)

def condition : Parse Node := do
  expect "("
  let e ← Expression.inner g
  expect ")"
  return e

def body : Parse Node := g (.statement true)

def expressionStatement (start : Nat) : Parse Node := do
  let e ← Expression.inner g
  semicolon
  node .expressionStatement start [e]

def expressionOrLabeled : Parse Node := do
  let start ← position
  let e ← Expression.inner g
  match e.kind with
  | .reference name =>
      if ← eat ":" then
        let s ← body g
        node .labeled start [.mk (.name name) e.span [], s]
      else
        semicolon
        node .expressionStatement start [e]
  | _ =>
      semicolon
      node .expressionStatement start [e]

def ifStatement (start : Nat) : Parse Node := do
  advance
  let test ← condition g
  let yes ← body g
  let no ← if ← eat "else" then body g else absent
  node (.statement "if") start [test, yes, no]

def doStatement (start : Nat) : Parse Node := do
  advance
  let s ← body g
  expect "while"
  let test ← condition g
  let _ ← eat ";"
  node (.statement "do") start [s, test]

def guardedStatement (start : Nat) (keyword : String) : Parse Node := do
  advance
  let test ← condition g
  let s ← body g
  node (.statement keyword) start [test, s]

def forEach (start : Nat) (awaits : Bool) (left : Node) : Parse Node := do
  let isOf ← sees "of"
  flawIf (awaits && !isOf)
  advance
  let right ← if isOf then Expression.argument g true else Expression.inner g
  expect ")"
  let s ← body g
  node (.statement "for") start [left, right, s]

def optionalUntil (symbol : String) : Parse Node := do
  if ← sees symbol then absent else Expression.inner g

def forLoop (start : Nat) (awaits : Bool) (first : Node) : Parse Node := do
  flawIf awaits
  expect ";"
  let test ← optionalUntil g ";"
  expect ";"
  let step ← optionalUntil g ")"
  expect ")"
  let s ← body g
  node (.statement "for") start [first, test, step, s]

def startsForVariables : Parse Bool := do
  let next ← peek
  if ← seesAny ["var", "const"] then return true
  else if ← sees "let" then return next.isName || next.isOneOf ["[", "\x7b"]
  else if ← sees "using" then return next.isName && !next.newline && !next.is "of"
  else return false

def forStatement (start : Nat) : Parse Node := do
  advance
  let awaits ← eat "await"
  if awaits then flawIf (!(← context).awaits)
  expect "("
  let closed := within fun c => { c with hasIn := false, decorates := false }
  let isOfAsync := (← sees "async") && (← peek).is "of"
  if ← sees ";" then forLoop g start awaits (← absent)
  else
    if (← sees "await") && (← peek).is "using" then advance
    if ← startsForVariables then
      let head ← position
      let hoisted ← sees "var"
      let constant ← sees "const"
      advance
      let ds ← closed (DeclarationSyntax.declarators g head hoisted constant false)
      if ← seesAny ["in", "of"] then forEach g start awaits ds
      else
        flawIf (ds.parts.any (DeclarationSyntax.lacksValue constant))
        forLoop g start awaits ds
    else
      let e ← closed (g .expression)
      if ← seesAny ["in", "of"] then
        Expression.cover e
        let isOf ← sees "of"
        flawIf (isOfAsync && isOf && !awaits)
        forEach g start awaits e
      else forLoop g start awaits e

def jump (start : Nat) (keyword : String) : Parse Node := do
  advance
  let label ← if ← endsStatement then absent else Pattern.bindingName
  semicolon
  node (.statement keyword) start [label]

def returnStatement (start : Nat) : Parse Node := do
  advance
  let value ← if ← endsStatement then absent else Expression.inner g
  semicolon
  flawIf (!(← context).returns)
  node (.statement "return") start [value]

def throwStatement (start : Nat) : Parse Node := do
  advance
  flawIf (← token).newline
  let value ← Expression.inner g
  semicolon
  node (.statement "throw") start [value]

def caseClause : Parse Node := do
  let start ← position
  let test ←
    if ← eat "default" then absent
    else
      expect "case"
      Expression.inner g
  expect ":"
  let statements ← upTo ["case", "default", "\x7d"] (g (.statement false))
  node (.statement "case") start (test :: statements)

def switchStatement (start : Nat) : Parse Node := do
  advance
  let subject ← condition g
  expect "\x7b"
  let cases ← upTo ["\x7d"] (caseClause g)
  expect "\x7d"
  node (.statement "switch") start (subject :: cases)

def catchClause : Parse Node := do
  let start ← position
  let parameter ←
    if ← eat "(" then
      let p ← Pattern.annotated g false
      expect ")"
      pure p
    else absent
  let b ← FunctionSyntax.block g
  node (.statement "catch") start [parameter, b]

def tryStatement (start : Nat) : Parse Node := do
  advance
  let b ← FunctionSyntax.block g
  let handler ← if ← eat "catch" then catchClause g else absent
  let final ← if ← eat "finally" then FunctionSyntax.block g else absent
  flawIf (handler.isAbsent && final.isAbsent)
  node (.statement "try") start [b, handler, final]

def followsVariable (t : Token) : Bool :=
  t.isOneOf (["=", "in", "instanceof", ".", "("] ++ Expression.compoundOperators) ||
    (t.widened.isOneOf
      ["??", "||", "&&", "|", "^", "&", "==", "!=", "===", "!==", "<", ">", "<=", ">=", "<<", ">>", ">>>",
        "+", "-", "*", "/", "%", "**"])

def letStatement (alone : Bool) : Parse Node := do
  let next ← peek
  if followsVariable next || next.is ";" || (alone && !next.is "[") then expressionOrLabeled g
  else
    flawIf alone
    DeclarationSyntax.variableList g

def functionStatement (alone : Bool) : Parse Node := do
  let async ← sees "async"
  let next ← peek
  flawIf (alone && (async || next.is "*"))
  FunctionSyntax.function g .declaration

def classStatement (ds : List Node) (alone : Bool) : Parse Node := do
  flawIf alone
  if ← isTyped then
    let _ ← eat "abstract"
  Pattern.decorate ds (← ClassSyntax.definition g)

def decoratedStatement (alone : Bool) : Parse Node := do
  let start ← position
  let ds ← Pattern.decorators g
  if ← sees "export" then ModuleSyntax.exportDeclaration g start ds
  else classStatement g ds alone

def startsUsing : Parse Bool := lookahead do
  let _ ← eat "await"
  expect "using"
  return (← token).isName && !(← token).newline

def usingStatement (start : Nat) : Parse Node := do
  let _ ← eat "await"
  expect "using"
  let ds ← DeclarationSyntax.declarators g start false true true
  semicolon
  return ds

def wordStatement (alone : Bool) : Parse Node := do
  let start ← position
  let t ← token
  if t.is "if" then ifStatement g start
  else if t.is "do" then doStatement g start
  else if t.is "while" then guardedStatement g start "while"
  else if t.is "with" then guardedStatement g start "with"
  else if t.is "for" then forStatement g start
  else if t.is "continue" then jump start "continue"
  else if t.is "break" then jump start "break"
  else if t.is "return" then returnStatement g start
  else if t.is "throw" then throwStatement g start
  else if t.is "switch" then switchStatement g start
  else if t.is "try" then tryStatement g start
  else if t.is "debugger" then
    advance
    semicolon
    node (.statement "debugger") start []
  else if t.is "class" then classStatement g [] alone
  else if t.is "export" then ModuleSyntax.exportDeclaration g start []
  else if t.is "var" then DeclarationSyntax.variableList g
  else if t.is "const" then
    flawIf alone
    DeclarationSyntax.declaration g
  else if t.is "let" then letStatement g alone
  else if ← FunctionSyntax.starts then functionStatement g alone
  else if t.is "import" && !(← peek).isOneOf [".", "("] then ModuleSyntax.importDeclaration
  else if t.isOneOf ["using", "await"] && (← startsUsing) then usingStatement g start
  else if (← isTyped) && (← DeclarationSyntax.starts) then DeclarationSyntax.declaration g
  else expressionOrLabeled g

def statement (alone : Bool) : Parse Node := do
  let start ← position
  match (← token).lexeme with
  | .word _ _ => wordStatement g alone
  | _ =>
      if ← sees "\x7b" then FunctionSyntax.block g
      else if ← eat ";" then node (.statement ";") start []
      else if ← sees "@" then decoratedStatement g alone
      else expressionStatement g start

end Prerender.Script.StatementSyntax
