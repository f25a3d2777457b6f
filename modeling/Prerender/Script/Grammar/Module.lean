import Prerender.Script.Grammar.Declaration

set_option autoImplicit false

namespace Prerender.Script.ModuleSyntax

open Parse

variable (g : Grammar)

def attributeEntry : Parse Node := do
  let start ← position
  let key ←
    match (← token).lexeme with
    | .string value => single (.name value)
    | _ => Pattern.wordName
  expect ":"
  let value ← Pattern.stringLiteral
  node .property start [key, value]

def attributes : Parse Node := do
  let start ← position
  if (← sees "with") || ((← sees "assert") && !(← token).newline) then
    advance
    expect "\x7b"
    let (entries, _) ← commas "\x7d" attributeEntry
    expect "\x7d"
    let keys := entries.map fun e => e.parts.head?.map Node.kind
    flawIf !decide keys.Nodup
    node .attributes start entries
  else absent

def entryName : Parse Node := do
  match (← token).lexeme with
  | .string value => single (.string value)
  | _ => Pattern.wordName

def startsTypeEntry : Parse Bool := lookahead do
  if !(← isTyped) then return false
  expect "type"
  if ← eat "as" then
    if ← eat "as" then return (← token).isWord
    else return !(← token).isWord && !(← token).isString
  else return (← token).isWord || (← token).isString

def importEntry : Parse Node := do
  let start ← position
  if ← startsTypeEntry then advance
  if (← peek).is "as" then
    let name ← entryName
    expect "as"
    let bound ← Pattern.bindingName
    node .specifier start [name, bound]
  else
    let bound ← Pattern.bindingName
    node .specifier start [bound]

def importAll : Parse Node := do
  let start ← position
  expect "*"
  expect "as"
  let bound ← Pattern.bindingName
  node .specifier start [bound]

def importList : Parse (List Node) := do
  expect "\x7b"
  let (entries, _) ← commas "\x7d" importEntry
  expect "\x7d"
  return entries

def importNamed : Parse (List Node) := do
  if ← sees "*" then return [← importAll] else importList

def importClause : Parse (List Node) := do
  if (← token).isName then
    let default ← Pattern.bindingName
    if ← eat "," then return default :: (← importNamed) else return [default]
  else importNamed

def startsTypeClause : Parse Bool := lookahead do
  if !(← isTyped) then return false
  expect "type"
  if ← seesAny ["\x7b", "*"] then return true
  if ← eat "from" then return ← seesAny ["from", "="]
  return (← token).isName

def startsPhase : Parse Bool := do
  let next ← peek
  if ← sees "defer" then return next.is "*"
  else if ← sees "source" then
    if next.is "from" then lookahead do
      advance
      advance
      sees "from"
    else return next.isName
  else return false

def startsAlias : Parse Bool := lookahead do
  if !(← isTyped) then return false
  if (← sees "type") && (← peek).isName then advance
  return (← token).isName && (← peek).is "="

def importDeclaration : Parse Node := do
  let start ← position
  expect "import"
  if ← startsAlias then DeclarationSyntax.importAlias start
  else
    if ← startsTypeClause then advance
    else if ← startsPhase then advance
    let entries ←
      if (← token).isString then pure []
      else
        let entries ← importClause
        expect "from"
        pure entries
    match (← token).lexeme with
    | .string source =>
        advance
        let attributes ← attributes
        semicolon
        node (.importDeclaration source) start (entries ++ [attributes])
    | _ => failure

def exportEntry : Parse Node := do
  let start ← position
  if ← startsTypeEntry then advance
  let name ← entryName
  if ← eat "as" then
    let exported ← entryName
    node .specifier start [name, exported]
  else node .specifier start [name]

def isLocalEntry (entry : Node) : Bool :=
  match entry.parts.head?.map Node.kind with
  | some (.name text) => !reservedWords.contains text
  | _ => false

def exportList (start : Nat) : Parse Node := do
  expect "\x7b"
  let (entries, _) ← commas "\x7d" exportEntry
  expect "\x7d"
  if ← eat "from" then
    let source ← Pattern.stringLiteral
    let attributes ← attributes
    semicolon
    node .exportList start (entries ++ [source, attributes])
  else
    flawIf (!entries.all isLocalEntry)
    semicolon
    node .exportList start entries

def exportAll (start : Nat) : Parse Node := do
  expect "*"
  let name ←
    if ← eat "as" then
      let nameStart ← position
      let name ← entryName
      node .specifier nameStart [name]
    else absent
  expect "from"
  let source ← Pattern.stringLiteral
  let attributes ← attributes
  semicolon
  node .exportAll start [name, source, attributes]

def exportDefault (start : Nat) (ds : List Node) : Parse Node := do
  expect "default"
  let ds := ds ++ (← Pattern.decorators g)
  let next ← peek
  let value ←
    if ← sees "class" then Pattern.decorate ds (← ClassSyntax.definition g)
    else if (← isTyped) && (← sees "abstract") && next.is "class" then do
      advance
      Pattern.decorate ds (← ClassSyntax.definition g)
    else if (← isTyped) && (← sees "interface") && next.isName && !next.newline then
      DeclarationSyntax.interface g
    else if ← FunctionSyntax.starts then FunctionSyntax.function g .exported
    else do
      let e ← g (.assignment true)
      semicolon
      pure e
  node .exportDefault start [value]

def exportDeclaration (start : Nat) (ds : List Node) : Parse Node := do
  expect "export"
  let typed ← isTyped
  let next ← peek
  if ← sees "default" then exportDefault g start ds
  else if ← sees "*" then exportAll start
  else if ← sees "\x7b" then exportList start
  else if ← eatIf typed "=" then
    let e ← g .expression
    semicolon
    node .exportAssignment start [e]
  else if typed && (← sees "as") && next.is "namespace" then
    advance
    advance
    let name ← Pattern.bindingName
    semicolon
    node .exportNamespace start [name]
  else if typed && (← sees "type") && next.isOneOf ["\x7b", "*"] then
    advance
    if ← sees "*" then exportAll start else exportList start
  else
    let ds := ds ++ (← Pattern.decorators g)
    let d ← DeclarationSyntax.declaration g
    node .exportDeclaration start [← Pattern.decorate ds d]

end Prerender.Script.ModuleSyntax
