import Prerender.Script.Grammar.Class

set_option autoImplicit false

namespace Prerender.Script.DeclarationSyntax

open Parse

variable (g : Grammar)

def declarator : Parse Node := do
  let start ← position
  let target ← g .pattern
  if (← isTyped) && !(← token).newline then
    let _ ← eat "!"
  let typed ←
    if ← eatIf (← isTyped) ":" then
      let type ← g .type
      node .annotated start [target, type]
    else pure target
  let value ← if ← eat "=" then g (.assignment true) else absent
  node .declarator start [typed, value]

def lacksValue (constant : Bool) (declarator : Node) : Bool :=
  match declarator.parts with
  | [.mk .annotated _ (target :: _), value] =>
      value.isAbsent && (constant || !Pattern.isBinding target)
  | [target, value] => value.isAbsent && (constant || !Pattern.isBinding target)
  | _ => false

def declarators (start : Nat) (hoisted constant complete : Bool) : Parse Node := do
  let ds ← separated "," (declarator g)
  if complete && !(← context).ambient then flawIf (ds.any (lacksValue constant))
  node (.variableList hoisted) start ds

def variableList : Parse Node := do
  let start ← position
  let hoisted ← sees "var"
  let constant ← sees "const"
  advance
  let ds ← declarators g start hoisted constant true
  semicolon
  return ds

def isFixedText (n : Node) : Bool :=
  match n.kind with
  | .string _ => true
  | .template _ => n.parts.isEmpty
  | _ => false

def enumKey : Parse Node := do
  let computed ← sees "["
  let key ← Pattern.propertyName g
  match key.kind, computed with
  | .name _, false => return key
  | _, _ => if isFixedText key then return key else failure

def enumMember : Parse Node := do
  let start ← position
  let key ← enumKey g
  let value ← if ← eat "=" then g (.assignment true) else absent
  node .property start [key, value]

def enumeration : Parse Node := do
  let start ← position
  let _ ← eat "const"
  expect "enum"
  let name ← Pattern.bindingName
  expect "\x7b"
  let (members, _) ← commas "\x7d" (enumMember g)
  expect "\x7d"
  node .enumeration start (name :: members)

def interface : Parse Node := do
  let start ← position
  expect "interface"
  let name ← Pattern.bindingName
  let generics ← TypeSyntax.parameters? g
  let bases ←
    if ← eat "extends" then separated "," (TypeSyntax.typeReference g) else pure []
  let members ← TypeSyntax.members g
  node .typeDeclaration start (name :: generics :: bases ++ [members])

def typeAlias : Parse Node := do
  let start ← position
  expect "type"
  let name ← Pattern.bindingName
  let generics ← TypeSyntax.parameters? g
  expect "="
  let type ← g .type
  semicolon
  node .typeDeclaration start [name, generics, type]

def moduleBlock : Parse Node := do
  let start ← position
  let isGlobal ← sees "global"
  let isModule ← sees "module"
  advance
  let isString := isModule && (← token).isString
  let names ←
    if isString then
      advance
      pure []
    else if isGlobal then pure []
    else separated "." Pattern.bindingName
  let kind := Kind.moduleBlock (names.filterMap FunctionSyntax.bindingText?)
  if (isGlobal || isString) && !(← sees "\x7b") then
    semicolon
    node kind start []
  else
    let body ← FunctionSyntax.block g
    node kind start [body]

def importAlias (start : Nat) : Parse Node := do
  if (← sees "type") && (← peek).isName then advance
  let name ← Pattern.bindingName
  expect "="
  if (← sees "require") && (← peek).is "(" then
    advance
    advance
    let source ← Pattern.stringLiteral
    expect ")"
    semicolon
    node .importAlias start [name, source]
  else
    let entity ← TypeSyntax.entityName
    semicolon
    node .importAlias start [name, entity]

def modifiers : List String :=
  ["abstract", "accessor", "declare", "private", "protected", "public", "readonly", "static"]

def startsCounted : Nat → Parse Bool
  | 0 => failure
  | n + 1 => do
      if ← seesAny ["var", "let", "const", "function", "class", "enum"] then return true
      else if ← seesAny ["interface", "type"] then
        advance
        return (← token).isName && !(← token).newline
      else if ← seesAny ["module", "namespace"] then
        advance
        return ((← token).isName || (← token).isString) && !(← token).newline
      else if ← sees "global" then
        advance
        return (← token).isName || (← sees "\x7b")
      else if ← sees "import" then
        advance
        return (← token).isWord || (← token).isString || (← seesAny ["*", "\x7b"])
      else if ← seesAny ("async" :: modifiers) then
        advance
        if (← token).newline then return false
        startsCounted n
      else return false

def starts : Parse Bool := do
  let limit := (← get).limit
  lookahead (startsCounted limit)

def seesModifier : Parse Bool := do
  return (← seesAny modifiers) && (← peek).isWord && !(← peek).newline

def modifiersCounted : Nat → Parse (List String)
  | 0 => failure
  | n + 1 => do
      if ← seesModifier then
        match (← token).lexeme with
        | .word text _ =>
            advance
            return text :: (← modifiersCounted n)
        | _ => failure
      else return []

def declaration : Parse Node := do
  let start ← position
  let typed ← isTyped
  let words ← if typed then modifiersCounted (← get).limit else pure []
  let isClass ← sees "class"
  let isImport ← sees "import"
  flawIf (words.any fun w => w ≠ "declare" && !isImport && !(isClass && w = "abstract"))
  within (fun c => { c with ambient := c.ambient || words.contains "declare" }) do
    let next ← peek
    if ← seesAny ["var", "let"] then variableList g
    else if ← sees "const" then
      if typed && next.is "enum" then enumeration g else variableList g
    else if ← FunctionSyntax.starts then FunctionSyntax.function g .declaration
    else if ← sees "class" then ClassSyntax.definition g
    else if !typed then failure
    else if ← sees "enum" then enumeration g
    else if ← sees "interface" then interface g
    else if ← sees "type" then typeAlias g
    else if ← seesAny ["namespace", "module", "global"] then moduleBlock g
    else if ← eat "import" then importAlias start
    else failure

end Prerender.Script.DeclarationSyntax
