set_option autoImplicit false

/-!
The syntax tree of a script. A node has a kind, the stretch of source that it covers, and its parts in
source order. A kind carries a name, a value or an operator where something depends on it; what the
parts of a node are is said at its kind.
-/
namespace Prerender.Script

structure Span where
  start : Nat
  stop : Nat
deriving DecidableEq, Repr

inductive Kind where
  | absent
  | reference (name : String)
  | binding (name : String)
  -- The name of a property, a label, or an entry of an import or export list.
  | name (text : String)
  | privateName (text : String)
  | string (value : String)
  | number (value : Float)
  | bigint
  | boolean (value : Bool)
  | null
  | regex
  -- The text pieces of a template; its parts are the expressions between them. A piece with an
  -- invalid escape has no text.
  | template (pieces : List (Option String))
  -- A tag, type arguments and a template.
  | taggedTemplate
  | thisValue
  | superValue
  -- `new.target` and `import.meta`.
  | metaProperty
  -- Elements; one that is left out is `absent`. `comma` tells of a comma behind the last.
  | array (comma : Bool)
  -- Properties and spreads. `comma` tells of a comma behind the last.
  | object (comma : Bool)
  -- A key and a value. A key that is not computed is a `name`, unless it is a literal.
  | property
  | spread
  -- Type parameters, parameters, return type and body.
  | function (name : Option String)
  | arrow
  -- Type parameters, heritage and members.
  | classDefinition (name : Option String)
  | heritage
  | member
  | unary (operator : String)
  | update
  | binary (operator : String)
  | assignment (operator : String)
  | conditional
  | sequence
  | yields
  | awaits
  | parenthesized
  -- A callee, type arguments and arguments.
  | call
  -- As `call`, behind `new`.
  | construct
  | importCall
  -- An expression with a `?.` in it.
  | chain
  -- `e as T` and `e satisfies T`.
  | ascription
  | assertion
  | nonNull
  | instantiation
  | decorator
  -- Decorators and what they decorate.
  | decorated
  | jsxElement
  | jsxAttribute
  | jsxName (text : String)
  | jsxContainer
  | jsxText
  | objectPattern
  | arrayPattern
  -- A pattern and the value that it has otherwise.
  | defaulted
  | rest
  -- A pattern and its type.
  | annotated
  | parameters
  | typeSyntax
  | block
  | statement (keyword : String)
  | expressionStatement
  | labeled
  -- Declarators. `hoisted` tells of `var`, which declares in the whole function around it.
  | variableList (hoisted : Bool)
  | declarator
  | typeDeclaration
  -- A name and members.
  | enumeration
  -- A body. The names are those of a namespace, each in the one before it.
  | moduleBlock (names : List String)
  -- Entries, attributes.
  | importDeclaration (source : String)
  -- An entry of an import or export list: the name outside this module and the name in it, or the
  -- other way around, in source order.
  | specifier
  | importAlias
  | exportDeclaration
  -- Specifiers, source and attributes.
  | exportList
  | exportAll
  | exportDefault
  | exportAssignment
  | exportNamespace
  | attributes
  | program
deriving DecidableEq, Repr

inductive Node where
  | mk (kind : Kind) (span : Span) (parts : List Node)
deriving Repr

namespace Node

def kind : Node → Kind
  | mk kind _ _ => kind

def span : Node → Span
  | mk _ span _ => span

def parts : Node → List Node
  | mk _ _ parts => parts

def isAbsent (n : Node) : Bool := n.kind = .absent

mutual
def descendants : Node → List Node
| mk kind span parts => mk kind span parts :: descendantsOf parts
def descendantsOf : List Node → List Node
| [] => []
| n :: ns => n.descendants ++ descendantsOf ns
end

def call? : Node → Option (String × List Node)
  | mk .call _ (mk (.reference name) _ _ :: _ :: arguments) => some (name, arguments)
  | _ => none

end Node
end Prerender.Script
