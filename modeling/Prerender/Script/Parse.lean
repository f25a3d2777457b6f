import Prerender.Script.Grammar.Jsx
import Prerender.Script.Grammar.Statement

set_option autoImplicit false

/-!
Reading a script. The rules of the grammar are closed over a number that bounds how deeply they refer to
one another; the length of the source is enough of a bound, since no rule comes back to itself without a
token in between. Besides what the grammar says, an export may not have the name of another.
-/
namespace Prerender.Script

def Grammar.step (g : Grammar) : Grammar
  | .statement alone => StatementSyntax.statement g alone
  | .expression => Expression.expression g
  | .assignment returnType => Expression.assignment g returnType
  | .binary above => Expression.binary g above
  | .unary => Expression.unary g
  | .leftHand => Expression.leftHand g
  | .constructed => Expression.constructed g
  | .pattern => Pattern.target g
  | .type => TypeSyntax.type g
  | .typeOperand => TypeSyntax.operand g
  | .jsx inTags => Jsx.element g inTags

def Grammar.ofDepth : Nat → Grammar
  | 0 => fun _ => failure
  | n + 1 => (ofDepth n).step

def program (g : Grammar) : Parse Node := do
  let start ← Parse.position
  let statements ← finish (← get).limit
  Parse.node .program start statements
where
  finish : Nat → Parse (List Node)
    | 0 => failure
    | n + 1 => do
        match (← Parse.token).lexeme with
        | .finish => return []
        | _ => return (← g (.statement false)) :: (← finish n)

def firstToken (html : Bool) (source : List Char) : Token :=
  match source with
  | '#' :: '!' :: line =>
      let n := 2 + (line.takeWhile (!isLineEnd ·)).length
      Token.first html n (source.drop n)
  | _ => Token.first html 0 source

mutual
def boundNames : Node → List String
| .mk (.binding name) _ _ => [name]
| .mk .property _ [_, value] => boundNames value
| .mk .defaulted _ (target :: _) => boundNames target
| .mk .annotated _ (target :: _) => boundNames target
| .mk .rest _ [target] => boundNames target
| .mk .objectPattern _ parts => boundNamesOf parts
| .mk .arrayPattern _ parts => boundNamesOf parts
| .mk (.variableList _) _ parts => boundNamesOf parts
| .mk .declarator _ (target :: _) => boundNames target
| _ => []
def boundNamesOf : List Node → List String
| [] => []
| n :: ns => boundNames n ++ boundNamesOf ns
end

def declaredName? (n : Node) : Option String :=
  match n.kind with
  | .function name => name
  | .classDefinition name => name
  | _ => none

def exportedName? (entry : Node) : Option String :=
  match entry.kind, entry.parts.getLast?.map Node.kind with
  | .specifier, some (.name text) => some text
  | .specifier, some (.string text) => some text
  | _, _ => none

def exportedNames (statement : Node) : List String :=
  match statement with
  | .mk .exportDeclaration _ [d] =>
      let d := match d with
        | .mk .decorated _ parts => parts.getLast?.getD d
        | d => d
      boundNames d ++ (declaredName? d).toList
  | .mk .exportList _ parts => parts.filterMap exportedName?
  | .mk .exportAll _ parts => parts.filterMap exportedName?
  | .mk .exportDefault _ _ => ["default"]
  | _ => []

def parse? (dialect : Dialect) (source : String) : Option Node :=
  let text := source.toList
  let t := firstToken (!dialect.isModule) text
  let context : Context := ⟨true, false, dialect.isModule, false, dialect.ambient, false, false⟩
  let start : State := ⟨t, 0, false, [], context, dialect, text.length + 2⟩
  match t.lexeme, program (Grammar.ofDepth (16 * text.length + 64)) start with
  | .unknown, _ => none
  | _, some (tree, final) =>
      let distinct := dialect.typed || decide (tree.parts.flatMap exportedNames).Nodup
      if final.flawed || !final.covers.isEmpty || !distinct then none else some tree
  | _, none => none

end Prerender.Script
