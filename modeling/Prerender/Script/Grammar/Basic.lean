import Prerender.Script.Dialect
import Prerender.Script.Token
import Prerender.Script.Tree

set_option autoImplicit false

/-!
What the rules of the grammar share: the state of a reading, its steps, and lists. A rule either reads a
node, or fails and leaves no state; a source that is wrong without stopping the reading is *flawed*.
Rules refer to one another through a `Grammar`, which is closed at the end.
-/
namespace Prerender.Script

structure Context where
  hasIn : Bool
  yields : Bool
  awaits : Bool
  returns : Bool
  ambient : Bool
  -- Inside the expression of a decorator, where `[` begins the next member.
  decorates : Bool
  -- In a type where `extends` does not begin a condition.
  unconditional : Bool
deriving DecidableEq, Repr

structure State where
  token : Token
  lastStop : Nat
  flawed : Bool
  -- Where properties such as `a = 1` begin; each has to turn out as part of a pattern.
  covers : List Nat
  context : Context
  dialect : Dialect
  limit : Nat

abbrev Parse := StateT State Option

inductive Rule where
  | statement (alone : Bool)
  | expression
  -- An expression without a comma; `returnType` admits a return type in an arrow function.
  | assignment (returnType : Bool)
  -- Operands of operators that bind more tightly than `above`.
  | binary (above : Nat)
  | unary
  | leftHand
  | constructed
  | pattern
  | type
  | typeOperand
  -- An element behind its `<`. `inTags` if it stands between tags.
  | jsx (inTags : Bool)
deriving DecidableEq, Repr

abbrev Grammar := Rule → Parse Node

namespace Parse

def token : Parse Token := return (← get).token

def dialect : Parse Dialect := return (← get).dialect

def context : Parse Context := return (← get).context

def isTyped : Parse Bool := return (← get).dialect.typed

def html (s : State) : Bool := !s.dialect.isModule

def peek : Parse Token := return (← get).token.next (html (← get))

def sees (text : String) : Parse Bool := return (← token).is text

def seesAny (texts : List String) : Parse Bool := return (← token).isOneOf texts

def moveTo (t : Token) : Parse Unit := do
  match t.lexeme with
  | .unknown => failure
  | _ => modify fun s => { s with token := t, lastStop := s.token.stop }

def advance : Parse Unit := do moveTo (← peek)

def reread (t : Token) : Parse Unit := do
  match t.lexeme with
  | .unknown => failure
  | _ => modify fun s => { s with token := t }

def narrow : Parse Unit := do reread (← token).narrowed

def eat (text : String) : Parse Bool := do
  if ← sees text then
    advance
    return true
  else return false

def eatIf (admitted : Bool) (text : String) : Parse Bool := do
  if admitted then eat text else return false

def expect (text : String) : Parse Unit := do
  if ← sees text then advance else failure

def flaw : Parse Unit := modify fun s => { s with flawed := true }

def flawIf (wrong : Bool) : Parse Unit := if wrong then flaw else pure ()

def attempt {α : Type} (p : Parse α) : Parse (Option α) := fun s =>
  match p s with
  | some (a, after) => some (some a, after)
  | none => some (none, s)

def lookaheadOr {α : Type} (otherwise : α) (p : Parse α) : Parse α := fun s =>
  match p s with
  | some (answer, _) => some (answer, s)
  | none => some (otherwise, s)

def lookahead (p : Parse Bool) : Parse Bool := lookaheadOr false p

def within {α : Type} (change : Context → Context) (p : Parse α) : Parse α := do
  let outer ← context
  modify fun s => { s with context := change outer }
  let a ← p
  modify fun s => { s with context := outer }
  return a

def position : Parse Nat := return (← token).start

def node (kind : Kind) (start : Nat) (parts : List Node) : Parse Node :=
  return .mk kind ⟨start, (← get).lastStop⟩ parts

def absent : Parse Node := do
  let start ← position
  return .mk .absent ⟨start, start⟩ []

def single (kind : Kind) : Parse Node := do
  let t ← token
  advance
  return .mk kind ⟨t.start, t.stop⟩ []

def endsStatement : Parse Bool := do
  let t ← token
  match t.lexeme with
  | .finish => return true
  | _ => return t.newline || t.isOneOf [";", "\x7d"]

def semicolon : Parse Unit := do
  if ← endsStatement then
    let _ ← eat ";"
  else failure

def upToCounted (closers : List String) (item : Parse Node) : Nat → Parse (List Node)
  | 0 => failure
  | n + 1 => do
      if ← seesAny closers then return []
      let x ← item
      return x :: (← upToCounted closers item n)

def upTo (closers : List String) (item : Parse Node) : Parse (List Node) := do
  upToCounted closers item (← get).limit

def commasCounted (close : String) (item : Parse Node) : Nat → Parse (List Node × Bool)
  | 0 => failure
  | n + 1 => do
      if ← sees close then return ([], false)
      let x ← item
      if ← eat "," then
        if ← sees close then return ([x], true)
        let (xs, comma) ← commasCounted close item n
        return (x :: xs, comma)
      else return ([x], false)

-- Items with commas between them up to a symbol, which is left; and whether a comma stands before
-- it.
def commas (close : String) (item : Parse Node) : Parse (List Node × Bool) := do
  commasCounted close item (← get).limit

def separatedCounted (separator : String) (item : Parse Node) : Nat → Parse (List Node)
  | 0 => failure
  | n + 1 => do
      let x ← item
      if ← eat separator then return x :: (← separatedCounted separator item n)
      else return [x]

def separated (separator : String) (item : Parse Node) : Parse (List Node) := do
  separatedCounted separator item (← get).limit

def skipCounted (more : Parse Bool) : Nat → Parse Unit
  | 0 => failure
  | n + 1 => do
      if ← more then
        advance
        skipCounted more n
      else return ()

def skipWhile (more : Parse Bool) : Parse Unit := do
  skipCounted more (← get).limit

def foldCounted {α : Type} (step : α → Parse (Option α)) : Nat → α → Parse α
  | 0, _ => failure
  | n + 1, x => do
      match ← step x with
      | some y => foldCounted step n y
      | none => return x

def extend {α : Type} (step : α → Parse (Option α)) (x : α) : Parse α := do
  foldCounted step (← get).limit x

end Parse
end Prerender.Script
