import Prerender.Text.Search

set_option autoImplicit false

namespace Prerender.Toml

abbrev Reader := StateT (List Char) Option

def one (p : Char → Bool) : Reader Char
  | [] => none
  | c :: cs => if p c then some (c, cs) else none

def char (c : Char) : Reader Unit := do
  let _ ← one (· == c)

def word (text : String) : Reader Unit := fun cs => (Text.after? text.toList cs).map ((), ·)

def span (p : Char → Bool) : Reader (List Char) := fun cs => some (cs.takeWhile p, cs.dropWhile p)

def atEnd : Reader Unit := fun cs => if cs.isEmpty then some ((), cs) else none

def perhaps {α : Type} (item : Reader α) : Reader (Option α) := fun cs =>
  match item cs with
  | some (a, rest) => some (some a, rest)
  | none => some (none, cs)

def manyWithin {α : Type} (item : Reader α) : Nat → Reader (List α)
  | 0 => return []
  | fuel + 1 => do
      match ← perhaps item with
      | none => return []
      | some a => return a :: (← manyWithin item fuel)

def many {α : Type} (item : Reader α) : Reader (List α) := fun cs => manyWithin item cs.length cs

def isBlank (c : Char) : Bool := c == ' ' || c == '\t'

def blanks : Reader Unit := do
  let _ ← span isBlank

def newline : Reader Unit := char '\n' <|> word "\r\n"

def isPlain (c : Char) : Bool := c == '\t' || (0x20 ≤ c.toNat && c.toNat != 0x7F)

def comment : Reader Unit := do
  char '#'
  let _ ← span isPlain

def lineEnd : Reader Unit := do
  blanks
  let _ ← perhaps comment
  newline <|> atEnd

def gap : Reader Unit := do
  let _ ← many ((do let _ ← one isBlank) <|> newline <|> (do comment; newline))

end Prerender.Toml
