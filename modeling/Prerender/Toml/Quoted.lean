import Prerender.Text.Digits
import Prerender.Toml.Reader

set_option autoImplicit false

/-!
Strings in TOML. Between quotation marks a backslash escapes, between apostrophes it does not; three
marks open a string that may go over several lines, and up to two more marks may stand before the three
that close it.
-/
namespace Prerender.Toml

def coded (n : Nat) : Reader Char := fun cs =>
  let digits := cs.take n
  match Text.hexNumber? digits with
  | some code => if digits.length = n ∧ code.isValidChar then some (Char.ofNat code, cs.drop n) else none
  | none => none

def escape : Reader Char := do
  char '\\'
  match ← one fun _ => true with
  | 'b' => return '\x08'
  | 't' => return '\t'
  | 'n' => return '\n'
  | 'f' => return '\x0c'
  | 'r' => return '\r'
  | '"' => return '"'
  | '\\' => return '\\'
  | 'u' => coded 4
  | 'U' => coded 8
  | _ => failure

def isBasic (c : Char) : Bool := isPlain c && c != '"' && c != '\\'

def isLiteral (c : Char) : Bool := isPlain c && c != '\''

def basic : Reader String := do
  char '"'
  let cs ← many (one isBasic <|> escape)
  char '"'
  return String.ofList cs

def literal : Reader String := do
  char '\''
  let cs ← span isLiteral
  char '\''
  return String.ofList cs

def fold : Reader Unit := do
  char '\\'
  blanks
  newline
  let _ ← many ((do let _ ← one isBlank) <|> newline)

def innerMarks (mark : Char) : Reader (List Char) := fun cs =>
  let run := cs.takeWhile (· == mark)
  let rest := cs.dropWhile (· == mark)
  if !run.isEmpty && run.length < 3 && !rest.isEmpty then some (run, rest) else none

def closingMarks (mark : Char) : Reader (List Char) := fun cs =>
  let run := cs.takeWhile (· == mark)
  if 3 ≤ run.length && run.length ≤ 5 then some (run.drop 3, cs.dropWhile (· == mark)) else none

def lines (mark : Char) (piece : Reader (List Char)) : Reader String := do
  char mark
  char mark
  char mark
  let _ ← perhaps newline
  let pieces ← many (piece <|> (do newline; return ['\n']) <|> innerMarks mark)
  let last ← closingMarks mark
  return String.ofList (pieces.flatten ++ last)

def basicPiece : Reader (List Char) :=
  (do return [← one isBasic]) <|> (do fold; return []) <|> (do return [← escape])

def literalPiece : Reader (List Char) := do
  return [← one isLiteral]

def text : Reader String := lines '"' basicPiece <|> basic <|> lines '\'' literalPiece <|> literal

example : text "\"a\\u00e9\\\"\"".toList = some ("aé\"", []) := by decide +kernel
example : text "\"\"\"\na\\\n  b\r\n\"\" \"\"\"\"\"".toList = some ("ab\n\"\" \"\"", []) := by decide +kernel
example : text "'''a''''".toList = some ("a'", []) := by decide +kernel
example : text "\"a\nb\"".toList = none := by decide +kernel
example : text "\"\\ud800\"".toList = none := by decide +kernel

end Prerender.Toml
