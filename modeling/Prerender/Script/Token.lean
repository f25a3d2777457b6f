import Prerender.Script.Escape
import Prerender.Script.Number
import Prerender.Text.Identifier

set_option autoImplicit false

/-!
Tokens. A token is read from the text that it begins; its length gives where it ends, and the next token
begins behind the blanks and comments that follow. Some tokens depend on what the grammar expects, so a
token can be read again as another kind: a regular expression, a piece of a template, a part of JSX, a
longer or a shorter run of angle brackets.
-/
namespace Prerender.Script

inductive Lexeme where
  | finish
  | symbol (text : String)
  | word (text : String) (escaped : Bool)
  | privateName (text : String)
  | number (value : Option Float)
  | string (value : String)
  | template (text : Option String) (whole : Bool)
  | regex
  | jsxText
  | unknown
deriving DecidableEq, Repr

structure Token where
  lexeme : Lexeme
  start : Nat
  stop : Nat
  -- Whether a line ends between the token before and this one.
  newline : Bool
  text : List Char
deriving Repr

def isBlank (c : Char) : Bool :=
  let n := c.toNat
  n == 0x20 || n == 0x09 || n == 0x0B || n == 0x0C || n == 0xA0 || n == 0xFEFF || n == 0x85 ||
    n == 0x1680 || (0x2000 ≤ n && n ≤ 0x200B) || n == 0x202F || n == 0x205F || n == 0x3000

inductive Gap where
  | blank
  | line
  | block
deriving DecidableEq, Repr

-- The number of blanks and characters of comments, counted on from `n`, and whether a line ends
-- among them; none when a comment is not closed. `html` admits `<!--` and, at the head of a line,
-- `-->` as comments.
def gap (html : Bool) : Gap → Bool → Nat → List Char → Option (Nat × Bool)
  | .block, _, _, [] => none
  | _, newline, n, [] => some (n, newline)
  | .blank, newline, n, '/' :: '/' :: cs => gap html .line newline (n + 2) cs
  | .blank, newline, n, '/' :: '*' :: cs => gap html .block newline (n + 2) cs
  | .blank, newline, n, '<' :: '!' :: '-' :: '-' :: cs =>
      if html then gap html .line newline (n + 4) cs else some (n, newline)
  | .blank, newline, n, '-' :: '-' :: '>' :: cs =>
      if html && newline then gap html .line newline (n + 3) cs else some (n, newline)
  | .blank, newline, n, c :: cs =>
      if isLineEnd c then gap html .blank true (n + 1) cs
      else if isBlank c then gap html .blank newline (n + 1) cs
      else some (n, newline)
  | .line, newline, n, c :: cs =>
      if isLineEnd c then gap html .blank true (n + 1) cs else gap html .line newline (n + 1) cs
  | .block, newline, n, '*' :: '/' :: cs => gap html .blank newline (n + 2) cs
  | .block, newline, n, c :: cs => gap html .block (newline || isLineEnd c) (n + 1) cs

namespace Lexeme

-- The name at the head of a text, its length and whether an escape stands in it; `skip` characters
-- of an escape are still to be passed over.
def nameFrom (first : Bool) : Nat → List Char → Option (List Char × Nat × Bool)
  | _, [] => some ([], 0, false)
  | skip + 1, _ :: cs =>
      (nameFrom false skip cs).map fun (name, n, escaped) => (name, n + 1, escaped)
  | 0, c :: cs =>
      let fits (c : Char) := if first then Text.isIdentifierStart c else Text.isIdentifierPart c
      if c == '\\' then
        match cs with
        | 'u' :: digits =>
            match Escape.unicode? digits with
            | some (point, length) =>
                if fits (Char.ofNat point) then
                  (nameFrom false (length + 1) cs).map fun (name, n, _) =>
                    (Char.ofNat point :: name, n + 1, true)
                else none
            | none => none
        | _ => none
      else if fits c then
        (nameFrom false 0 cs).map fun (name, n, escaped) => (c :: name, n + 1, escaped)
      else some ([], 0, false)

def name? (cs : List Char) : Option (String × Nat × Bool) :=
  match nameFrom true 0 cs with
  | some (c :: name, n, escaped) => some (String.ofList (c :: name), n, escaped)
  | _ => none

def stringFrom (quote : Char) : Nat → List Char → Option (List Nat × Nat)
  | _, [] => none
  | skip + 1, _ :: cs => (stringFrom quote skip cs).map fun (points, n) => (points, n + 1)
  | 0, c :: cs =>
      if c == quote then some ([], 1)
      else if c == '\n' || c == '\r' then none
      else if c == '\\' then
        match Escape.read true cs with
        | .codePoint point length =>
            (stringFrom quote length cs).map fun (points, n) => (point :: points, n + 1)
        | .continuation length =>
            (stringFrom quote length cs).map fun (points, n) => (points, n + 1)
        | .invalid => none
      else (stringFrom quote 0 cs).map fun (points, n) => (c.toNat :: points, n + 1)

structure Piece where
  points : Option (List Nat)
  isLast : Bool
  length : Nat

def Piece.push (point : Nat) (p : Piece) : Piece :=
  { p with points := p.points.map (point :: ·), length := p.length + 1 }

def Piece.text (p : Piece) : Option String := p.points.map Escape.text

def pieceFrom : Nat → List Char → Option Piece
  | _, [] => none
  | skip + 1, _ :: cs => (pieceFrom skip cs).map fun p => { p with length := p.length + 1 }
  | 0, c :: cs =>
      if c == '\x60' then some ⟨some [], true, 1⟩
      else if c == '$' && cs.head? == some '\x7b' then some ⟨some [], false, 2⟩
      else if c == '\r' then
        (pieceFrom (if cs.head? == some '\n' then 1 else 0) cs).map (·.push 10)
      else if c == '\\' then
        match Escape.read false cs with
        | .codePoint point length => (pieceFrom length cs).map (·.push point)
        | .continuation length => (pieceFrom length cs).map fun p => { p with length := p.length + 1 }
        | .invalid => (pieceFrom 1 cs).map fun p => { p with points := none, length := p.length + 1 }
      else (pieceFrom 0 cs).map (·.push c.toNat)

-- The symbols, each behind those that it begins. A `>` stands alone until it is read again.
def symbols : List String :=
  [">", "\x7b", "\x7d", "(", ")", "[", "]", ";", ",", "~", ":", "@", "...", ".", "<<=", "<<", "<=", "<",
    "===", "==", "=>", "=", "!==", "!=", "!", "++", "+=", "+", "--", "-=", "-", "**=", "**", "*=", "*",
    "/=", "/", "%=", "%", "&&=", "&&", "&=", "&", "||=", "||", "|=", "|", "^=", "^", "??=", "??", "?.",
    "?"]

-- The longest of some symbols at the head of a text; a `?.` before a digit is a `?`.
def symbolOf (candidates : List String) (cs : List Char) : Lexeme × Nat :=
  match cs with
  | '?' :: '.' :: d :: _ =>
      if d.isDigit then (.symbol "?", 1) else (.symbol "?.", 2)
  | _ =>
      match candidates.find? fun s => Text.startsWith s.toList cs with
      | some s => (.symbol s, s.length)
      | none => (.unknown, 0)

def read (cs : List Char) : Lexeme × Nat :=
  match cs with
  | [] => (.finish, 0)
  | c :: rest =>
      if c == '"' || c == '\'' then
        match stringFrom c 0 rest with
        | some (points, n) => (.string (Escape.text points), n + 1)
        | none => (.unknown, 0)
      else if c.isDigit || (c == '.' && rest.head?.any Char.isDigit) then
        match Number.read? cs with
        | some (value, n) => (.number value, n)
        | none => (.unknown, 0)
      else if c == '\x60' then
        match pieceFrom 0 rest with
        | some p => (.template p.text p.isLast, p.length + 1)
        | none => (.unknown, 0)
      else if c == '#' then
        match name? rest with
        | some (name, n, _) => (.privateName name, n + 1)
        | none => (.unknown, 0)
      else if c == '\\' || Text.isIdentifierStart c then
        match name? cs with
        | some (name, n, escaped) => (.word name escaped, n)
        | none => (.unknown, 0)
      else symbolOf symbols cs

def regexFrom (bracket : Bool) (n : Nat) : List Char → Option Nat
  | [] => none
  | '\\' :: c :: cs => if isLineEnd c then none else regexFrom bracket (n + 2) cs
  | c :: cs =>
      if isLineEnd c then none
      else if c == '/' && !bracket then some (n + 1)
      else regexFrom (c == '[' || (bracket && c != ']')) (n + 1) cs

def regexFlags : List Char := ['d', 'g', 'i', 'm', 's', 'u', 'v', 'y']

def regex? : List Char → Option Nat
  | '/' :: cs =>
      match regexFrom false 0 cs with
      | none => none
      | some n =>
          let flags := (cs.drop n).takeWhile Text.isIdentifierPart
          if flags.all (regexFlags.contains ·) && decide flags.Nodup then some (1 + n + flags.length)
          else none
  | _ => none

end Lexeme

def reservedWords : List String :=
  ["break", "case", "catch", "class", "const", "continue", "debugger", "default", "delete", "do",
    "else", "enum", "export", "extends", "false", "finally", "for", "function", "if", "import", "in",
    "instanceof", "new", "null", "return", "super", "switch", "this", "throw", "true", "try", "typeof",
    "var", "void", "while", "with"]

namespace Token

def read (lexeme : Lexeme × Nat) (start : Nat) (newline : Bool) (text : List Char) : Token :=
  ⟨lexeme.1, start, start + lexeme.2, newline, text⟩

def rest (t : Token) : List Char := t.text.drop (t.stop - t.start)

def first (html : Bool) (start : Nat) (cs : List Char) : Token :=
  match gap html .blank false 0 cs with
  | some (n, newline) => read (Lexeme.read (cs.drop n)) (start + n) newline (cs.drop n)
  | none => ⟨.unknown, start, start, false, cs⟩

def next (html : Bool) (t : Token) : Token := first html t.stop t.rest

def is (text : String) (t : Token) : Bool :=
  match t.lexeme with
  | .symbol s => s == text
  | .word s escaped => s == text && !escaped
  | _ => false

def isOneOf (texts : List String) (t : Token) : Bool := texts.any t.is

def isWord (t : Token) : Bool :=
  match t.lexeme with
  | .word _ _ => true
  | _ => false

def isName (t : Token) : Bool :=
  match t.lexeme with
  | .word s _ => !reservedWords.contains s
  | _ => false

def isString (t : Token) : Bool :=
  match t.lexeme with
  | .string _ => true
  | _ => false

def isTemplate (t : Token) : Bool :=
  match t.lexeme with
  | .template _ _ => true
  | _ => false

def again (t : Token) (lexeme : Lexeme) (length : Nat) : Token :=
  { t with lexeme := lexeme, stop := t.start + length }

def widened (t : Token) : Token :=
  if t.is ">" then
    let (lexeme, n) := Lexeme.symbolOf [">>>=", ">>>", ">>=", ">>", ">=", ">"] t.text
    t.again lexeme n
  else t

def narrowed (t : Token) : Token :=
  if t.isOneOf ["<<", "<=", "<<="] then t.again (.symbol "<") 1 else t

def asRegex? (t : Token) : Option Token := (Lexeme.regex? t.text).map (t.again .regex)

def asPiece? (t : Token) : Option Token :=
  (Lexeme.pieceFrom 0 (t.text.drop 1)).map fun p =>
    t.again (.template p.text p.isLast) (p.length + 1)

def asJsxName (t : Token) : Token :=
  match t.lexeme with
  | .word s escaped =>
      let tail := t.rest.takeWhile fun c => c == '-' || Text.isIdentifierPart c
      t.again (.word (s ++ String.ofList tail) escaped) (t.stop - t.start + tail.length)
  | _ => t

def nextInTags (t : Token) : Token :=
  let isText (c : Char) := c != '\x7b' && c != '<'
  match t.rest with
  | [] => read (.finish, 0) t.stop false []
  | c :: cs =>
      if isText c then read (.jsxText, ((c :: cs).takeWhile isText).length) t.stop false (c :: cs)
      else read (.symbol (String.singleton c), 1) t.stop false (c :: cs)

def nextInAttribute (html : Bool) (t : Token) : Token :=
  let u := t.next html
  match u.text with
  | c :: cs =>
      if c == '"' || c == '\'' then
        let inside := cs.takeWhile (· != c)
        if inside.length < cs.length then u.again (.string (String.ofList inside)) (inside.length + 2)
        else u.again .unknown 0
      else u
  | [] => u

example : (first false 0 " a".toList).lexeme = .word "a" false := by decide +kernel
example : (first false 0 "'\\ud800'".toList).lexeme = .string "\uFFFDd800" := by decide +kernel

end Token
end Prerender.Script
