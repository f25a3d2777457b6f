import Prerender.Text.Digits
import Prerender.Text.Search

set_option autoImplicit false

/-!
Escape sequences in names, strings and templates. A sequence may stand for half of a surrogate pair,
which is no character; a text with such halves is written out of code points, each half as a
replacement character before its four hexadecimal digits.
-/
namespace Prerender.Script

def isLineEnd (c : Char) : Bool :=
  c == '\n' || c == '\r' || c == '\u2028' || c == '\u2029'

namespace Escape

def hex? (n : Nat) (cs : List Char) : Option Nat :=
  if (cs.take n).length = n then Text.hexNumber? (cs.take n) else none

def braced? (cs : List Char) : Option (Nat × Nat) :=
  let digits := cs.takeWhile (· != '\x7d')
  match digits, Text.hexNumber? digits with
  | _ :: _, some n =>
      if n ≤ 0x10FFFF && digits.length < cs.length then some (n, digits.length) else none
  | _, _ => none

def isHigh (n : Nat) : Bool := 0xD800 ≤ n && n ≤ 0xDBFF

def isLow (n : Nat) : Bool := 0xDC00 ≤ n && n ≤ 0xDFFF

-- The code point behind `\u`, with its length. Two escapes in a row that make a surrogate pair are
-- one code point.
def unicode? : List Char → Option (Nat × Nat)
  | '\x7b' :: cs => (braced? cs).map fun (n, length) => (n, length + 2)
  | cs =>
      match hex? 4 cs with
      | none => none
      | some high =>
          match isHigh high, cs.drop 4 with
          | true, '\\' :: 'u' :: next =>
              match hex? 4 next with
              | some low =>
                  if isLow low then
                    some (0x10000 + (high - 0xD800) * 0x400 + (low - 0xDC00), 10)
                  else some (high, 4)
              | none => some (high, 4)
          | _, _ => some (high, 4)

def octal (cs : List Char) : Nat × Nat :=
  let isOctal (c : Char) := '0' ≤ c && c ≤ '7'
  let digits := (cs.take 3).takeWhile isOctal
  let value (ds : List Char) := ds.foldl (fun n d => n * 8 + (d.toNat - 48)) 0
  if value digits < 256 then (value digits, digits.length) else (value (digits.take 2), 2)

inductive Sequence where
  | codePoint (value length : Nat)
  -- A line break that the text leaves out.
  | continuation (length : Nat)
  | invalid
deriving DecidableEq, Repr

-- Reads the escape sequence behind a backslash. Old octal escapes are for strings only.
def read (octals : Bool) : List Char → Sequence
  | [] => .invalid
  | 'n' :: _ => .codePoint 10 1
  | 't' :: _ => .codePoint 9 1
  | 'r' :: _ => .codePoint 13 1
  | 'b' :: _ => .codePoint 8 1
  | 'f' :: _ => .codePoint 12 1
  | 'v' :: _ => .codePoint 11 1
  | 'x' :: cs =>
      match hex? 2 cs with
      | some n => .codePoint n 3
      | none => .invalid
  | 'u' :: cs =>
      match unicode? cs with
      | some (n, length) => .codePoint n (length + 1)
      | none => .invalid
  | '\r' :: '\n' :: _ => .continuation 2
  | '0' :: cs =>
      if (cs.head?.any Char.isDigit) then
        if octals then
          let (n, length) := octal ('0' :: cs)
          .codePoint n length
        else .invalid
      else .codePoint 0 1
  | c :: cs =>
      if isLineEnd c then .continuation 1
      else if c.isDigit && !octals then .invalid
      else if '1' ≤ c && c ≤ '7' then
        let (n, length) := octal (c :: cs)
        .codePoint n length
      else .codePoint c.toNat 1

def hexDigits (n : Nat) : List Char :=
  [n / 4096 % 16, n / 256 % 16, n / 16 % 16, n % 16].map Nat.digitChar

-- The text of a list of code points. In a text with half a surrogate pair a replacement character
-- of its own is written like one, too.
def text (points : List Nat) : String :=
  let isHalf (n : Nat) := isHigh n || isLow n
  let isMarked (n : Nat) := isHalf n || (n == 0xFFFD && points.any isHalf)
  String.ofList (points.flatMap fun n =>
    if isMarked n then '\uFFFD' :: hexDigits n else [Char.ofNat n])

end Escape
end Prerender.Script
