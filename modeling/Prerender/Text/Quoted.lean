import Prerender.Text.Search

set_option autoImplicit false

/-!
Quoted text. `json` escapes what a JSON string must escape and nothing else; `script` is the same
literal made safe for JavaScript, where the two Unicode line separators also have to be escaped.
-/
namespace Prerender.Text.Quoted

def hexDigit (n : Nat) : Char := if n < 10 then Char.ofNat (48 + n) else Char.ofNat (87 + n)

def hex4 (n : Nat) : List Char :=
  [hexDigit (n / 4096 % 16), hexDigit (n / 256 % 16), hexDigit (n / 16 % 16), hexDigit (n % 16)]

def jsonChar (c : Char) : List Char :=
  if c = '"' then ['\\', '"']
  else if c = '\\' then ['\\', '\\']
  else if c.toNat < 0x20 then
    if c.toNat = 8 then ['\\', 'b']
    else if c.toNat = 9 then ['\\', 't']
    else if c.toNat = 10 then ['\\', 'n']
    else if c.toNat = 12 then ['\\', 'f']
    else if c.toNat = 13 then ['\\', 'r']
    else '\\' :: 'u' :: hex4 c.toNat
  else [c]

def json (s : String) : String := String.ofList ('"' :: s.toList.flatMap jsonChar ++ ['"'])

-- A JavaScript string literal in double quotes: the JSON literal with the two separators, which end
-- a line in JavaScript but not in JSON, written as escapes.
def script (s : String) : String :=
  let separator (code : Nat) (cs : List Char) :=
    Text.replaceAll [Char.ofNat code] ('\\' :: 'u' :: hex4 code) cs
  String.ofList (separator 0x2029 (separator 0x2028 (json s).toList))

example : json "a\"b\\c\n\x01é" = "\"a\\\"b\\\\c\\n\\u0001é\"" := by decide +kernel
example : script "\u2028x" = "\"\\u2028x\"" := by decide +kernel

end Prerender.Text.Quoted
