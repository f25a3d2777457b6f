import Prerender.Decimal.Reading
import Prerender.Json.Basic
import Prerender.Text.Digits
import Prerender.Toml.Reader

set_option autoImplicit false

/-!
Numbers in TOML. An integer has to fit 64 bits; underscores may stand between digits, and a decimal may
not begin with a superfluous zero. A number too large for binary64 is refused, a negative one is
infinite.
-/
namespace Prerender.Toml

def digits (radix : Nat) : Reader (List Char) := fun cs =>
  let isDigit := Text.isDigitOf radix
  let (run, length) := Text.digitRun isDigit cs
  if cs.head?.any isDigit then some (run, cs.drop length) else none

def wholeDigits : Reader (List Char) := do
  match ← perhaps (char '0') with
  | some () => return ['0']
  | none => digits 10

def sign : Reader Bool := do
  match ← perhaps (one fun c => c == '-' || c == '+') with
  | some c => return c == '-'
  | none => return false

def inRange (n : Int) : Bool := -0x8000000000000000 ≤ n && n < 0x8000000000000000

def ofRadix (mark : String) (radix : Nat) : Reader Int := do
  word mark
  let n : Int := Text.ofDigits radix (← digits radix)
  if inRange n then return n else failure

def decimal : Reader Int := do
  let negative ← sign
  let n : Int := Text.ofDigits 10 (← wholeDigits)
  let n := if negative then -n else n
  if inRange n then return n else failure

def integer : Reader Int := ofRadix "0x" 16 <|> ofRadix "0o" 8 <|> ofRadix "0b" 2 <|> decimal

def exponent : Reader Int := do
  let _ ← one fun c => c == 'e' || c == 'E'
  let negative ← sign
  let n : Int := Text.ofDigits 10 (← digits 10)
  return if negative then -n else n

def fraction : Reader (List Char) := do
  char '.'
  digits 10

def infinite : Float := 1.0 / 0.0

def specialFloat : Reader Float := do
  let negative ← sign
  let x ← (do word "inf"; return infinite) <|> (do word "nan"; return 0.0 / 0.0)
  return if negative then -x else x

def float : Reader Float := do
  let negative ← sign
  let whole ← wholeDigits
  let places ← perhaps fraction
  let power ← perhaps exponent
  if places.isNone && power.isNone then failure
  else
    let places := places.getD []
    let x := Decimal.nearest (Text.ofDigits 10 (whole ++ places)) (power.getD 0 - places.length)
    if x.isInf && !negative then failure else return if negative then -x else x

def number : Reader Json.Number :=
  (do return .float (← specialFloat)) <|> (do return .float (← float)) <|> (do return .int (← integer))

example : number "-1_000".toList = some (.int (-1000), []) := by decide +kernel
example : number "0xff".toList = some (.int 255, []) := by decide +kernel
example : number "6.5e-1".toList = some (.float 0.65, []) := by decide +kernel
example : number "9223372036854775808".toList = none := by decide +kernel
example : number "01".toList = some (.int 0, ['1']) := by decide +kernel

end Prerender.Toml
