import Prerender.Decimal.Reading
import Prerender.Script.Escape
import Prerender.Text.Identifier

set_option autoImplicit false

/-!
Numeric literals. A decimal has the nearest binary64 number as its value. A number of another radix that
does not fit 64 bits is rounded digit by digit, which can miss the nearest number.
-/
namespace Prerender.Script.Number

open Text (digitRun isDigitOf)

def roundBits (n : Nat) : Nat :=
  if n < Nat.pow 2 53 then n
  else
    let unit := Nat.pow 2 (n.log2 - 52)
    let q := n / unit
    let r := n % unit
    if unit < 2 * r || (2 * r == unit && q % 2 == 1) then (q + 1) * unit else q * unit

def exactDigits : Nat → Nat
  | 2 => 64
  | 8 => 21
  | _ => 16

def whole (radix : Nat) (digits : List Char) : Float :=
  let step (n : Nat) (c : Char) := n * radix + (Text.hexValue? c).getD 0
  if radix = 10 ∨ digits.length ≤ exactDigits radix then Decimal.nearest (Text.ofDigits radix digits) 0
  else Decimal.nearest (digits.foldl (fun n c => roundBits (step n c)) 0) 0

def radix? (c : Char) : Option Nat :=
  if c == 'x' || c == 'X' then some 16
  else if c == 'o' || c == 'O' then some 8
  else if c == 'b' || c == 'B' then some 2
  else none

def close (value : Option Float) (rest : List Char) (length : Nat) : Option (Option Float × Nat) :=
  if rest.head?.any fun c => Text.isIdentifierPart c || c == '\\' then none else some (value, length)

def closeWhole (value : Float) (rest : List Char) (length : Nat) : Option (Option Float × Nat) :=
  match rest with
  | 'n' :: rest => close none rest (length + 1)
  | rest => close (some value) rest length

def startsDigit (cs : List Char) : Bool := cs.head?.any Char.isDigit

def fraction (cs : List Char) : List Char × Nat :=
  if startsDigit cs then digitRun Char.isDigit cs else ([], 0)

-- Ends a decimal after its digits, of which `places` stand behind the point, with the exponent.
def scaled? (digits : List Char) (places : Nat) (rest : List Char) (length : Nat) :
    Option (Option Float × Nat) :=
  let value (e : Int) := some (Decimal.nearest (Decimal.natural digits) (e - places))
  match rest with
  | c :: rest =>
      if c == 'e' || c == 'E' then
        let (negative, signs) :=
          match rest with
          | '-' :: _ => (true, 1)
          | '+' :: _ => (false, 1)
          | _ => (false, 0)
        if startsDigit (rest.drop signs) then
          let (exponent, n) := digitRun Char.isDigit (rest.drop signs)
          let e : Int := Decimal.natural exponent
          close (value (if negative then -e else e)) (rest.drop (signs + n)) (length + 1 + signs + n)
        else none
      else close (value 0) (c :: rest) length
  | [] => close (value 0) [] length

def afterWhole? (digits rest : List Char) (length : Nat) (octal : Bool) : Option (Option Float × Nat) :=
  match rest with
  | '.' :: cs =>
      let (places, n) := fraction cs
      scaled? (digits ++ places) places.length (cs.drop n) (length + 1 + n)
  | 'e' :: _ => scaled? digits 0 rest length
  | 'E' :: _ => scaled? digits 0 rest length
  | rest =>
      if octal then close (some (whole 10 digits)) rest length
      else closeWhole (whole 10 digits) rest length

def read? : List Char → Option (Option Float × Nat)
  | '0' :: c :: cs =>
      match radix? c with
      | some radix =>
          let (digits, n) := digitRun (isDigitOf radix) cs
          if cs.head?.any (isDigitOf radix) then closeWhole (whole radix digits) (cs.drop n) (n + 2)
          else none
      | none =>
          if c.isDigit then
            let digits := (c :: cs).takeWhile Char.isDigit
            let rest := (c :: cs).drop digits.length
            if digits.all (isDigitOf 8) then close (some (whole 8 digits)) rest (digits.length + 1)
            else afterWhole? digits rest (digits.length + 1) true
          else afterWhole? ['0'] (c :: cs) 1 false
  | '.' :: cs =>
      let (places, n) := fraction cs
      if n = 0 then none else scaled? places places.length (cs.drop n) (n + 1)
  | cs =>
      let (digits, n) := digitRun Char.isDigit cs
      if startsDigit cs then afterWhole? digits (cs.drop n) n false else none

example : read? "1_000;".toList = some (some 1000.0, 5) := by decide +kernel
example : read? "1__0".toList = none := by decide +kernel
example : read? "0x1F".toList = some (some 31.0, 4) := by decide +kernel
example : read? "7n".toList = some (none, 2) := by decide +kernel
example : read? "3in".toList = none := by decide +kernel
example : read? "5.e1".toList = some (some 50.0, 4) := by decide +kernel

end Prerender.Script.Number
