set_option autoImplicit false

namespace Prerender.Text

def hexValue? (c : Char) : Option Nat :=
  if '0' ≤ c ∧ c ≤ '9' then some (c.toNat - 48)
  else if 'a' ≤ c ∧ c ≤ 'f' then some (c.toNat - 87)
  else if 'A' ≤ c ∧ c ≤ 'F' then some (c.toNat - 55)
  else none

def isDigitOf (radix : Nat) (c : Char) : Bool := (hexValue? c).any (· < radix)

def hexNumber? (cs : List Char) : Option Nat :=
  cs.foldl (fun n c => n.bind fun n => (hexValue? c).map (n * 16 + ·)) (some 0)

def ofDigits (radix : Nat) (digits : List Char) : Nat :=
  digits.foldl (fun n c => n * radix + (hexValue? c).getD 0) 0

-- The digits at the head of a text, and how much of it they take with single underscores between
-- them.
def digitRun (isDigit : Char → Bool) : List Char → List Char × Nat
  | [] => ([], 0)
  | c :: cs =>
      if isDigit c then
        let (digits, length) := digitRun isDigit cs
        (c :: digits, length + 1)
      else if c == '_' && cs.head?.any isDigit then
        let (digits, length) := digitRun isDigit cs
        (digits, length + 1)
      else ([], 0)

end Prerender.Text
