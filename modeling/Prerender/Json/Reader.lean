import Prerender.Decimal.Reading
import Prerender.Json.Basic
import Prerender.Text.Digits

set_option autoImplicit false

/-!
Reading strict JSON. `parse?` takes the number of arrays and objects that may be open at once. A
number keeps the first digits that fit 64 bits and is scaled by powers of ten, so that a long number
can miss the nearest binary64 number by a little; one beyond the largest is refused.
-/
namespace Prerender.Json

def isSpace (c : Char) : Bool := c = ' ' || c = '\n' || c = '\t' || c = '\r'

def skipSpace (cs : List Char) : List Char := cs.dropWhile isSpace

def unit? (a b c d : Char) : Option Nat := do
  let a ← Text.hexValue? a
  let b ← Text.hexValue? b
  let c ← Text.hexValue? c
  let d ← Text.hexValue? d
  return ((a * 16 + b) * 16 + c) * 16 + d

def isHighHalf (n : Nat) : Bool := 0xD800 ≤ n && n < 0xDC00
def isLowHalf (n : Nat) : Bool := 0xDC00 ≤ n && n < 0xE000

def escaped? : Char → Option Char
  | '"' => some '"'
  | '\\' => some '\\'
  | '/' => some '/'
  | 'b' => some '\x08'
  | 'f' => some '\x0c'
  | 'n' => some '\n'
  | 'r' => some '\r'
  | 't' => some '\t'
  | _ => none

def stringRest : List Char → Option (List Char × List Char)
  | [] => none
  | '"' :: rest => some ([], rest)
  | '\\' :: 'u' :: a :: b :: c :: d :: rest =>
      match unit? a b c d with
      | none => none
      | some n =>
          if isLowHalf n then none
          else if isHighHalf n then
            match rest with
            | '\\' :: 'u' :: e :: f :: g :: h :: rest =>
                match unit? e f g h with
                | none => none
                | some m =>
                    if isLowHalf m then
                      (stringRest rest).map fun (s, r) =>
                        (Char.ofNat (0x10000 + (n - 0xD800) * 0x400 + (m - 0xDC00)) :: s, r)
                    else none
            | _ => none
          else (stringRest rest).map fun (s, r) => (Char.ofNat n :: s, r)
  | '\\' :: c :: rest =>
      match escaped? c with
      | none => none
      | some c => (stringRest rest).map fun (s, r) => (c :: s, r)
  | c :: rest =>
      if c = '\\' ∨ c.toNat < 0x20 then none
      else (stringRest rest).map fun (s, r) => (c :: s, r)

def word : Nat := UInt64.size

-- `m · 10 ^ e` by floating-point steps, for a significand of 64 bits.
def scale? (m : Nat) (e : Int) : Option Float :=
  let x := (UInt64.ofNat m).toFloat
  if m = 0 then some 0.0
  else if 0 ≤ e then
    if 308 < e then none
    else
      let y := x * Decimal.nearest 1 e
      if y.isInf then none else some y
  else
    let down (x : Float) (steps : Nat) := Nat.repeat (fun x => x / 1e308) steps x
    let n := e.natAbs
    some (down x (min 4 ((n - 1) / 308)) / Decimal.nearest 1 (n - 308 * ((n - 1) / 308) : Nat))

-- Takes digits as long as the number stays below `2 ^ 64`; gives that number and the digits left.
def takeWord (m : Nat) : List Char → Nat × List Char
  | [] => (m, [])
  | c :: cs =>
      let n := m * 10 + (c.toNat - 48)
      if n < word then takeWord n cs else (m, c :: cs)

def isDigit (c : Char) : Bool := (Decimal.digitValue? c).isSome

def exponent? : List Char → Option (Int × List Char)
  | [] => some (0, [])
  | c :: cs =>
      if c = 'e' ∨ c = 'E' then
        let (negative, ds) :=
          match cs with
          | '-' :: r => (true, r)
          | '+' :: r => (false, r)
          | r => (false, r)
        let digits := ds.takeWhile isDigit
        if digits.isEmpty then none
        else
          let n : Int := Decimal.natural digits
          some (if negative then -n else n, ds.dropWhile isDigit)
      else some (0, c :: cs)

def magnitude? (cs : List Char) : Option ((Nat ⊕ Float) × List Char) := do
  let whole := cs.takeWhile isDigit
  let rest := cs.dropWhile isDigit
  if whole.isEmpty || (whole.head? = some '0' && 1 < whole.length) then none
  let (m, excess) := takeWord 0 whole
  let (fraction, rest, pointed) ←
    match rest with
    | '.' :: r =>
        let digits := r.takeWhile isDigit
        if digits.isEmpty then none else some (digits, r.dropWhile isDigit, true)
    | r => some ([], r, false)
  let (m', left) := takeWord m fraction
  let hasExponent := rest.head? = some 'e' || rest.head? = some 'E'
  let (e, rest) ← exponent? rest
  if excess.isEmpty && !pointed && !hasExponent then return (.inl m, rest)
  let x ← scale? m' (e + excess.length - (fraction.length - left.length : Nat))
  return (.inr x, rest)

def number? (cs : List Char) : Option (Number × List Char) :=
  match cs with
  | '-' :: r =>
      (magnitude? r).map fun (n, rest) =>
        match n with
        | .inl n =>
            if n = 0 then (.float (-0.0), rest)
            else if n ≤ word / 2 then (.int (-n), rest)
            else (.float (-(UInt64.ofNat n).toFloat), rest)
        | .inr x => (.float (-x), rest)
  | cs =>
      (magnitude? cs).map fun (n, rest) =>
        match n with
        | .inl n => (.int n, rest)
        | .inr x => (.float x, rest)

def literal? (text : String) (value : Json) (cs : List Char) : Option (Json × List Char) :=
  if text.toList.isPrefixOf cs then some (value, cs.drop text.length) else none

def scalar? (cs : List Char) : Option (Json × List Char) :=
  match cs with
  | [] => none
  | c :: rest =>
      if c = '"' then (stringRest rest).map fun (s, r) => (.string (String.ofList s), r)
      else if c = '-' || isDigit c then (number? cs).map fun (n, r) => (.number n, r)
      else if c = 'n' then literal? "null" .null cs
      else if c = 't' then literal? "true" (.bool true) cs
      else if c = 'f' then literal? "false" (.bool false) cs
      else none

def sequence? {α : Type} (item : List Char → Option (α × List Char)) (close : Char) :
    Nat → List Char → Option (List α × List Char)
  | 0, _ => none
  | fuel + 1, cs => do
      let (x, rest) ← item (skipSpace cs)
      match skipSpace rest with
      | [] => none
      | c :: rest =>
          if c = close then return ([x], rest)
          else if c = ',' then
            let (xs, rest) ← sequence? item close fuel rest
            return (x :: xs, rest)
          else none

def member? (value : List Char → Option (Json × List Char)) :
    List Char → Option ((String × Json) × List Char)
  | '"' :: cs => do
      let (key, rest) ← stringRest cs
      match skipSpace rest with
      | ':' :: rest =>
          let (v, rest) ← value (skipSpace rest)
          return ((String.ofList key, v), rest)
      | _ => none
  | _ => none

-- A value at the head of the text when at most `open` more arrays and objects may be opened.
def value? : Nat → List Char → Option (Json × List Char)
  | 0, cs => scalar? cs
  | limit + 1, cs =>
      match cs with
      | '[' :: rest =>
          match skipSpace rest with
          | ']' :: rest => some (.array [], rest)
          | rest => (sequence? (value? limit) ']' (rest.length + 1) rest).map fun (xs, r) => (.array xs, r)
      | '{' :: rest =>
          match skipSpace rest with
          | '}' :: rest => some (.object [], rest)
          | rest =>
              (sequence? (member? (value? limit)) '}' (rest.length + 1) rest).map fun (ms, r) =>
                (.object ms, r)
      | cs => scalar? cs

mutual
def merge : Json → Json
  | .array items => .array (mergeItems items)
  | .object members => .object (mergeMembers [] members)
  | value => value
def mergeItems : List Json → List Json
  | [] => []
  | item :: items => merge item :: mergeItems items
def mergeMembers (seen : List (String × Json)) : List (String × Json) → List (String × Json)
  | [] => seen
  | (key, value) :: members => mergeMembers (Keyed.put seen key (merge value)) members
end

def parseRaw? (limit : Nat) (s : String) : Option Json := do
  let (v, rest) ← value? limit (skipSpace s.toList)
  if (skipSpace rest).isEmpty then some v else none

def parse? (limit : Nat) (s : String) : Option Json := (parseRaw? limit s).map merge

def nesting : Nat := 127

end Prerender.Json
