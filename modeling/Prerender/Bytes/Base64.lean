set_option autoImplicit false

/-!
Base64 with the standard alphabet. Decoding accepts the canonical form alone: full padding, nothing
after it, and no set bit that belongs to no byte.
-/
namespace Prerender.Bytes.Base64

def symbol (n : Nat) : Char :=
  if n < 26 then Char.ofNat (65 + n)
  else if n < 52 then Char.ofNat (71 + n)
  else if n < 62 then Char.ofNat (n - 4)
  else if n = 62 then '+'
  else '/'

def value? (b : UInt8) : Option Nat :=
  let n := b.toNat
  if 65 ≤ n ∧ n ≤ 90 then some (n - 65)
  else if 97 ≤ n ∧ n ≤ 122 then some (n - 71)
  else if 48 ≤ n ∧ n ≤ 57 then some (n + 4)
  else if n = 43 then some 62
  else if n = 47 then some 63
  else none

def encode : List UInt8 → List Char
  | [] => []
  | [a] => [symbol (a.toNat / 4), symbol (a.toNat % 4 * 16), '=', '=']
  | [a, b] =>
      [symbol (a.toNat / 4), symbol (a.toNat % 4 * 16 + b.toNat / 16),
        symbol (b.toNat % 16 * 4), '=']
  | a :: b :: c :: rest =>
      symbol (a.toNat / 4) :: symbol (a.toNat % 4 * 16 + b.toNat / 16) ::
        symbol (b.toNat % 16 * 4 + c.toNat / 64) :: symbol (c.toNat % 64) :: encode rest

inductive Error where
  | symbol (byte : UInt8) (offset : Nat)
  | length (n : Nat)
  | lastSymbol (byte : UInt8) (offset : Nat)
  | padding
deriving DecidableEq, Repr

def Error.message : Error → String
  | .symbol byte offset => s!"Invalid symbol {byte.toNat}, offset {offset}."
  | .length n => s!"Invalid input length: {n}"
  | .lastSymbol byte offset => s!"Invalid last symbol {byte.toNat}, offset {offset}."
  | .padding => "Invalid padding"

def pad : UInt8 := 61

def byte (n : Nat) : UInt8 := UInt8.ofNat n

def sextet (b : UInt8) (offset : Nat) : Except Error Nat :=
  match value? b with
  | some n => .ok n
  | none => .error (.symbol b offset)

-- The symbols of the last group, up to its padding, each with its value; `padAt` is where padding
-- began.
def group (start : Nat) : Nat → Option Nat → List UInt8 → Except Error (List (UInt8 × Nat))
  | _, _, [] => .ok []
  | i, padAt, b :: rest =>
      if b = pad then
        if i < 2 then .error (.symbol b (start + i))
        else group start (i + 1) (padAt.or (some i)) rest
      else
        match padAt with
        | some first => .error (.symbol pad (start + first))
        | none => do
            let n ← sextet b (start + i)
            let ns ← group start (i + 1) none rest
            return (b, n) :: ns

def decodeLast (start : Nat) (bs : List UInt8) : Except Error (List UInt8) := do
  let ns ← group start 0 none bs
  if start = 0 && bs.isEmpty then return []
  if ns.length < 2 then throw (.length (start + ns.length))
  if bs.length ≠ 4 then throw .padding
  match ns with
  | [(_, a), (s, b)] =>
      if b % 16 ≠ 0 then throw (.lastSymbol s (start + 1)) else return [byte (a * 4 + b / 16)]
  | [(_, a), (_, b), (s, c)] =>
      if c % 4 ≠ 0 then throw (.lastSymbol s (start + 2))
      else return [byte (a * 4 + b / 16), byte (b % 16 * 16 + c / 4)]
  | [(_, a), (_, b), (_, c), (_, d)] =>
      return [byte (a * 4 + b / 16), byte (b % 16 * 16 + c / 4), byte (c % 4 * 64 + d)]
  | _ => throw .padding

def decodeFrom (start : Nat) : List UInt8 → Except Error (List UInt8)
  | a :: b :: c :: d :: e :: rest => do
      let w ← sextet a start
      let x ← sextet b (start + 1)
      let y ← sextet c (start + 2)
      let z ← sextet d (start + 3)
      let bytes ← decodeFrom (start + 4) (e :: rest)
      return byte (w * 4 + x / 16) :: byte (x % 16 * 16 + y / 4) :: byte (y % 4 * 64 + z) :: bytes
  | bs => decodeLast start bs

-- A single byte too many that is no symbol is reported before anything else.
def decode (bs : List UInt8) : Except Error (List UInt8) :=
  match bs.getLast? with
  | some last =>
      if bs.length % 4 = 1 ∧ last ≠ pad ∧ (value? last).isNone then
        .error (.symbol last (bs.length - 1))
      else decodeFrom 0 bs
  | none => .ok []

example : encode [0xff, 0xfe] = ['/', '/', '4', '='] := by decide

end Prerender.Bytes.Base64
