import Prerender.Decimal.Shortest

set_option autoImplicit false

namespace Prerender.Decimal

structure Layout where
  tie : Tie
  -- Whether a number whose first digit has this exponent is written without an exponent.
  positional : Int → Bool
  fraction : Bool
  plus : Bool

def plain : Layout := ⟨.up, fun _ => true, false, false⟩

def scientific : Layout := ⟨.up, fun _ => false, false, false⟩

def digits (n : Nat) : List Char := Nat.toDigits 10 n

def zeros (n : Nat) : List Char := List.replicate n '0'

def Layout.body (layout : Layout) (s : Scientific) : List Char :=
  let ds := digits s.coefficient
  let first := s.exponent + (ds.length : Int) - 1
  if layout.positional first then
    if 0 ≤ s.exponent then
      ds ++ zeros s.exponent.toNat ++ (if layout.fraction then ['.', '0'] else [])
    else if 0 ≤ first then
      ds.take (first.toNat + 1) ++ '.' :: ds.drop (first.toNat + 1)
    else '0' :: '.' :: zeros (-first - 1).toNat ++ ds
  else
    let sign := if first < 0 then ['-'] else if layout.plus then ['+'] else []
    ds.take 1 ++ (if ds.length ≤ 1 then [] else '.' :: ds.drop 1) ++
      'e' :: sign ++ digits first.natAbs

def sign : Float.Model.UnpackedFloat.Sign → List Char
  | .positive => []
  | .negative => ['-']

def Layout.write (layout : Layout) (x : Float) : String :=
  String.ofList <|
    match x.toModel.unpack with
    | .notANumber => ['N', 'a', 'N']
    | .infinity s => sign s ++ ['i', 'n', 'f']
    | .zero s => sign s ++ layout.body ⟨0, 0⟩
    | .finite s m q _ => sign s ++ layout.body (shortest layout.tie m q)

def whole? (x : Float) : Option Int :=
  match x.toModel.unpack with
  | .zero _ => some 0
  | .finite s m q _ =>
      if 0 ≤ q then some (s.apply (m * Nat.pow 2 q.toNat : Nat))
      else if m % Nat.pow 2 (-q).toNat = 0 then some (s.apply (m / Nat.pow 2 (-q).toNat : Nat))
      else none
  | _ => none

-- The value of a whole number below `10 ^ 15` in magnitude; formats write these as integers.
def integer? (x : Float) : Option Int := (whole? x).filter fun n => n.natAbs < Nat.pow 10 15

example : plain.write 1.5e-7 = "0.00000015" := by decide +kernel
example : scientific.write 1e21 = "1e21" := by decide +kernel
example : integer? (-0.0) = some 0 := by decide +kernel

end Prerender.Decimal
