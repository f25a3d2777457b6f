set_option autoImplicit false

namespace Prerender.Decimal

def digitValue? (c : Char) : Option Nat :=
  if '0' ≤ c ∧ c ≤ '9' then some (c.toNat - 48) else none

def natural (cs : List Char) : Nat := cs.foldl (fun n c => n * 10 + (c.toNat - 48)) 0

-- The number nearest to `m · 10 ^ e`. An exponent is cut off where the result is infinite or zero
-- anyway: `m` is below `10 ^ (m.log2 / 3 + 1)`.
def nearest (m : Nat) (e : Int) : Float :=
  Float.ofScientific m (decide (e < 0))
    (min e.natAbs (if e < 0 then 400 + (m.log2 / 3 + 1) else 400))

def unsigned? (cs : List Char) : Option Float :=
  let isDigit (c : Char) := (digitValue? c).isSome
  let whole := cs.takeWhile isDigit
  let (fraction, rest) :=
    match cs.dropWhile isDigit with
    | '.' :: r => (r.takeWhile isDigit, r.dropWhile isDigit)
    | r => ([], r)
  let m := natural (whole ++ fraction)
  if whole.isEmpty && fraction.isEmpty then none
  else
    match rest with
    | [] => some (nearest m (-(fraction.length : Int)))
    | c :: r =>
        if c = 'e' ∨ c = 'E' then
          let (negative, ds) :=
            match r with
            | '-' :: t => (true, t)
            | '+' :: t => (false, t)
            | t => (false, t)
          if !ds.isEmpty && ds.all isDigit then
            let size : Int := natural ds
            some (nearest m ((if negative then -size else size) - fraction.length))
          else none
        else none

def read? (s : String) : Option Float :=
  let body (cs : List Char) : Option Float :=
    let name := String.ofList (cs.map Char.toLower)
    if name = "inf" ∨ name = "infinity" then some (1.0 / 0.0)
    else if name = "nan" then some (0.0 / 0.0)
    else unsigned? cs
  match s.toList with
  | '-' :: cs => (body cs).map fun x => -x
  | '+' :: cs => body cs
  | cs => body cs

example : read? "-0" = some (-0.0) := by decide +kernel
example : read? "1.5e3" = some 1500.0 := by decide +kernel
example : read? "-1e999999999" = some (-1.0 / 0.0) := by decide +kernel
example : read? "." = none := by decide +kernel

end Prerender.Decimal
