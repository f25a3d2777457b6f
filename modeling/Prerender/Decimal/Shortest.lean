set_option autoImplicit false

/-!
The shortest decimal that reads back as a given binary64 number. A positive number is `m · 2 ^ q`;
the decimals that read back as it form an interval around it, ends included when `m` is even. The
first power-of-ten grid with a point in that interval, from coarse to fine, decides how many digits
are written, and the nearer of the two neighbours on it decides which.
-/
namespace Prerender.Decimal

structure Scientific where
  coefficient : Nat
  exponent : Int
deriving DecidableEq, Repr

inductive Tie where
  | up
  | even
deriving DecidableEq, Repr

-- Bounds of the decimals that read back as `m · 2 ^ q`, and that number itself, all over one
-- denominator.
structure Interval where
  low : Nat
  value : Nat
  high : Nat
  denominator : Nat
  closed : Bool
deriving DecidableEq, Repr

-- Half the gap to each neighbour; below a power of two the gap is half as wide.
def Interval.around (m : Nat) (q : Int) : Interval :=
  let scale := Nat.pow 2 (q - 2).toNat
  let narrow := m = Nat.pow 2 52 ∧ q > -1074
  { low := (4 * m - if narrow then 1 else 2) * scale
    value := 4 * m * scale
    high := (4 * m + 2) * scale
    denominator := Nat.pow 2 (2 - q).toNat
    closed := m % 2 = 0 }

def Interval.holds (i : Interval) (e : Int) (k : Nat) : Bool :=
  let up := Nat.pow 10 (-e).toNat
  let point := k * (i.denominator * Nat.pow 10 e.toNat)
  if i.closed then i.low * up ≤ point && point ≤ i.high * up
  else i.low * up < point && point < i.high * up

def Interval.neighbour? (i : Interval) (tie : Tie) (e : Int) : Option Nat :=
  let value := i.value * Nat.pow 10 (-e).toNat
  let step := i.denominator * Nat.pow 10 e.toNat
  let below := value / step
  match i.holds e below, i.holds e (below + 1) with
  | false, false => none
  | true, false => some below
  | false, true => some (below + 1)
  | true, true =>
      match compare (2 * (value - below * step)) step with
      | .lt => some below
      | .gt => some (below + 1)
      | .eq =>
          match tie with
          | .up => some (below + 1)
          | .even => some (if below % 2 = 0 then below else below + 1)

def raise (d : Nat) : Nat → Nat → Nat
  | 0, _ => 0
  | fuel + 1, n => if d ≤ n then 0 else raise d fuel (n * 10) + 1

def magnitude (n d : Nat) : Int :=
  if d ≤ n then ((Nat.toDigits 10 (n / d)).length : Int) else 1 - (raise d 400 n : Int)

def Scientific.reduce : Nat → Scientific → Scientific
  | 0, s => s
  | fuel + 1, s =>
      if s.coefficient ≠ 0 ∧ s.coefficient % 10 = 0 then
        reduce fuel ⟨s.coefficient / 10, s.exponent + 1⟩
      else s

-- Seventeen digits always suffice, so the search ends before the last grid.
def shortest (tie : Tie) (m : Nat) (q : Int) : Scientific :=
  let i := Interval.around m q
  let k := magnitude i.value i.denominator
  let found := (List.range 17).findSome? fun n =>
    let e := k - (n + 1 : Nat)
    (i.neighbour? tie e).map fun c => (⟨c, e⟩ : Scientific)
  (found.getD ⟨m, q⟩).reduce 18

example : shortest .even 1 (-1074) = ⟨5, -324⟩ := by decide +kernel
example : shortest .even 0x1999999999999A (-56) = ⟨1, -1⟩ := by decide +kernel

end Prerender.Decimal
