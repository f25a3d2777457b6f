import Prerender.Decimal.Reading
import Prerender.Text.Blank
import Prerender.Toml.Reader

set_option autoImplicit false

/-!
Dates and times in TOML, read as the text that is usual for them: `T` between date and time, nine places
of a second at most, and an offset `Z` or in hours and minutes.
-/
namespace Prerender.Toml.Moment

def digits (n : Nat) : Reader (List Char) := fun cs =>
  let run := cs.take n
  if run.length = n && run.all Char.isDigit then some (run, cs.drop n) else none

def field (low high : Nat) : Reader (List Char) := do
  let run ← digits 2
  if low ≤ Decimal.natural run ∧ Decimal.natural run ≤ high then return run else failure

def daysIn (year month : Nat) : Nat :=
  if month = 2 then
    if year % 4 = 0 && (year % 100 != 0 || year % 400 = 0) then 29 else 28
  else if [4, 6, 9, 11].contains month then 30
  else 31

def date : Reader (List Char) := do
  let year ← digits 4
  char '-'
  let month ← field 1 12
  char '-'
  let day ← field 1 (daysIn (Decimal.natural year) (Decimal.natural month))
  return year ++ '-' :: month ++ '-' :: day

def places : Reader (List Char) := do
  char '.'
  let run ← span Char.isDigit
  if run.isEmpty then failure
  else
    let kept := Text.dropEndWhile (· == '0') (run.take 9)
    return if kept.isEmpty then [] else '.' :: kept

def time : Reader (List Char) := do
  let hour ← field 0 23
  char ':'
  let minute ← field 0 59
  char ':'
  let second ← field 0 60
  let rest ← perhaps places
  return hour ++ ':' :: minute ++ ':' :: second ++ rest.getD []

def offset : Reader (List Char) := do
  match ← one fun c => "Zz+-".toList.contains c with
  | '+' => return '+' :: (← clock)
  | '-' =>
      let distance ← clock
      return (if distance == "00:00".toList then '+' else '-') :: distance
  | _ => return ['Z']
where
  clock : Reader (List Char) := do
    let hour ← field 0 23
    char ':'
    return hour ++ ':' :: (← field 0 59)

def timeOfDay : Reader (List Char) := do
  let _ ← one fun c => "Tt ".toList.contains c
  let clock ← time
  let distance ← perhaps offset
  return 'T' :: clock ++ distance.getD []

def dateTime : Reader (List Char) := do
  let day ← date
  return day ++ (← perhaps timeOfDay).getD []

def moment : Reader String := do
  return String.ofList (← dateTime <|> time)

example : moment "1979-05-27 07:32:00.500-00:00".toList = some ("1979-05-27T07:32:00.5+00:00", []) := by
  decide +kernel
example : moment "1979-02-29".toList = none := by decide +kernel

end Prerender.Toml.Moment
