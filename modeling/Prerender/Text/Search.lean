set_option autoImplicit false

/-!
Finding, splitting and replacing in a list of characters. Every function is a structural recursion
over the text, so that a law about it is one induction.
-/
namespace Prerender.Text

def after? : List Char → List Char → Option (List Char)
  | [], cs => some cs
  | _ :: _, [] => none
  | p :: ps, c :: cs => if p = c then after? ps cs else none

def startsWith (pat cs : List Char) : Bool := (after? pat cs).isSome

-- Copies `cs` with each occurrence of `pat`, found from the left without overlaps, replaced by
-- `new`; `skip` characters of an occurrence already replaced are still to be passed over.
def replaceFrom (pat new : List Char) : Nat → List Char → List Char
  | _, [] => []
  | skip + 1, _ :: cs => replaceFrom pat new skip cs
  | 0, c :: cs =>
      if startsWith pat (c :: cs) then new ++ replaceFrom pat new (pat.length - 1) cs
      else c :: replaceFrom pat new 0 cs

def replaceAll (pat new cs : List Char) : List Char := replaceFrom pat new 0 cs

def cutFirst? (pat : List Char) : List Char → Option (List Char × List Char)
  | [] => if pat.isEmpty then some ([], []) else none
  | c :: cs =>
      match after? pat (c :: cs) with
      | some rest => some ([], rest)
      | none => (cutFirst? pat cs).map fun (before, rest) => (c :: before, rest)

def cutLast? (pat : List Char) : List Char → Option (List Char × List Char)
  | [] => if pat.isEmpty then some ([], []) else none
  | c :: cs =>
      match cutLast? pat cs with
      | some (before, rest) => some (c :: before, rest)
      | none => (after? pat (c :: cs)).map ([], ·)

def contains (pat cs : List Char) : Bool := (cutFirst? pat cs).isSome

def splitOn (p : Char → Bool) : List Char → List (List Char)
  | [] => [[]]
  | c :: cs =>
      match splitOn p cs with
      | [] => [[c]]
      | piece :: pieces => if p c then [] :: piece :: pieces else (c :: piece) :: pieces

def linesKept : List Char → List (List Char)
  | [] => []
  | c :: cs =>
      if c = '\n' then [c] :: linesKept cs
      else
        match linesKept cs with
        | [] => [[c]]
        | line :: lines => (c :: line) :: lines

def join (sep : List Char) : List (List Char) → List Char
  | [] => []
  | [piece] => piece
  | piece :: next :: pieces => piece ++ sep ++ join sep (next :: pieces)

-- What `item` reads at each place where it succeeds, going on behind what it has read; `skip`
-- characters already read are still to be passed over.
def findFrom {α : Type} (item : List Char → Option (α × List Char)) : Nat → List Char → List α
  | _, [] => []
  | skip + 1, _ :: cs => findFrom item skip cs
  | 0, c :: cs =>
      match item (c :: cs) with
      | some (a, rest) => a :: findFrom item (cs.length - rest.length) cs
      | none => findFrom item 0 cs

def findAll {α : Type} (item : List Char → Option (α × List Char)) (cs : List Char) : List α :=
  findFrom item 0 cs

def lastIndex? {α : Type} (p : α → Bool) : List α → Option Nat
  | [] => none
  | x :: xs =>
      match lastIndex? p xs with
      | some i => some (i + 1)
      | none => if p x then some 0 else none

theorem splitOn_ne_nil (p : Char → Bool) (cs : List Char) : splitOn p cs ≠ [] := by
  cases cs with
  | nil => simp [splitOn]
  | cons c cs => simp only [splitOn]; split <;> (try split) <;> simp

theorem after?_append (pat cs : List Char) : after? pat (pat ++ cs) = some cs := by
  induction pat with
  | nil => cases cs <;> rfl
  | cons p ps ih => simp [after?, ih]

theorem eq_append_of_after? {pat cs rest : List Char} (h : after? pat cs = some rest) :
    cs = pat ++ rest := by
  induction pat generalizing cs with
  | nil => cases cs <;> simp_all [after?]
  | cons p ps ih =>
      cases cs with
      | nil => simp [after?] at h
      | cons c cs =>
          simp only [after?] at h
          split at h
          · next same => rw [ih h, same, List.cons_append]
          · contradiction

end Prerender.Text
