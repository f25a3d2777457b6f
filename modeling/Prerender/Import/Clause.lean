import Prerender.Text.Blank
import Prerender.Text.Search

set_option autoImplicit false

/-!
What an import clause binds: `Default, { a, b as c }` or `* as ns`.
-/
namespace Prerender.Import

-- A binding made by an import. The exported name is `default` for a default import and `*` for all
-- exports at once.
structure Name where
  exported : String
  bound : String
deriving DecidableEq, Repr

def dropRepeated (pat : List Char) : Nat → List Char → List Char
  | 0, cs => cs
  | fuel + 1, cs =>
      match Text.after? pat cs with
      | some rest => dropRepeated pat fuel rest
      | none => cs

def outerName (part : List Char) : Name :=
  match part with
  | '*' :: rest =>
      let rest := Text.trim rest
      ⟨"*", String.ofList (Text.trim (dropRepeated ['a', 's'] rest.length rest))⟩
  | part => ⟨"default", String.ofList part⟩

def isQuote (c : Char) : Bool := c == '"' || c == '\''

def unquoted (cs : List Char) : List Char := Text.dropEndWhile isQuote (cs.dropWhile isQuote)

def innerName? (part : List Char) : Option Name :=
  if Text.startsWith "type ".toList part then none
  else
    match Text.words part with
    | [] => none
    | exported :: ['a', 's'] :: bound :: _ =>
        some ⟨String.ofList (unquoted exported), String.ofList bound⟩
    | exported :: _ => some ⟨String.ofList (unquoted exported), String.ofList exported⟩

def parts (cs : List Char) : List (List Char) :=
  ((Text.splitOn (· == ',') cs).map Text.trim).filter (!·.isEmpty)

def braced (cs : List Char) : List Char × List Char :=
  match Text.cutFirst? ['{'] cs with
  | none => (cs, [])
  | some (before, rest) =>
      match Text.cutLast? ['}'] rest with
      | none => (cs, [])
      | some (inner, after) => (before ++ after, inner)

def clauseNames (clause : List Char) : List Name :=
  let (outer, inner) := braced clause
  (parts outer).map outerName ++ (parts inner).filterMap innerName?

example : clauseNames "Lib, \x7ba, b as c, type d\x7d".toList =
    [⟨"default", "Lib"⟩, ⟨"a", "a"⟩, ⟨"b", "c"⟩] := by decide +kernel

end Prerender.Import
