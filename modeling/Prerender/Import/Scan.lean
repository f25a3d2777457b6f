import Prerender.Import.Clause

set_option autoImplicit false

/-!
A look at the text of a module that decides whether it is worth reading: it has to import the library
and a function that creates elements. An import is looked for at the head of each line, without regard
to what the line is part of.
-/
namespace Prerender.Import

structure Statement where
  specifier : String
  names : List Name
deriving DecidableEq, Repr

def runtimes : List String := ["react/jsx-dev-runtime", "react/jsx-runtime"]

def factoryNames : List String := ["jsxDEV", "jsx", "jsxs"]

structure Scan where
  library : List Statement
  factories : List String
deriving DecidableEq, Repr

def Scan.isRelevant (scan : Scan) : Bool := !scan.library.isEmpty && !scan.factories.isEmpty

def source? (cs : List Char) : Option (List Char × List Char) :=
  match Text.after? "from".toList (Text.trimStart cs) with
  | none => none
  | some rest =>
      match Text.trimStart rest with
      | [] => none
      | c :: rest =>
          let specifier := rest.takeWhile (!isQuote ·)
          if isQuote c && !specifier.isEmpty then
            match rest.dropWhile (!isQuote ·) with
            | [] => none
            | _ :: rest => some (specifier, rest)
          else none

def clause? (cs : List Char) : Option ((List Char × List Char) × List Char) :=
  match source? cs with
  | some (specifier, rest) => some (([], specifier), rest)
  | none =>
      match cs with
      | [] => none
      | c :: cs =>
          if c == ';' || isQuote c || c == '(' || c == ')' then none
          else (clause? cs).map fun ((clause, specifier), rest) => ((c :: clause, specifier), rest)

def afterWord? (keyword : String) (cs : List Char) : Option (List Char) :=
  match Text.after? keyword.toList cs with
  | some (c :: rest) => if Text.isBlank c then some (Text.trimStart rest) else none
  | _ => none

def statement? (cs : List Char) : Option (Option Statement × List Char) := do
  let rest ← afterWord? "import" (cs.dropWhile fun c => c == ' ' || c == '\t')
  match afterWord? "type" rest with
  | some rest => (clause? rest).map fun (_, rest) => (none, rest)
  | none =>
      (clause? rest).map fun ((clause, specifier), rest) =>
        (some ⟨String.ofList specifier, clauseNames clause⟩, rest)

-- The imports of a text. `fresh` says that a line begins here.
def statementsFrom (fresh : Bool) : Nat → List Char → List Statement
  | _, [] => []
  | skip + 1, c :: cs => statementsFrom (c == '\n') skip cs
  | 0, c :: cs =>
      match if fresh then statement? (c :: cs) else none with
      | some (found, rest) =>
          found.toList ++ statementsFrom (c == '\n') (cs.length - rest.length) cs
      | none => statementsFrom (c == '\n') 0 cs

def statements (source : String) : List Statement := statementsFrom true 0 source.toList

def scan (source library : String) : Scan :=
  let all := statements source
  { library := all.filter fun s => s.specifier = library
    factories := (all.filter fun s => s.specifier ≠ library ∧ s.specifier ∈ runtimes).flatMap fun s =>
      (s.names.filter fun n => n.exported ∈ factoryNames).map (·.bound) }

end Prerender.Import
