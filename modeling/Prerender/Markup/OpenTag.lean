import Prerender.Markup.Entity
import Prerender.Text.Blank

set_option autoImplicit false

/-!
The opening tag at the head of a text. Its end is the first `>` outside quotes. Attributes are read
wherever a name begins, so that nothing between names is an error.
-/
namespace Prerender.Markup

-- Attributes come in source order with decoded values; one without `=` has none.
structure OpenTag where
  name : String
  attributes : List (String × Option String)
deriving DecidableEq, Repr

namespace OpenTag

def get? (tag : OpenTag) (name : String) : Option String :=
  (tag.attributes.find? fun a => a.1 == name).bind (·.2)

def isNameHead (c : Char) : Bool := c.isAlpha
def isNameTail (c : Char) : Bool := c.isAlphanum || c == '-'

-- What stands before the first `>` outside quotes, and what follows it. A quote must be closed. The
-- quote that is open is `quote`.
def body? (quote : Option Char) : List Char → Option (List Char × List Char)
  | [] => none
  | c :: cs =>
      let keep (next : Option Char) := (body? next cs).map fun (attrs, rest) => (c :: attrs, rest)
      match quote with
      | some q => keep (if c = q then none else quote)
      | none =>
          if c = '>' then some ([], cs)
          else keep (if c = '"' ∨ c = '\'' then some c else none)

def isAttributeName (c : Char) : Bool :=
  !(Text.isBlank c || c == '=' || c == '/' || c == '>' || c == '"' || c == '\'')

def isBareValue (c : Char) : Bool := !(Text.isBlank c || c == '>' || c == '"' || c == '\'')

def quoted? (q : Char) (cs : List Char) : Option (List Char × List Char) := Text.cutFirst? [q] cs

def value? (cs : List Char) : Option (List Char × List Char) :=
  match Text.trimStart cs with
  | '=' :: rest =>
      match Text.trimStart rest with
      | [] => none
      | c :: rest =>
          if c = '"' ∨ c = '\'' then quoted? c rest
          else if isBareValue c then
            some ((c :: rest).takeWhile isBareValue, (c :: rest).dropWhile isBareValue)
          else none
  | _ => none

def attribute? (cs : List Char) : Option ((String × Option String) × List Char) :=
  let name := cs.takeWhile isAttributeName
  if name.isEmpty then none
  else
    let rest := cs.dropWhile isAttributeName
    match value? rest with
    | some (value, rest) =>
        some ((String.ofList name, some (String.ofList (Entity.decodeChars value))), rest)
    | none => some ((String.ofList name, none), rest)

def read? (cs : List Char) : Option (OpenTag × List Char) :=
  match Text.trimStart cs with
  | '<' :: c :: cs =>
      if isNameHead c then
        (body? none (cs.dropWhile isNameTail)).map fun (attrs, rest) =>
          (⟨String.ofList (c :: cs.takeWhile isNameTail), Text.findAll attribute? attrs⟩, rest)
      else none
  | _ => none

def parse? (line : String) : Option OpenTag := (read? line.toList).map (·.1)

example : parse? "<x-a title=\"Tom &amp; Jerry\" data-x='1' b>" =
    some ⟨"x-a", [("title", some "Tom & Jerry"), ("data-x", some "1"), ("b", none)]⟩ := by
  decide +kernel

end OpenTag
end Prerender.Markup
