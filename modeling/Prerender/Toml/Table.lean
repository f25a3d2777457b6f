import Prerender.Json.Basic

set_option autoImplicit false

/-!
Tables of a TOML document while it is read. A table comes from a header, from a dotted key, or from a
header further down; this decides whether more may be put into it.
-/
namespace Prerender.Toml

inductive Origin where
  -- By a header of its own.
  | header
  -- By the header of a table below it.
  | implied
  -- By a dotted key.
  | dotted
deriving DecidableEq, Repr

inductive Node where
  | value (v : Json)
  | table (origin : Origin) (entries : List (String × Node))
  -- An array of tables, each with a header.
  | tables (before : List (List (String × Node))) (last : List (String × Node))

abbrev Entries := List (String × Node)

mutual
def Node.toJson : Node → Json
  | .value v => v
  | .table _ entries => .object (membersOf entries)
  | .tables before last => .array (objectsOf before ++ [.object (membersOf last)])
def membersOf : List (String × Node) → List (String × Json)
  | [] => []
  | (key, node) :: entries => (key, node.toJson) :: membersOf entries
def objectsOf : List (List (String × Node)) → List Json
  | [] => []
  | entries :: rest => .object (membersOf entries) :: objectsOf rest
end

namespace Entries

-- Changes the table at a path. Tables that are missing on the way are made as `origin`. Of an array of
-- tables the last one is meant. A dotted key does not lead into a table with a header.
def update (origin : Origin) (change : Origin → Entries → Option Entries) :
    List String → Origin → Entries → Option Entries
  | [], here, entries => change here entries
  | key :: path, _, entries => do
      let node : Node ←
        match Keyed.get? entries key with
        | none => do pure (.table origin (← update origin change path origin []))
        | some (.value _) => none
        | some (.tables before last) => do
            pure (.tables before (← update origin change path .header last))
        | some (.table from_ inner) =>
            if origin = .dotted ∧ from_ = .header then none
            else do pure (.table from_ (← update origin change path from_ inner))
      return Keyed.put entries key node

def putNew (entries : Entries) (key : String) (value : Json) : Option Entries :=
  match Keyed.get? entries key with
  | none => some (Keyed.put entries key (.value value))
  | some _ => none

def putDotted (entries : Entries) (path : List String) (key : String) (value : Json) : Option Entries :=
  update .dotted (fun here inner =>
    if path.isEmpty ∨ here = .dotted then putNew inner key value else none) path .header entries

def openTable (entries : Entries) (path : List String) (key : String) : Option Entries :=
  update .implied (fun _ inner =>
    match Keyed.get? inner key with
    | none => some (Keyed.put inner key (.table .header []))
    | some (.table .implied below) => some (Keyed.put inner key (.table .header below))
    | _ => none) path .header entries

def openElement (entries : Entries) (path : List String) (key : String) : Option Entries :=
  update .implied (fun _ inner =>
    match Keyed.get? inner key with
    | none => some (Keyed.put inner key (.tables [] []))
    | some (.tables before last) => some (Keyed.put inner key (.tables (before ++ [last]) []))
    | _ => none) path .header entries

end Entries

structure Key where
  path : List String
  last : String

inductive Item where
  | pair (key : Key) (value : Json)
  | header (key : Key)
  | element (key : Key)

structure Draft where
  entries : Entries
  place : List String

def Draft.add? (draft : Draft) : Item → Option Draft
  | .pair key value => do
      let entries ← draft.entries.update .implied
        (fun _ inner => inner.putDotted key.path key.last value) draft.place .header
      return { draft with entries }
  | .header key => do return ⟨← draft.entries.openTable key.path key.last, key.path ++ [key.last]⟩
  | .element key => do return ⟨← draft.entries.openElement key.path key.last, key.path ++ [key.last]⟩

def tableOf? (pairs : List (Key × Json)) : Option Json := do
  let entries ← pairs.foldlM (fun (entries : Entries) (key, value) =>
    entries.putDotted key.path key.last value) []
  return .object (membersOf entries)

def documentOf? (items : List Item) : Option Json := do
  let draft ← items.foldlM Draft.add? ⟨[], []⟩
  return .object (membersOf draft.entries)

end Prerender.Toml
