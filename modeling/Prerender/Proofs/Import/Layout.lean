import Prerender.Import.Scan
import Prerender.Proofs.Import.Clause
import Prerender.Text.Identifier

set_option autoImplicit false

namespace Prerender.Import

open Text (isIdentifierPart isIdentifierStart trim)

def isName : List Char → Bool
  | c :: cs => isIdentifierStart c && cs.all isIdentifierPart
  | [] => false

theorem mem_quotes {c : Char} (quoted : isQuote c = true) : c ∈ ['"', '\''] := by
  simpa [isQuote] using quoted

structure Entry.IsScript (entry : Entry) : Prop where
  unmarked : entry.mark = none
  exported : isName entry.exported.text = true
  bound : ∀ rename ∈ entry.rename, isName rename.name.text = true

instance (entry : Entry) : Decidable entry.IsScript :=
  decidable_of_iff (entry.mark = none ∧ isName entry.exported.text = true ∧
      ∀ rename ∈ entry.rename, isName rename.name.text = true)
    ⟨fun ⟨mark, exported, bound⟩ => ⟨mark, exported, bound⟩, fun is => ⟨is.unmarked, is.exported, is.bound⟩⟩

structure Clause.IsScript (clause : Clause) : Prop where
  standard : ∀ p ∈ clause.standard, isName p.item.text = true
  whole : ∀ p ∈ clause.whole, isName p.item.name.text = true
  entries : ∀ p ∈ clause.list, ∀ q ∈ p.item.entries, q.item.IsScript
  some : (clause.standard.isSome || clause.whole.isSome || clause.list.isSome) = true
  single : clause.whole = none ∨ clause.list = none
  last : clause.last = none
  trimmed : trim clause.text = clause.text

instance (clause : Clause) : Decidable clause.IsScript :=
  decidable_of_iff ((∀ p ∈ clause.standard, isName p.item.text = true) ∧
      (∀ p ∈ clause.whole, isName p.item.name.text = true) ∧
      (∀ p ∈ clause.list, ∀ q ∈ p.item.entries, q.item.IsScript) ∧
      (clause.standard.isSome || clause.whole.isSome || clause.list.isSome) = true ∧
      (clause.whole = none ∨ clause.list = none) ∧ clause.last = none ∧ trim clause.text = clause.text)
    ⟨fun ⟨standard, whole, entries, present, single, last, trimmed⟩ =>
        ⟨standard, whole, entries, present, single, last, trimmed⟩,
      fun is => ⟨is.standard, is.whole, is.entries, is.some, is.single, is.last, is.trimmed⟩⟩

structure Layout where
  before : Gap
  clause : Clause
  behind : Gap
  gap : Gap
  quote : Char
  specifier : List Char
  script : clause.IsScript
  ended : behind.text = [] → clause.text.getLast? = some '\x7d'
  quoted : isQuote quote = true
  some : specifier ≠ []
  plain : ∀ c ∈ specifier, isQuote c = false ∧ c ∉ ['\\', '\n', '\r']

namespace Layout

variable (layout : Layout)

def source : List Char :=
  "from".toList ++ (layout.gap.text ++ layout.quote :: (layout.specifier ++ [layout.quote]))

def text : List Char :=
  "import".toList ++ (layout.before.text ++ (layout.clause.text ++ (layout.behind.text ++ layout.source)))

theorem source_append (rest : List Char) : layout.source ++ rest = "from".toList ++
    (layout.gap.text ++ layout.quote :: (layout.specifier ++ layout.quote :: rest)) := by
  -- The word stays closed, or every step compares it letter by letter.
  unfold source
  generalize "from".toList = word
  rw [List.append_assoc, List.append_assoc, List.cons_append, List.append_assoc, List.singleton_append]

theorem text_append (rest : List Char) : layout.text ++ rest = "import".toList ++
    (layout.before.text ++ (layout.clause.text ++ (layout.behind.text ++ (layout.source ++ rest)))) := by
  unfold text
  generalize "import".toList = word
  rw [List.append_assoc, List.append_assoc, List.append_assoc, List.append_assoc]

def statement : Statement := ⟨String.ofList layout.specifier, layout.clause.bindings⟩

end Layout

end Prerender.Import
