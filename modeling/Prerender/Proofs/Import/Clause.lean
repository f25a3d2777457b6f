import Prerender.Import.Clause
import Prerender.Proofs.Text.Occurrence
import Prerender.Proofs.Text.Words
import Prerender.Text.Identifier

set_option autoImplicit false

namespace Prerender.Import

open Text (isBlank trim words join splitOn)

structure Gap where
  text : List Char
  blank : ∀ c ∈ text, isBlank c = true

structure Space extends Gap where
  some : text ≠ []

def isPlain (c : Char) : Bool := !(isBlank c || isQuote c || c ∈ [',', '{', '}', '*'])

structure Identifier where
  text : List Char
  some : text ≠ []
  plain : ∀ c ∈ text, isPlain c = true

structure Padded (α : Type) where
  before : Gap
  item : α
  behind : Gap

def Padded.text {α : Type} (text : α → List Char) (p : Padded α) : List Char :=
  p.before.text ++ text p.item ++ p.behind.text

structure Whole where
  gap : Gap
  space : Space
  name : Identifier

def Whole.text (whole : Whole) : List Char :=
  '*' :: (whole.gap.text ++ (['a', 's'] ++ (whole.space.text ++ whole.name.text)))

structure Alias where
  before : Space
  behind : Space
  name : Identifier

def Alias.text (rename : Alias) : List Char :=
  rename.before.text ++ (['a', 's'] ++ (rename.behind.text ++ rename.name.text))

-- An entry of a list. The mark of a type is the word and a space, and more white space may follow. A value that is
-- called like the mark would be taken for it in front of an `as`.
structure Entry where
  mark : Option Gap
  exported : Identifier
  rename : Option Alias
  value : mark.isNone → rename.isSome → exported.text ≠ "type".toList

def Entry.text (entry : Entry) : List Char :=
  entry.mark.elim [] (fun gap => "type ".toList ++ gap.text) ++ (entry.exported.text ++ entry.rename.elim [] Alias.text)

-- `last` is the white space behind a comma that follows the last entry, or all there is in an empty list.
structure Entries where
  entries : List (Padded Entry)
  last : Option Gap

def Entries.inner (list : Entries) : List Char :=
  join [','] (list.entries.map (Padded.text Entry.text) ++ list.last.toList.map Gap.text)

structure Clause where
  standard : Option (Padded Identifier)
  whole : Option (Padded Whole)
  list : Option (Padded Entries)
  last : Option Gap

namespace Clause

variable (clause : Clause)

def outer : List (List Char) :=
  clause.standard.toList.map (Padded.text Identifier.text) ++ clause.whole.toList.map (Padded.text Whole.text)

def text : List Char :=
  join [','] (clause.outer ++ (clause.list.toList.map (Padded.text fun list => '{' :: (list.inner ++ ['}'])) ++
    clause.last.toList.map Gap.text))

end Clause

def Entry.binding? (entry : Entry) : Option Name :=
  if entry.mark.isSome then none
  else some ⟨String.ofList entry.exported.text, String.ofList (entry.rename.elim entry.exported Alias.name).text⟩

def Clause.bindings (clause : Clause) : List Name :=
  clause.standard.toList.map (fun p => ⟨"default", String.ofList p.item.text⟩) ++
    clause.whole.toList.map (fun p => ⟨"*", String.ofList p.item.name.text⟩) ++
    (clause.list.toList.flatMap (·.item.entries)).filterMap (·.item.binding?)

theorem isPlain_iff {c : Char} : isPlain c = true ↔
    isBlank c = false ∧ isQuote c = false ∧ c ∉ [',', '{', '}', '*'] := by
  simp [isPlain, and_assoc]

theorem isPlain_of_part {c : Char} (part : Text.isIdentifierPart c = true ∨ c = '\\') : isPlain c = true := by
  have others : ∀ c ∈ ['"', '\'', ',', '{', '}', '*'], ¬ (Text.isIdentifierPart c = true ∨ c = '\\') := by decide
  have blanks : ∀ n ∈ Text.blankCodes, ¬ (Text.isIdentifierPart (Char.ofNat n) = true ∨ Char.ofNat n = '\\') := by
    decide +kernel
  refine isPlain_iff.mpr ⟨?_, ?_, fun here => others c (by simp_all) part⟩
  · rw [← Bool.not_eq_true]
    intro blank
    exact blanks c.toNat (Text.mem_blankCodes blank) (by rwa [Char.ofNat_toNat])
  · rw [isQuote, Bool.or_eq_false_iff, beq_eq_false_iff_ne, beq_eq_false_iff_ne]
    constructor <;> rintro rfl <;> exact others _ (by decide) part

-- Every identifier of a script is one here, also with an escape of four digits in it.
def Identifier.ofScript (text : List Char) (some : text ≠ [])
    (parts : ∀ c ∈ text, Text.isIdentifierPart c = true ∨ c = '\\') : Identifier :=
  ⟨text, some, fun c here => isPlain_of_part (parts c here)⟩

def Uncut (cs : List Char) : Prop := ∀ c ∈ cs, c ∉ [',', '{', '}']

instance (cs : List Char) : Decidable (Uncut cs) := inferInstanceAs (Decidable (∀ c ∈ cs, c ∉ [',', '{', '}']))

theorem uncut_append {cs ds : List Char} : Uncut (cs ++ ds) ↔ Uncut cs ∧ Uncut ds := List.forall_mem_append

theorem Uncut.comma {cs : List Char} (uncut : Uncut cs) : ',' ∉ cs := fun here => uncut _ here (by decide)

theorem Gap.uncut (gap : Gap) : Uncut gap.text := by
  intro c here mark
  have solid : ∀ c ∈ [',', '{', '}'], isBlank c = false := by decide
  have blank := gap.blank c here
  rw [solid c mark] at blank
  cases blank

namespace Identifier

variable (name : Identifier)

theorem solid : ∀ c ∈ name.text, isBlank c = false := fun c here => (isPlain_iff.mp (name.plain c here)).1

theorem unquoted_text : unquoted name.text = name.text := by
  have unquoted_char : ∀ c ∈ name.text, isQuote c = false := fun c here => (isPlain_iff.mp (name.plain c here)).2.1
  have start : name.text.dropWhile isQuote = name.text :=
    Text.dropWhile_append (List.forall_mem_nil _) fun c first => unquoted_char c (List.mem_of_mem_head? first)
  rw [unquoted, start]
  exact Text.dropEndWhile_eq fun c last => unquoted_char c (List.mem_of_mem_getLast? last)

theorem uncut : Uncut name.text := by
  intro c here mark
  have others := (isPlain_iff.mp (name.plain c here)).2.2
  exact others (List.mem_append_left ['*'] mark)

theorem trim_ending (before : List Char) {cs : List Char} (first : ∀ c ∈ cs.head?, isBlank c = false)
    (ends : cs = before ++ name.text) : trim cs = cs := by
  refine Text.trim_eq_self_iff.mpr ⟨first, fun c last => ?_⟩
  rw [ends, List.getLast?_append_of_ne_nil _ name.some] at last
  exact name.solid c (List.mem_of_mem_getLast? last)

end Identifier

theorem outerName_identifier (name : Identifier) : outerName name.text = ⟨"default", String.ofList name.text⟩ := by
  unfold outerName
  split
  next rest starred =>
    have plain := name.plain '*' (by rw [starred]; exact List.mem_cons_self)
    cases plain
  next => rfl

theorem dropRepeated_eq_self {pat cs : List Char} (other : Text.after? pat cs = none) (fuel : Nat) :
    dropRepeated pat fuel cs = cs := by
  cases fuel with
  | zero => rfl
  | succ fuel => simp only [dropRepeated, other]

namespace Whole

variable (whole : Whole)

theorem uncut : Uncut whole.text := by
  have mark : Uncut ['*'] := by decide
  have word : Uncut ['a', 's'] := by decide
  rw [text, ← List.singleton_append]
  simp only [uncut_append]
  exact ⟨mark, whole.gap.uncut, word, whole.space.uncut, whole.name.uncut⟩

theorem trim_text : trim whole.text = whole.text :=
  whole.name.trim_ending ('*' :: (whole.gap.text ++ (['a', 's'] ++ whole.space.text))) (by rintro c ⟨⟩; decide)
    (by simp [text])

theorem outerName_text : outerName whole.text = ⟨"*", String.ofList whole.name.text⟩ := by
  obtain ⟨gap, space, name⟩ := whole
  have named : trim (gap.text ++ (['a', 's'] ++ (space.text ++ name.text))) = ['a', 's'] ++ (space.text ++ name.text) :=
    Text.trim_append gap.blank (name.trim_ending (['a', 's'] ++ space.text) (by rintro c ⟨⟩; decide) (by simp))
  have other : Text.after? ['a', 's'] (space.text ++ name.text) = none := by
    obtain ⟨c, rest, is⟩ := List.exists_cons_of_ne_nil space.some
    have blank := space.blank c (by rw [is]; exact List.mem_cons_self)
    have differ : 'a' ≠ c := by
      rintro rfl
      cases blank
    rw [is, List.cons_append, Text.after?, if_neg differ]
  have dropped : dropRepeated ['a', 's'] (['a', 's'] ++ (space.text ++ name.text)).length
      (['a', 's'] ++ (space.text ++ name.text)) = space.text ++ name.text := by
    rw [List.length_append, Nat.add_comm, List.length_cons, ← Nat.add_assoc, dropRepeated]
    simp only [Text.after?_append, dropRepeated_eq_self other]
  have bound : trim (space.text ++ name.text) = name.text := Text.trim_append space.blank (Text.trim_solid name.solid)
  simp only [text, outerName, named, dropped, bound]

end Whole

namespace Alias

variable (rename : Alias)

theorem uncut : Uncut rename.text := by
  have word : Uncut ['a', 's'] := by decide
  simp only [text, uncut_append]
  exact ⟨rename.before.uncut, word, rename.behind.uncut, rename.name.uncut⟩

theorem words_append (name : Identifier) :
    words (name.text ++ rename.text) = [name.text, ['a', 's'], rename.name.text] := by
  rw [text, Text.words_append name.some name.solid rename.before.some rename.before.blank,
    Text.words_append (by decide) (by decide) rename.behind.some rename.behind.blank,
    Text.words_solid rename.name.some rename.name.solid]

end Alias

namespace Entry

variable (entry : Entry)

theorem uncut : Uncut entry.text := by
  have mark : Uncut "type ".toList := by decide
  obtain ⟨marked, exported, rename, value⟩ := entry
  rw [text, uncut_append, uncut_append]
  refine ⟨?_, exported.uncut, ?_⟩
  · cases marked with
    | none => exact List.forall_mem_nil _
    | some gap => exact uncut_append.mpr ⟨mark, gap.uncut⟩
  · cases rename with
    | none => exact List.forall_mem_nil _
    | some rename => exact rename.uncut

theorem trim_text : trim entry.text = entry.text := by
  have first : ∀ c ∈ entry.text.head?, isBlank c = false := by
    intro c here
    rw [text] at here
    cases marked : entry.mark with
    | some gap =>
        rw [marked] at here
        obtain rfl : 't' = c := Option.some.inj here
        decide
    | none =>
        rw [marked, Option.elim_none, List.nil_append, List.head?_append_of_ne_nil _ entry.exported.some] at here
        exact entry.exported.solid c (List.mem_of_mem_head? here)
  cases renamed : entry.rename with
  | none => exact entry.exported.trim_ending _ first (by rw [text, renamed, Option.elim_none, List.append_nil])
  | some rename =>
      refine rename.name.trim_ending (entry.mark.elim [] (fun gap => "type ".toList ++ gap.text) ++
        (entry.exported.text ++ (rename.before.text ++ (['a', 's'] ++ rename.behind.text)))) first ?_
      rw [text, renamed, Option.elim_some, Alias.text]
      simp only [List.append_assoc]

theorem unmarked_value (unmarked : entry.mark = none) : Text.startsWith "type ".toList entry.text = false := by
  have is : entry.text = entry.exported.text ++ entry.rename.elim [] Alias.text := by rw [text, unmarked]; rfl
  have stop : ∀ c ∈ (entry.rename.elim [] Alias.text).head?, (!isBlank c) = false := by
    intro c here
    cases renamed : entry.rename with
    | none => rw [renamed] at here; cases here
    | some rename =>
        rw [renamed, Option.elim_some, Alias.text, List.head?_append_of_ne_nil _ rename.before.some] at here
        rw [rename.before.blank c (List.mem_of_mem_head? here)]
        rfl
  have word : entry.text.takeWhile (!isBlank ·) = entry.exported.text := by
    rw [is]
    exact Text.takeWhile_append (fun c here => by rw [entry.exported.solid c here]; rfl) stop
  rw [← Bool.not_eq_true, Text.startsWith_iff]
  rintro ⟨rest, marked⟩
  have same : entry.exported.text = "type".toList := by
    rw [← word, ← marked]
    rfl
  cases renamed : entry.rename with
  | none =>
      rw [is, same, renamed, Option.elim_none] at marked
      cases marked
  | some rename => exact entry.value (by rw [unmarked]; rfl) (by rw [renamed]; rfl) same

theorem innerName?_text : innerName? entry.text = entry.binding? := by
  cases marked : entry.mark with
  | some gap =>
      have starts : Text.startsWith "type ".toList entry.text = true := by
        rw [Text.startsWith_iff, text, marked]
        exact (List.prefix_append _ _).trans (List.prefix_append _ _)
      rw [innerName?, if_pos starts, binding?, marked]
      rfl
  | none =>
      rw [innerName?, entry.unmarked_value marked, if_neg Bool.false_ne_true, binding?, marked, text, marked]
      cases entry.rename with
      | none =>
          simp only [Option.elim_none, List.nil_append, List.append_nil,
            Text.words_solid entry.exported.some entry.exported.solid, entry.exported.unquoted_text]
          rfl
      | some rename =>
          simp only [Option.elim_none, Option.elim_some, List.nil_append, rename.words_append,
            entry.exported.unquoted_text]
          rfl

end Entry

theorem braced_unlisted {cs : List Char} (unlisted : '{' ∉ cs) : braced cs = (cs, []) := by
  rw [braced, Text.cutFirst?_eq_none unlisted]

theorem braced_listed {before inner behind : List Char} (opened : '{' ∉ before) (closed : '}' ∉ behind) :
    braced (before ++ '{' :: (inner ++ '}' :: behind)) = (before ++ behind, inner) := by
  have last : Text.cutLast? ['}'] (inner ++ '}' :: behind) = some (inner, behind) := Text.cutLast?_append inner closed
  simp only [braced, Text.cutFirst?_char _ opened, last]

def trimmed (pieces : List (List Char)) : List (List Char) := (pieces.map trim).filter (!·.isEmpty)

theorem trimmed_append (before behind : List (List Char)) :
    trimmed (before ++ behind) = trimmed before ++ trimmed behind := by
  rw [trimmed, List.map_append, List.filter_append, trimmed, trimmed]

theorem parts_join {pieces : List (List Char)} (uncut : ∀ piece ∈ pieces, ',' ∉ piece) :
    parts (join [','] pieces) = trimmed pieces := by
  cases pieces with
  | nil => rfl
  | cons first others =>
      have whole : (first :: others).flatMap (splitOn (· == ',')) = first :: others := by
        rw [List.flatMap_congr fun piece member => Text.splitOn_of_none fun c here => ?_, List.flatMap_singleton']
        refine beq_eq_false_iff_ne.mpr ?_
        rintro rfl
        exact uncut piece member here
      rw [parts, Text.splitOn_join rfl (List.cons_ne_nil first others), whole, trimmed]

theorem trimmed_blank {piece : List Char} (blank : ∀ c ∈ piece, isBlank c = true) : trimmed [piece] = [] := by
  rw [trimmed, List.map_singleton, Text.trim_blank blank]
  rfl

theorem trimmed_gap (gap : Option Gap) : trimmed (gap.toList.map Gap.text) = [] := by
  cases gap with
  | none => rfl
  | some gap => exact trimmed_blank gap.blank

theorem trimmed_padded {α : Type} {text : α → List Char} {items : List (Padded α)}
    (firm : ∀ item, trim (text item) = text item ∧ text item ≠ []) :
    trimmed (items.map (Padded.text text)) = items.map fun p => text p.item := by
  induction items with
  | nil => rfl
  | cons p items ih =>
      obtain ⟨same, some⟩ := firm p.item
      have first : trimmed [p.text text] = [text p.item] := by
        rw [trimmed, List.map_singleton, Padded.text, Text.trim_between p.before.blank p.behind.blank same]
        simp [some]
      rw [List.map_cons, ← List.singleton_append, trimmed_append, first, ih]
      rfl

theorem Padded.uncut {α : Type} {text : α → List Char} (uncut : ∀ item, Uncut (text item)) (p : Padded α) :
    Uncut (p.text text) :=
  uncut_append.mpr ⟨uncut_append.mpr ⟨p.before.uncut, uncut p.item⟩, p.behind.uncut⟩

theorem Identifier.firm (name : Identifier) : trim name.text = name.text ∧ name.text ≠ [] :=
  ⟨Text.trim_solid name.solid, name.some⟩

theorem Whole.firm (whole : Whole) : trim whole.text = whole.text ∧ whole.text ≠ [] :=
  ⟨whole.trim_text, List.cons_ne_nil _ _⟩

theorem Entry.firm (entry : Entry) : trim entry.text = entry.text ∧ entry.text ≠ [] := by
  refine ⟨entry.trim_text, fun empty => entry.exported.some ?_⟩
  rw [text] at empty
  exact (List.append_eq_nil_iff.mp (List.append_eq_nil_iff.mp empty).2).1

theorem Entries.parts_inner (list : Entries) : parts list.inner = list.entries.map fun p => p.item.text := by
  rw [inner, parts_join, trimmed_append, trimmed_padded Entry.firm, trimmed_gap, List.append_nil]
  intro piece member
  rcases List.mem_append.mp member with entry | last
  · obtain ⟨p, -, rfl⟩ := List.mem_map.mp entry
    exact (Padded.uncut Entry.uncut p).comma
  · obtain ⟨gap, -, rfl⟩ := List.mem_map.mp last
    exact gap.uncut.comma

namespace Clause

variable (clause : Clause)

theorem brace_not_mem_around {brace : Char} (is : brace ∈ ['{', '}']) {pieces : List (List Char)}
    (uncut : ∀ piece ∈ pieces, Uncut piece) :
    brace ∉ pieces.flatMap (· ++ [',']) ∧ brace ∉ pieces.flatMap ([','] ++ ·) := by
  have inside (piece : List Char) (member : piece ∈ pieces) : brace ∉ piece := fun here =>
    uncut piece member brace here (List.mem_cons_of_mem ',' is)
  have other : brace ∉ [','] := by
    rcases List.mem_pair.mp is with rfl | rfl <;> decide
  constructor
  · intro here
    obtain ⟨piece, member, here⟩ := List.mem_flatMap.mp here
    exact (List.mem_append.mp here).elim (inside piece member) other
  · intro here
    obtain ⟨piece, member, here⟩ := List.mem_flatMap.mp here
    exact (List.mem_append.mp here).elim other (inside piece member)

theorem uncut_outer : ∀ piece ∈ clause.outer ++ clause.last.toList.map Gap.text, Uncut piece := by
  intro piece member
  rcases List.mem_append.mp member with outer | last
  · rcases List.mem_append.mp outer with standard | whole
    · obtain ⟨p, -, rfl⟩ := List.mem_map.mp standard
      exact Padded.uncut Identifier.uncut p
    · obtain ⟨p, -, rfl⟩ := List.mem_map.mp whole
      exact Padded.uncut Whole.uncut p
  · obtain ⟨gap, -, rfl⟩ := List.mem_map.mp last
    exact gap.uncut

theorem outer_names : (trimmed clause.outer).map outerName =
    clause.standard.toList.map (fun p => ⟨"default", String.ofList p.item.text⟩) ++
      clause.whole.toList.map (fun p => ⟨"*", String.ofList p.item.name.text⟩) := by
  rw [outer, trimmed_append, trimmed_padded Identifier.firm, trimmed_padded Whole.firm, List.map_append, List.map_map,
    List.map_map]
  simp only [Function.comp_def, outerName_identifier, Whole.outerName_text]

def spared : List (List Char) :=
  clause.outer ++ (clause.list.toList.map (fun p => p.before.text ++ p.behind.text) ++ clause.last.toList.map Gap.text)

theorem braced_text : braced clause.text = (join [','] clause.spared, clause.list.elim [] fun p => p.item.inner) := by
  have uncut := clause.uncut_outer
  rw [text, spared]
  cases clause.list with
  | none =>
      refine braced_unlisted fun here => ?_
      rcases Text.mem_join here with comma | ⟨piece, member, here⟩
      · exact absurd comma (by decide)
      · exact uncut piece member '{' here (by decide)
  | some p =>
      rw [List.forall_mem_append] at uncut
      have opened : '{' ∉ clause.outer.flatMap (· ++ [',']) ++ p.before.text := fun here =>
        (List.mem_append.mp here).elim (brace_not_mem_around (by decide) uncut.1).1 fun inside =>
          p.before.uncut '{' inside (by decide)
      have closed : '}' ∉ p.behind.text ++ (clause.last.toList.map Gap.text).flatMap ([','] ++ ·) := fun here =>
        (List.mem_append.mp here).elim (fun inside => p.behind.uncut '}' inside (by decide))
          (brace_not_mem_around (by decide) uncut.2).2
      have listed := @braced_listed _ p.item.inner _ opened closed
      rw [Option.toList_some, List.map_singleton, List.map_singleton, List.singleton_append, List.singleton_append,
        Text.join_around, Text.join_around, Padded.text]
      simpa only [List.append_assoc, List.cons_append, List.nil_append, Option.elim_some] using listed

theorem trimmed_spared : trimmed clause.spared = trimmed clause.outer := by
  rw [spared, trimmed_append, trimmed_append, trimmed_gap, List.append_nil]
  cases clause.list with
  | none => exact List.append_nil _
  | some p =>
      have blank : trimmed [p.before.text ++ p.behind.text] = [] :=
        trimmed_blank fun c here => (List.mem_append.mp here).elim (p.before.blank c) (p.behind.blank c)
      exact (congrArg (trimmed clause.outer ++ ·) blank).trans (List.append_nil _)

end Clause

theorem Clause.spared_uncut (clause : Clause) : ∀ piece ∈ clause.spared, ',' ∉ piece := by
  have outer := clause.uncut_outer
  rw [List.forall_mem_append] at outer
  intro piece member
  rcases List.mem_append.mp member with member | member
  · exact (outer.1 piece member).comma
  rcases List.mem_append.mp member with member | member
  · obtain ⟨p, -, rfl⟩ := List.mem_map.mp member
    exact (uncut_append.mpr ⟨p.before.uncut, p.behind.uncut⟩).comma
  · exact (outer.2 piece member).comma

theorem Clause.inner_names (clause : Clause) :
    (parts (clause.list.elim [] fun p => p.item.inner)).filterMap innerName? =
      (clause.list.toList.flatMap (·.item.entries)).filterMap (·.item.binding?) := by
  cases clause.list with
  | none => rfl
  | some p =>
      rw [Option.elim_some, p.item.parts_inner, List.filterMap_map, Option.toList_some, List.flatMap_singleton]
      exact List.filterMap_congr fun entry _ => entry.item.innerName?_text

/-- What is read from the text of a clause are its bindings: the default one, the one of all exports, and one for each
entry of the list that is not marked as a type, in order and with the names that they are written with. -/
theorem clauseNames_text (clause : Clause) : clauseNames clause.text = clause.bindings := by
  rw [clauseNames, clause.braced_text]
  simp only [parts_join clause.spared_uncut, clause.trimmed_spared, clause.outer_names, clause.inner_names]
  rfl

def crowded : Clause :=
  let tight : Gap := ⟨[], List.forall_mem_nil _⟩
  let blank : Gap := ⟨[' '], by decide⟩
  let line : Gap := ⟨['\n', '\t'], by decide⟩
  let space : Space := ⟨blank, by decide⟩
  let broken : Space := ⟨line, by decide⟩
  let as : Identifier := .ofScript ['a', 's'] (by decide) (by decide +kernel)
  let asset : Identifier := .ofScript "asset_é".toList (by decide) (by decide +kernel)
  let type : Identifier := .ofScript "type".toList (by decide) (by decide +kernel)
  let types : Identifier := .ofScript "types".toList (by decide) (by decide +kernel)
  { standard := some ⟨tight, types, line⟩
    whole := some ⟨blank, ⟨tight, broken, asset⟩, tight⟩
    list := some ⟨line, ⟨[
      ⟨blank, ⟨none, as, none, nofun⟩, tight⟩,
      ⟨line, ⟨none, as, some ⟨broken, space, as⟩, by decide⟩, blank⟩,
      ⟨tight, ⟨some line, type, some ⟨space, space, types⟩, nofun⟩, tight⟩,
      ⟨tight, ⟨some tight, as, none, nofun⟩, blank⟩,
      ⟨blank, ⟨none, types, some ⟨space, broken, type⟩, by decide⟩, tight⟩], some line⟩, blank⟩
    last := none }

theorem clauseNames_text_crowded :
    clauseNames ("types\n\t, *as\n\tasset_é,\n\t\x7b as,\n\tas\n\tas as ," ++
        "type \n\ttype as types,type as , types as\n\ttype,\n\t\x7d ").toList =
      [⟨"default", "types"⟩, ⟨"*", "asset_é"⟩, ⟨"as", "as"⟩, ⟨"as", "as"⟩, ⟨"types", "type"⟩] :=
  clauseNames_text crowded

end Prerender.Import
