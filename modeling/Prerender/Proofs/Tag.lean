import Prerender.Proofs.Exports
import Prerender.Proofs.Style.Name

set_option autoImplicit false

namespace Prerender

namespace Tag

open Text (splitOn)
open Style (hyphenate hyphenate_capital hyphenate_cons camel camel_hyphenate hyphenate_camel toLower_toUpper small_toLower
  capital_toUpper toLower_ne_hyphen splitOn_hyphen splitOn_letter cons_of_words)

structure IsExportName (name : String) : Prop where
  component : Registry.isComponentName name = true
  single : '-' ∉ name.toList

structure IsTagName (tag : String) : Prop where
  words : ∀ word ∈ splitOn (· = '-') tag.toList, ∃ c ∈ word.head?, c.isLower = true
  small : ∀ c ∈ tag.toList, c.isUpper = false

theorem IsTagName.of_all {tag : String}
    (words : (splitOn (· = '-') tag.toList).all (fun word => word.head?.any Char.isLower) = true)
    (small : tag.toList.all (fun c => !c.isUpper) = true) : IsTagName tag :=
  ⟨fun word member => (Option.any_eq_true _ _).mp (List.all_eq_true.mp words word member),
    fun c here => (Bool.not_eq_true' _).mp (List.all_eq_true.mp small c here)⟩

variable {name tag : String} {c : Char} {cs : List Char} {word : List Char} {others : List (List Char)}

theorem IsExportName.cons (is : IsExportName name) :
    ∃ c cs, name.toList = c :: cs ∧ c.isUpper = true ∧ '-' ∉ c :: cs := by
  obtain ⟨component, single⟩ := is
  rw [Registry.isComponentName] at component
  cases chars : name.toList with
  | nil =>
      rw [chars] at component
      cases component
  | cons c cs =>
      rw [chars] at component single
      exact ⟨c, cs, rfl, component, single⟩

theorem ofExport_cons (chars : name.toList = c :: cs) : ofExport name = String.ofList (c.toLower :: hyphenate cs) := by
  rw [ofExport, chars]
  rfl

theorem capital_small (small : c.isLower = true) : Text.capital c = [c.toUpper] := by
  have ascii : c.toNat < 0x80 := by
    have last : c.val ≤ 'z'.val := of_decide_eq_true (Bool.and_eq_true_iff.mp small).2
    exact Nat.lt_of_le_of_lt (UInt32.le_iff_toNat_le.mp last) (by decide)
  exact if_pos ascii

theorem capitalize_word (letter : ∃ c ∈ word.head?, c.isLower = true) :
    ∃ c rest, word = c :: rest ∧ c.isLower = true ∧ capitalize word = c.toUpper :: rest := by
  obtain ⟨c, first, small⟩ := letter
  obtain ⟨rest, rfl⟩ : ∃ rest, word = c :: rest := ⟨_, List.eq_cons_of_mem_head? first⟩
  exact ⟨c, rest, rfl, small, by rw [capitalize, capital_small small]; rfl⟩

-- Words are joined as in a script; `first` tells that a word begins here.
theorem camel_words (first : Bool) (pieces : splitOn (· = '-') cs = word :: others)
    (begins : first = true → ∃ c ∈ word.head?, c.isLower = true)
    (words : ∀ word ∈ others, ∃ c ∈ word.head?, c.isLower = true) :
    camel first cs = (if first then capitalize word else word) ++ others.flatMap capitalize := by
  induction cs generalizing first word others with
  | nil =>
      cases pieces
      cases first <;> rfl
  | cons c cs ih =>
      obtain ⟨next, behind, rest⟩ := List.exists_cons_of_ne_nil (Text.splitOn_ne_nil (· = '-') cs)
      by_cases hyphen : c = '-'
      · subst hyphen
        rw [splitOn_hyphen, rest] at pieces
        cases pieces
        rw [List.forall_mem_cons] at words
        rw [camel, if_pos rfl, ih true rest (fun _ => words.1) words.2]
        cases first <;> rfl
      · rw [splitOn_letter hyphen rest] at pieces
        cases pieces
        rw [camel, if_neg hyphen, ih false rest (absurd · Bool.false_ne_true) words]
        cases first with
        | false => rfl
        | true =>
            obtain ⟨d, word, same, -, capital⟩ := capitalize_word (begins rfl)
            cases same
            rw [if_pos rfl, if_pos rfl, capital]
            rfl

theorem toExport_eq (is : IsTagName tag) : toExport tag = String.ofList (camel true tag.toList) := by
  obtain ⟨word, others, pieces⟩ := List.exists_cons_of_ne_nil (Text.splitOn_ne_nil (· = '-') tag.toList)
  have words := is.words
  rw [pieces, List.forall_mem_cons] at words
  rw [camel_words true pieces (fun _ => words.1) words.2, toExport, pieces]
  rfl

theorem words_hyphenate (single : '-' ∉ cs) (pieces : splitOn (· = '-') (hyphenate cs) = word :: others) :
    ∀ word ∈ others, ∃ c ∈ word.head?, c.isLower = true := by
  induction cs generalizing word others with
  | nil =>
      cases pieces
      nofun
  | cons c cs ih =>
      rw [List.mem_cons, not_or] at single
      obtain ⟨next, behind, rest⟩ := List.exists_cons_of_ne_nil (Text.splitOn_ne_nil (· = '-') (hyphenate cs))
      have inner := ih single.2 rest
      cases capital : c.isUpper with
      | true =>
          rw [hyphenate_capital capital, splitOn_hyphen, splitOn_letter (toLower_ne_hyphen capital) rest] at pieces
          cases pieces
          exact List.forall_mem_cons.mpr ⟨⟨c.toLower, rfl, small_toLower capital⟩, inner⟩
      | false =>
          rw [hyphenate_cons capital, splitOn_letter (Ne.symm single.1) rest] at pieces
          cases pieces
          exact inner

theorem small_hyphenate : ∀ d ∈ hyphenate cs, d.isUpper = false := by
  intro d here
  obtain ⟨c, -, here⟩ := List.mem_flatMap.mp here
  split at here
  next capital =>
    rcases List.mem_pair.mp here with rfl | rfl
    · rfl
    · exact Bool.eq_false_iff.mpr (Char.not_isUpper_of_isLower (small_toLower capital))
  next other =>
    rw [List.mem_singleton.mp here]
    exact Bool.eq_false_iff.mpr other

theorem isTagName_ofExport (is : IsExportName name) : IsTagName (ofExport name) := by
  obtain ⟨c, cs, chars, capital, single⟩ := is.cons
  obtain ⟨word, others, rest⟩ := List.exists_cons_of_ne_nil (Text.splitOn_ne_nil (· = '-') (hyphenate cs))
  have letter := small_toLower capital
  rw [ofExport_cons chars]
  constructor <;> rw [String.toList_ofList]
  · rw [splitOn_letter (toLower_ne_hyphen capital) rest]
    refine List.forall_mem_cons.mpr ⟨⟨c.toLower, rfl, letter⟩, words_hyphenate (fun here => single ?_) rest⟩
    exact List.mem_cons_of_mem c here
  · exact List.forall_mem_cons.mpr ⟨Bool.eq_false_iff.mpr (Char.not_isUpper_of_isLower letter), small_hyphenate⟩

theorem toExport_ofExport (is : IsExportName name) : toExport (ofExport name) = name := by
  obtain ⟨c, cs, chars, capital, single⟩ := is.cons
  have back := camel_hyphenate single
  rw [hyphenate_capital capital, camel, if_pos rfl] at back
  rw [toExport_eq (isTagName_ofExport is), ofExport_cons chars, String.toList_ofList, back, ← chars, String.ofList_toList]

theorem isExportName_toExport (is : IsTagName tag) : IsExportName (toExport tag) := by
  obtain ⟨c, cs, chars, small, other⟩ := cons_of_words is.words
  constructor
  · rw [toExport_eq is, chars, camel, if_neg other, Registry.isComponentName, String.toList_ofList]
    exact capital_toUpper small
  · intro here
    rw [toExport, String.toList_ofList] at here
    obtain ⟨word, member, here⟩ := List.mem_flatMap.mp here
    obtain ⟨d, rest, rfl, letter, capital⟩ := capitalize_word (is.words word member)
    rw [capital] at here
    rcases List.mem_cons.mp here with same | here
    · have upper := capital_toUpper letter
      rw [← same] at upper
      cases upper
    · exact absurd rfl (of_decide_eq_false (Text.not_of_mem_splitOn member (List.mem_cons_of_mem d here)))

theorem ofExport_toExport (is : IsTagName tag) : ofExport (toExport tag) = tag := by
  obtain ⟨c, cs, chars, small, other⟩ := cons_of_words is.words
  have begins : camel true tag.toList = c.toUpper :: camel false cs := by rw [chars, camel, if_neg other, if_pos rfl]
  have back := hyphenate_camel true is.small is.words
  rw [begins, hyphenate_capital (capital_toUpper small), if_pos rfl] at back
  have capitals : (toExport tag).toList = c.toUpper :: camel false cs := by
    rw [toExport_eq is, begins, String.toList_ofList]
  rw [ofExport_cons capitals, (List.cons.inj back).2, String.ofList_toList]

end Tag

theorem Registry.tagOf_ofNames (names : List String) (name : String) :
    (Registry.ofNames names).tagOf name = Tag.ofExport name := by
  rw [tagOf, get?_ofNames]
  by_cases member : name ∈ names
  · rw [if_pos member]
  · rw [if_neg member]

namespace Tag

/-- Exports and tags correspond one to one: the tag of an export leads back to it, and so does the export of a tag.
Hence a library, whatever it exports, has no two exports with one tag. -/
theorem names_correspond :
    (∀ name, IsExportName name → IsTagName (ofExport name) ∧ toExport (ofExport name) = name) ∧
    (∀ tag, IsTagName tag → IsExportName (toExport tag) ∧ ofExport (toExport tag) = tag) ∧
    ∀ names first second, IsExportName first → IsExportName second →
      (Registry.ofNames names).tagOf first = (Registry.ofNames names).tagOf second → first = second := by
  refine ⟨fun name is => ⟨isTagName_ofExport is, toExport_ofExport is⟩,
    fun tag is => ⟨isExportName_toExport is, ofExport_toExport is⟩, ?_⟩
  intro names first second is other same
  rw [Registry.tagOf_ofNames, Registry.tagOf_ofNames] at same
  rw [← toExport_ofExport is, same, toExport_ofExport other]

theorem names_correspond_mixed :
    IsExportName "HTMLÉlan2X" ∧ toExport (ofExport "HTMLÉlan2X") = "HTMLÉlan2X" ∧
    IsTagName "h-t2ß-mÉ" ∧ ofExport (toExport "h-t2ß-mÉ") = "h-t2ß-mÉ" ∧
      (Registry.ofNames ["HTml", "HTMl"]).tagOf "HTml" ≠ (Registry.ofNames ["HTml", "HTMl"]).tagOf "HTMl" := by
  have name : IsExportName "HTMLÉlan2X" := ⟨by decide, by decide⟩
  have tag : IsTagName "h-t2ß-mÉ" := .of_all (by decide) (by decide)
  have first : IsExportName "HTml" := ⟨by decide, by decide⟩
  have second : IsExportName "HTMl" := ⟨by decide, by decide⟩
  obtain ⟨fromName, fromTag, distinct⟩ := names_correspond
  refine ⟨name, (fromName _ name).2, tag, (fromTag _ tag).2, fun same => ?_⟩
  exact absurd (distinct _ _ _ first second same) (by decide)

end Tag
end Prerender
