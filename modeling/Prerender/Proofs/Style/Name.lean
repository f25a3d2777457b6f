import Mathlib
import Prerender.Proofs.Text.Search
import Prerender.Style.Css

set_option autoImplicit false

namespace Prerender.Style

open Text (startsWith startsWith_iff after? after?_append isBlank)

section Hyphens

def hyphenate (cs : List Char) : List Char := cs.flatMap fun c => if c.isUpper then ['-', c.toLower] else [c]

def vendored (cs : List Char) : List Char := if startsWith ['m', 's', '-'] cs then '-' :: cs else cs

theorem hyphenate_capital {c : Char} (capital : c.isUpper = true) (cs : List Char) :
    hyphenate (c :: cs) = '-' :: c.toLower :: hyphenate cs := by
  rw [hyphenate, List.flatMap_cons, if_pos capital]
  rfl

theorem hyphenate_cons {c : Char} (other : c.isUpper = false) (cs : List Char) :
    hyphenate (c :: cs) = c :: hyphenate cs := by
  rw [hyphenate, List.flatMap_cons, if_neg (by simp [other])]
  rfl

theorem cssName_toList (name : String) :
    (cssName name).toList = if isCustom name.toList then name.toList else vendored (hyphenate name.toList) := by
  unfold cssName
  dsimp only
  split
  · rfl
  · rw [String.toList_ofList]
    rfl

theorem toUpper_toLower {c : Char} (capital : c.isUpper = true) : c.toLower.toUpper = c := by
  rw [Char.toUpper_toLower_eq_toUpper]
  exact Char.toUpper_eq_of_not_isLower (Char.not_isLower_of_isUpper capital)

theorem toLower_toUpper {c : Char} (small : c.isLower = true) : c.toUpper.toLower = c := by
  rw [Char.toLower_toUpper_eq_toLower]
  exact Char.toLower_eq_of_not_isUpper (Char.not_isUpper_of_isLower small)

theorem small_toLower {c : Char} (capital : c.isUpper = true) : c.toLower.isLower = true := by
  rw [Char.isLower_toLower_eq_isAlpha, Char.isAlpha, capital, Bool.true_or]

theorem capital_toUpper {c : Char} (small : c.isLower = true) : c.toUpper.isUpper = true := by
  rw [Char.isUpper_toUpper_eq_isAlpha, Char.isAlpha, small, Bool.or_true]

theorem toLower_ne_hyphen {c : Char} (capital : c.isUpper = true) : c.toLower ≠ '-' := by
  intro same
  have letter := small_toLower capital
  rw [same] at letter
  cases letter

theorem camel_hyphenate {cs : List Char} (single : '-' ∉ cs) : camel false (hyphenate cs) = cs := by
  induction cs with
  | nil => rfl
  | cons c cs ih =>
      rw [List.mem_cons, not_or] at single
      cases capital : c.isUpper with
      | true =>
          rw [hyphenate_capital capital, camel, if_pos rfl, camel, if_neg (toLower_ne_hyphen capital), if_pos rfl,
            toUpper_toLower capital, ih single.2]
      | false =>
          rw [hyphenate_cons capital, camel, if_neg (Ne.symm single.1), if_neg Bool.false_ne_true, ih single.2]

theorem splitOn_hyphen (cs : List Char) : Text.splitOn (· = '-') ('-' :: cs) = [] :: Text.splitOn (· = '-') cs :=
  Text.splitOn_append rfl [] cs

theorem splitOn_letter {c : Char} {cs word : List Char} {others : List (List Char)} (other : c ≠ '-')
    (pieces : Text.splitOn (· = '-') cs = word :: others) : Text.splitOn (· = '-') (c :: cs) = (c :: word) :: others := by
  simp only [Text.splitOn, pieces, other, decide_false, Bool.false_eq_true, if_false]

theorem cons_of_words {cs : List Char} (words : ∀ word ∈ Text.splitOn (· = '-') cs, ∃ c ∈ word.head?, c.isLower = true) :
    ∃ c rest, cs = c :: rest ∧ c.isLower = true ∧ c ≠ '-' := by
  have letter {word : List Char} (member : word ∈ Text.splitOn (· = '-') cs) : word ≠ [] := by
    rintro rfl
    obtain ⟨c, first, -⟩ := words [] member
    cases first
  cases cs with
  | nil => exact absurd rfl (letter List.mem_cons_self)
  | cons c cs =>
      obtain ⟨word, others, rest⟩ := List.exists_cons_of_ne_nil (Text.splitOn_ne_nil (· = '-') cs)
      by_cases hyphen : c = '-'
      · subst hyphen
        exact absurd rfl (letter (splitOn_hyphen cs ▸ List.mem_cons_self))
      · obtain ⟨d, same, small⟩ := words (c :: word) (by rw [splitOn_letter hyphen rest]; exact List.mem_cons_self)
        obtain rfl : c = d := Option.some.inj same
        exact ⟨c, cs, rfl, small, hyphen⟩

-- Words with a hyphen between any two, without capitals and without what ends a name in a style sheet.
structure IsWords (cs : List Char) : Prop where
  words : ∀ word ∈ Text.splitOn (· = '-') cs, ∃ c ∈ word.head?, c.isLower = true
  plain : ∀ c ∈ cs, c.isUpper = false ∧ isBlank c = false ∧ c ∉ [':', ';']

theorem IsWords.of_all {cs : List Char}
    (words : (Text.splitOn (· = '-') cs).all (fun word => word.head?.any Char.isLower) = true)
    (plain : cs.all (fun c => !(c.isUpper || isBlank c || c == ':' || c == ';')) = true) : IsWords cs := by
  refine ⟨fun word member => (Option.any_eq_true _ _).mp (List.all_eq_true.mp words word member), fun c here => ?_⟩
  have each := List.all_eq_true.mp plain c here
  simp only [Bool.not_eq_true', Bool.or_eq_false_iff, beq_eq_false_iff_ne] at each
  obtain ⟨⟨⟨small, solid⟩, colon⟩, semicolon⟩ := each
  exact ⟨small, solid, by simp [colon, semicolon]⟩

-- The words behind a hyphen are those of the text behind it; `capital` tells that one was passed, so that a word
-- begins here.
theorem hyphenate_camel (capital : Bool) {cs : List Char} (small : ∀ c ∈ cs, c.isUpper = false)
    (words : ∀ word ∈ (if capital then Text.splitOn (· = '-') cs else (Text.splitOn (· = '-') cs).tail),
      ∃ c ∈ word.head?, c.isLower = true) :
    hyphenate (camel capital cs) = if capital then '-' :: cs else cs := by
  induction cs generalizing capital with
  | nil =>
      cases capital with
      | true =>
          obtain ⟨c, first, -⟩ := words [] List.mem_cons_self
          cases first
      | false => rfl
  | cons c cs ih =>
      rw [List.forall_mem_cons] at small
      obtain ⟨word, others, is⟩ := List.exists_cons_of_ne_nil (Text.splitOn_ne_nil (· = '-') cs)
      by_cases hyphen : c = '-'
      · subst hyphen
        rw [splitOn_hyphen] at words
        cases capital with
        | true =>
            obtain ⟨c, none, -⟩ := words [] List.mem_cons_self
            cases none
        | false => rw [camel, if_pos rfl, ih true small.2 words, if_pos rfl, if_neg Bool.false_ne_true]
      · have pieces := splitOn_letter hyphen is
        have behind : hyphenate (camel false cs) = cs := by
          refine ih false small.2 fun other member => words other ?_
          rw [if_neg Bool.false_ne_true, is, List.tail_cons] at member
          rw [pieces]
          cases capital with
          | true => exact List.mem_cons_of_mem _ member
          | false => exact member
        rw [camel, if_neg hyphen]
        cases capital with
        | true =>
            obtain ⟨d, same, letter⟩ := words (c :: word) (by rw [pieces]; exact List.mem_cons_self)
            obtain rfl : c = d := Option.some.inj same
            rw [if_pos rfl, if_pos rfl, hyphenate_capital (capital_toUpper letter), toLower_toUpper letter, behind]
        | false => rw [if_neg Bool.false_ne_true, if_neg Bool.false_ne_true, hyphenate_cons small.1, behind]

end Hyphens

section Sheet

-- The names in a style sheet: those of custom properties, and words in small letters, perhaps behind a vendor's hyphen.
inductive IsPropertyName : List Char → Prop where
  | custom (name : List Char) (marked : isCustom name = true) (trimmed : Text.trim name = name)
      (plain : ∀ c ∈ name, c ∉ [':', ';']) : IsPropertyName name
  | words (name : List Char) (is : IsWords name) : IsPropertyName name
  | vendor (name : List Char) (is : IsWords name) : IsPropertyName ('-' :: name)

def isKept (name : List Char) : Bool :=
  isCustom name || startsWith ['-', 'm', 's', '-'] name ||
    !(startsWith ['-'] name || startsWith ['m', 's', '-'] name)

variable {name : List Char}

theorem IsWords.cons (is : IsWords name) : ∃ c cs, name = c :: cs ∧ c.isLower = true ∧ c ≠ '-' := cons_of_words is.words

theorem isCustom_cons {c : Char} (other : c ≠ '-') (cs : List Char) : isCustom (c :: cs) = false := by
  rw [isCustom, startsWith, after?, if_neg (Ne.symm other)]
  rfl

theorem isCustom_hyphen {c : Char} (other : c ≠ '-') (cs : List Char) : isCustom ('-' :: c :: cs) = false := by
  rw [isCustom, startsWith, after?, if_pos rfl, after?, if_neg (Ne.symm other)]
  rfl

theorem scriptName_cons {c : Char} (other : c ≠ '-') (cs : List Char) : scriptName (c :: cs) = camel false (c :: cs) := by
  rw [scriptName, isCustom_cons other, if_neg Bool.false_ne_true, after?, if_neg (Ne.symm other),
    List.dropWhile_cons_of_neg (by simpa using other)]

-- One hyphen in front of a name is dropped, or was put there for the vendor.
theorem scriptName_hyphen {c : Char} (other : c ≠ '-') (cs : List Char) :
    scriptName ('-' :: c :: cs) = camel false (c :: cs) := by
  rw [scriptName, isCustom_hyphen other, if_neg Bool.false_ne_true]
  split
  next rest vendor =>
    have is : c :: cs = ['m', 's', '-'] ++ rest := (List.cons.inj (Text.eq_append_of_after? vendor)).2
    rw [is]
    rfl
  next =>
    have dropped : ('-' :: c :: cs).dropWhile (· = '-') = c :: cs := by
      rw [List.dropWhile_cons_of_pos (by decide), List.dropWhile_cons_of_neg (by simpa using other)]
    rw [dropped]

theorem scriptName_words (is : IsWords name) :
    scriptName name = camel false name ∧ scriptName ('-' :: name) = camel false name := by
  obtain ⟨c, cs, rfl, -, other⟩ := is.cons
  exact ⟨scriptName_cons other cs, scriptName_hyphen other cs⟩

theorem cssName_camel (is : IsWords name) : (cssName (String.ofList (camel false name))).toList = vendored name := by
  have back : hyphenate (camel false name) = name :=
    hyphenate_camel false (fun c here => (is.plain c here).1) fun word member => is.words word (List.mem_of_mem_tail member)
  obtain ⟨c, cs, rfl, -, other⟩ := is.cons
  have plain : isCustom (camel false (c :: cs)) = false := by
    rw [camel, if_neg other, if_neg Bool.false_ne_true]
    exact isCustom_cons other _
  rw [cssName_toList, String.toList_ofList, plain, if_neg Bool.false_ne_true, back]

theorem isKept_words (is : IsWords name) :
    isKept name = !startsWith ['m', 's', '-'] name ∧ isKept ('-' :: name) = startsWith ['m', 's', '-'] name := by
  obtain ⟨c, cs, rfl, -, other⟩ := is.cons
  have unhyphened (pat : List Char) : startsWith ('-' :: pat) (c :: cs) = false := by
    rw [startsWith, after?, if_neg (Ne.symm other)]
    rfl
  have hyphened (pat : List Char) : startsWith ('-' :: pat) ('-' :: c :: cs) = startsWith pat (c :: cs) := by
    rw [startsWith, after?, if_pos rfl, startsWith]
  have empty : startsWith [] (c :: cs) = true := rfl
  constructor
  · rw [isKept, isCustom_cons other, unhyphened, unhyphened, Bool.false_or, Bool.false_or, Bool.false_or]
  · rw [isKept, isCustom_hyphen other, hyphened, hyphened, empty, Bool.true_or, Bool.not_true, Bool.or_false, Bool.false_or]

theorem isKept_vendored (is : IsWords name) : isKept (vendored name) = true := by
  rw [vendored]
  split
  next vendor => rw [(isKept_words is).2, vendor]
  next vendor => rw [(isKept_words is).1, Bool.eq_false_iff.mpr vendor, Bool.not_false]

theorem isPropertyName_vendored (is : IsWords name) : IsPropertyName (vendored name) := by
  rw [vendored]
  split
  · exact .vendor name is
  · exact .words name is

def respelled (name : String) : String := cssName (String.ofList (scriptName name.toList))

theorem respelled_cases {name : String} (is : IsPropertyName name.toList) :
    IsPropertyName (respelled name).toList ∧ isKept (respelled name).toList = true ∧
      (isKept name.toList = true → respelled name = name) := by
  rw [respelled, ← String.toList_inj]
  generalize name.toList = name at is
  cases is with
  | custom name marked trimmed plain =>
      have kept : isKept name = true := by rw [isKept, marked, Bool.true_or, Bool.true_or]
      rw [scriptName, if_pos marked, cssName_toList, String.toList_ofList, if_pos marked]
      exact ⟨.custom name marked trimmed plain, kept, fun _ => rfl⟩
  | words name is =>
      rw [(scriptName_words is).1, cssName_camel is]
      refine ⟨isPropertyName_vendored is, isKept_vendored is, fun kept => ?_⟩
      rw [(isKept_words is).1, Bool.not_eq_true'] at kept
      rw [vendored, kept, if_neg Bool.false_ne_true]
  | vendor name is =>
      rw [(scriptName_words is).2, cssName_camel is]
      refine ⟨isPropertyName_vendored is, isKept_vendored is, fun kept => ?_⟩
      rw [(isKept_words is).2] at kept
      rw [vendored, if_pos kept]

end Sheet

section Script

-- The names in a script that a style sheet has a spelling for: those of custom properties, and words that are joined
-- by capitals.
structure IsKey (key : List Char) : Prop where
  plain : ∀ c ∈ key, c ∉ [':', ';']
  trimmed : Text.trim key = key
  spelled : isCustom key = true ∨ (key ≠ [] ∧ '-' ∉ key ∧ ∀ c ∈ key.head?, c.isUpper = false)

variable {key : String}

theorem scriptName_vendored {c : Char} {cs : List Char} (other : c ≠ '-') :
    scriptName (vendored (c :: cs)) = camel false (c :: cs) := by
  rw [vendored]
  split
  · exact scriptName_hyphen other cs
  · exact scriptName_cons other cs

theorem scriptName_cssName (is : IsKey key.toList) : String.ofList (scriptName (cssName key).toList) = key := by
  rw [cssName_toList]
  rcases is.spelled with marked | ⟨occupied, single, small⟩
  · rw [if_pos marked, scriptName, if_pos marked, String.ofList_toList]
  · obtain ⟨c, cs, chars⟩ := List.exists_cons_of_ne_nil occupied
    rw [chars] at single small
    obtain ⟨other, -⟩ := List.forall_mem_cons.mp (fun d here => show d ≠ '-' from fun same => single (same ▸ here))
    have back := camel_hyphenate single
    rw [hyphenate_cons (small c rfl)] at back
    rw [chars, isCustom_cons other, if_neg Bool.false_ne_true, hyphenate_cons (small c rfl), scriptName_vendored other,
      back, ← chars, String.ofList_toList]

end Script

end Prerender.Style
