import Mathlib.Data.List.TakeWhile
import Prerender.Markup.OpenTag
import Prerender.Proofs.Markup.Entity

set_option autoImplicit false

namespace Prerender.Markup.OpenTag

structure IsTag (tag : String) : Prop where
  head : ∃ c ∈ tag.toList.head?, c.isAlpha = true
  tail : ∀ c ∈ tag.toList.tail, c.isAlphanum = true ∨ c = '-'

structure IsName (name : String) : Prop where
  occupied : name ≠ ""
  free : ∀ c ∈ name.toList, Text.isBlank c = false ∧ c ∉ ['=', '/', '>', '"', '\'']

theorem isAttributeName_iff {c : Char} :
    isAttributeName c = true ↔ Text.isBlank c = false ∧ c ∉ ['=', '/', '>', '"', '\''] := by
  simp only [isAttributeName, Bool.not_eq_true', Bool.or_eq_false_iff, beq_eq_false_iff_ne, List.mem_cons,
    List.not_mem_nil, or_false, not_or]
  tauto

theorem IsTag.of_all {tag : String} {c : Char} (head : tag.toList.head? = some c) (letter : c.isAlpha = true)
    (tail : tag.toList.tail.all isNameTail = true) : IsTag tag := by
  refine ⟨⟨c, head, letter⟩, fun d here => ?_⟩
  have named := List.all_eq_true.mp tail d here
  rwa [isNameTail, Bool.or_eq_true, beq_iff_eq] at named

theorem IsName.of_all {name : String} (occupied : name ≠ "") (free : name.toList.all isAttributeName = true) : IsName name :=
  ⟨occupied, fun c here => isAttributeName_iff.mp (List.all_eq_true.mp free c here)⟩

theorem IsName.cons {name : String} (isName : IsName name) :
    ∃ c cs, name.toList = c :: cs ∧ ∀ d ∈ name.toList, isAttributeName d = true := by
  have all (d : Char) (here : d ∈ name.toList) : isAttributeName d = true :=
    isAttributeName_iff.mpr (isName.free d here)
  cases is : name.toList with
  | nil => exact absurd (String.toList_eq_nil_iff.mp is) isName.occupied
  | cons c cs => exact ⟨c, cs, rfl, is ▸ all⟩

theorem IsTag.cons {tag : String} (isTag : IsTag tag) :
    ∃ c cs, tag.toList = c :: cs ∧ isNameHead c = true ∧ ∀ d ∈ cs, isNameTail d = true := by
  obtain ⟨⟨c, first, letter⟩, tail⟩ := isTag
  have is := List.eq_cons_of_mem_head? first
  refine ⟨c, tag.toList.tail, is, letter, fun d here => ?_⟩
  rw [isNameTail, Bool.or_eq_true, beq_iff_eq]
  exact tail d here

theorem IsTag.not_mem {tag : String} (isTag : IsTag tag) {c : Char} (other : isNameTail c = false) : c ∉ tag.toList := by
  obtain ⟨d, ds, is, letter, all⟩ := isTag.cons
  intro here
  rcases List.mem_cons.mp (is ▸ here) with rfl | here
  · have alphanumeric : isNameTail c = true := by
      rw [isNameTail, Char.isAlphanum, show c.isAlpha = true from letter]
      rfl
    exact absurd alphanumeric (by simp [other])
  · exact absurd (all c here) (by simp [other])

section Writing

def written : String × Option String → List Char
  | (name, some text) => ' ' :: name.toList ++ '=' :: '"' :: (Entity.escapeChars text.toList ++ ['"'])
  | (name, none) => ' ' :: name.toList

def writtenAll (attributes : List (String × Option String)) : List Char := attributes.flatMap written

def opening (tag : String) (attributes : List (String × Option String)) : List Char :=
  '<' :: tag.toList ++ writtenAll attributes ++ ['>']

theorem writtenAll_append (first second : List (String × Option String)) :
    writtenAll (first ++ second) = writtenAll first ++ writtenAll second :=
  List.flatMap_append

theorem toList_join_written {α : Type} {text : α → String} {attribute? : α → Option (String × Option String)} {all : List α}
    (each : ∀ a ∈ all, (text a).toList = writtenAll (attribute? a).toList) :
    (String.join (all.map text)).toList = writtenAll (all.filterMap attribute?) := by
  induction all with
  | nil => rfl
  | cons a all ih =>
      rw [List.forall_mem_cons] at each
      have split : (a :: all).filterMap attribute? = (attribute? a).toList ++ all.filterMap attribute? := by
        cases is : attribute? a <;> simp [is]
      rw [List.map_cons, String.join_cons, String.toList_append, each.1, ih each.2, split, writtenAll_append]

def unclosed (tag : String) (before : List (String × Option String)) (name : String) (cut : List Char) : List Char :=
  '<' :: tag.toList ++ (writtenAll before ++ ' ' :: (name.toList ++ '=' :: '"' :: cut))

theorem writtenAll_head {attributes : List (String × Option String)} {c : Char} (first : c ∈ (writtenAll attributes).head?) :
    c = ' ' := by
  cases attributes with
  | nil => cases first
  | cons a attributes =>
      rcases a with ⟨name, _ | text⟩ <;> exact (Option.some.inj first).symm

theorem writtenAll_stop {attributes : List (String × Option String)} {c : Char} (stop : isNameTail c = false)
    (rest : List Char) : ∀ d ∈ (writtenAll attributes ++ c :: rest).head?, isNameTail d = false := by
  intro d first
  rw [List.head?_append] at first
  rcases Option.or_eq_some_iff.mp first with first | ⟨_, first⟩
  · rw [writtenAll_head first]
    decide
  · rwa [← Option.some.inj first]

theorem not_mem_writtenAll {attributes : List (String × Option String)} (names : ∀ a ∈ attributes, IsName a.1) {c : Char}
    (other : c ∉ [' ', '=', '"'] ∧ isAttributeName c = false)
    (texts : ∀ name text, (name, some text) ∈ attributes → c ∉ Entity.escapeChars text.toList) :
    c ∉ writtenAll attributes := by
  intro here
  obtain ⟨⟨name, value⟩, member, here⟩ := List.mem_flatMap.mp here
  simp only [List.mem_cons, List.not_mem_nil, or_false, not_or] at other
  have outside : c ∉ name.toList := fun inside => by
    have named := isAttributeName_iff.mpr ((names (name, value) member).free c inside)
    exact absurd named (by simp [other.2])
  cases value with
  | none => exact (List.mem_cons.mp here).elim other.1.1 outside
  | some text =>
      simp only [written, List.cons_append, List.mem_cons, List.mem_append, List.not_mem_nil, or_false] at here
      rcases here with blank | inside | equals | quote | inside | quote
      · exact other.1.1 blank
      · exact outside inside
      · exact other.1.2.1 equals
      · exact other.1.2.2 quote
      · exact texts name text member inside
      · exact other.1.2.2 quote

def breaks (a : String × Option String) : Bool := a.2.any fun text => text.toList.contains '\n'

theorem breaks_iff {a : String × Option String} {text : String} (is : a.2 = some text) :
    breaks a = true ↔ '\n' ∈ text.toList := by
  rw [breaks, is, Option.any_some, List.contains_iff_mem]

theorem breaks_eq_false_iff {a : String × Option String} {text : String} (is : a.2 = some text) :
    breaks a = false ↔ '\n' ∉ text.toList := by
  rw [← Bool.not_eq_true, breaks_iff is]

theorem line_feed_not_mem_writtenAll {attributes : List (String × Option String)} (names : ∀ a ∈ attributes, IsName a.1)
    (whole : ∀ a ∈ attributes, breaks a = false) : '\n' ∉ writtenAll attributes := by
  refine not_mem_writtenAll names (by decide) fun name text member here => ?_
  exact (breaks_eq_false_iff rfl).mp (whole (name, some text) member) (Entity.line_feed_mem_escapeChars.mp here)

end Writing

section Extent

def before (passed : List Char) (split : List Char × List Char) : List Char × List Char := (passed ++ split.1, split.2)

theorem before_nil (split : Option (List Char × List Char)) : split.map (before []) = split := Option.map_id'

theorem before_before (first second : List Char) (split : Option (List Char × List Char)) :
    (split.map (before second)).map (before first) = split.map (before (first ++ second)) := by
  rw [Option.map_map]
  congr 1
  funext split
  simp [before]

theorem body?_cons {c : Char} (inside : c ≠ '>') (rest : List Char) :
    body? none (c :: rest) = (body? (if c = '"' ∨ c = '\'' then some c else none) rest).map (before [c]) := by
  simp only [body?, if_neg inside]
  rfl

theorem body?_inside (q c : Char) (rest : List Char) :
    body? (some q) (c :: rest) = (body? (if c = q then none else some q) rest).map (before [c]) := rfl

theorem body?_plain {passed : List Char} (plain : ∀ c ∈ passed, c ∉ ['>', '"', '\'']) (rest : List Char) :
    body? none (passed ++ rest) = (body? none rest).map (before passed) := by
  induction passed with
  | nil => exact (before_nil _).symm
  | cons c passed ih =>
      rw [List.forall_mem_cons] at plain
      obtain ⟨here, others⟩ := plain
      simp only [List.mem_cons, List.not_mem_nil, or_false, not_or] at here
      have unquoted : ¬ (c = '"' ∨ c = '\'') := fun quote => quote.elim here.2.1 here.2.2
      rw [List.cons_append, body?_cons here.1, if_neg unquoted, ih others, before_before, List.singleton_append]

theorem body?_quoted {q : Char} {passed : List Char} (inside : q ∉ passed) (rest : List Char) :
    body? (some q) (passed ++ rest) = (body? (some q) rest).map (before passed) := by
  induction passed with
  | nil => exact (before_nil _).symm
  | cons c passed ih =>
      rw [List.mem_cons, not_or] at inside
      rw [List.cons_append, body?_inside, if_neg (Ne.symm inside.1), ih inside.2, before_before, List.singleton_append]

theorem body?_unclosed {q : Char} {passed : List Char} (inside : q ∉ passed) : body? (some q) passed = none := by
  have all := body?_quoted inside []
  rwa [List.append_nil] at all

theorem body?_name {name : String} (isName : IsName name) (rest : List Char) :
    body? none (' ' :: name.toList ++ rest) = (body? none rest).map (before (' ' :: name.toList)) := by
  refine body?_plain (fun c here => ?_) rest
  rcases List.mem_cons.mp here with rfl | here
  · decide
  · exact fun bad => (isName.free c here).2 (List.mem_cons_of_mem '=' (List.mem_cons_of_mem '/' bad))

theorem body?_value (rest : List Char) :
    body? none ('=' :: '"' :: rest) = (body? (some '"') rest).map (before ['=', '"']) := by
  rw [body?_cons (by decide), if_neg (by decide), body?_cons (by decide), if_pos (by decide), before_before]
  rfl

theorem body?_written {a : String × Option String} (isName : IsName a.1) (rest : List Char) :
    body? none (written a ++ rest) = (body? none rest).map (before (written a)) := by
  rcases a with ⟨name, _ | text⟩
  · exact body?_name isName rest
  · have quoted : '"' ∉ Entity.escapeChars text.toList := Entity.not_mem_escapeChars (by decide) text.toList
    simp only [written, List.append_assoc, List.cons_append, List.nil_append]
    rw [← List.cons_append, body?_name isName, body?_value, body?_quoted quoted, body?_inside, if_pos rfl]
    simp only [before_before]
    simp

theorem body?_writtenAll {attributes : List (String × Option String)} (names : ∀ a ∈ attributes, IsName a.1)
    (rest : List Char) :
    body? none (writtenAll attributes ++ rest) = (body? none rest).map (before (writtenAll attributes)) := by
  induction attributes with
  | nil => exact (before_nil _).symm
  | cons a attributes ih =>
      rw [List.forall_mem_cons] at names
      rw [writtenAll, List.flatMap_cons, ← writtenAll, List.append_assoc, body?_written names.1, ih names.2, before_before]

theorem body?_extent {quote : Option Char} {cs attrs rest : List Char} (read : body? quote cs = some (attrs, rest)) :
    cs = attrs ++ '>' :: rest ∧ ∀ more, body? quote (attrs ++ '>' :: more) = some (attrs, more) := by
  induction cs generalizing quote attrs with
  | nil => cases read
  | cons c cs ih =>
      cases quote with
      | some q =>
          obtain ⟨⟨inner, behind⟩, inside, same⟩ := Option.map_eq_some_iff.mp read
          obtain ⟨rfl, rfl⟩ := Prod.mk.inj same
          obtain ⟨rfl, again⟩ := ih inside
          refine ⟨rfl, fun more => ?_⟩
          rw [List.cons_append, body?_inside, again more, Option.map_some]
          rfl
      | none =>
          by_cases closes : c = '>'
          · subst closes
            rw [body?, if_pos rfl] at read
            obtain ⟨rfl, rfl⟩ := Prod.mk.inj (Option.some.inj read)
            exact ⟨rfl, fun more => rfl⟩
          · rw [body?_cons closes] at read
            obtain ⟨⟨inner, behind⟩, inside, same⟩ := Option.map_eq_some_iff.mp read
            obtain ⟨rfl, rfl⟩ := Prod.mk.inj same
            obtain ⟨rfl, again⟩ := ih inside
            refine ⟨rfl, fun more => ?_⟩
            rw [List.singleton_append, List.cons_append, body?_cons closes, again more, Option.map_some]
            rfl

theorem read?_blank {before : List Char} (blank : ∀ c ∈ before, Text.isBlank c = true) (cs : List Char) :
    read? (before ++ cs) = read? cs := by
  rw [read?, read?, Text.trimStart, Text.trimStart, List.dropWhile_append_of_pos blank]

theorem read?_extent {cs rest : List Char} {found : OpenTag} (read : read? cs = some (found, rest)) :
    ∃ passed, cs = passed ++ '>' :: rest ∧ ∀ more, read? (passed ++ '>' :: more) = some (found, more) := by
  rw [read?] at read
  split at read
  next c named start =>
    split at read
    next letter =>
      obtain ⟨⟨attrs, behind⟩, body, same⟩ := Option.map_eq_some_iff.mp read
      obtain ⟨rfl, rfl⟩ := Prod.mk.inj same
      obtain ⟨ends, again⟩ := body?_extent body
      have blanks : cs = cs.takeWhile Text.isBlank ++ '<' :: c :: named := by
        rw [← start, Text.trimStart, List.takeWhile_append_dropWhile]
      have name : named = named.takeWhile isNameTail ++ (attrs ++ '>' :: behind) := by
        rw [← ends, List.takeWhile_append_dropWhile]
      have stop (more : List Char) : ∀ d ∈ (attrs ++ '>' :: more).head?, isNameTail d = false := by
        intro d first
        cases attrs with
        | nil =>
            obtain rfl : '>' = d := Option.some.inj first
            rfl
        | cons a attrs =>
            obtain rfl : a = d := Option.some.inj first
            have headed := List.head?_dropWhile_not isNameTail named
            rw [ends] at headed
            simpa using headed
      refine ⟨cs.takeWhile Text.isBlank ++ '<' :: c :: (named.takeWhile isNameTail ++ attrs), ?_, fun more => ?_⟩
      · rw [List.append_assoc, List.cons_append, List.cons_append, List.append_assoc, ← name, ← blanks]
      · have opens : Text.trimStart (cs.takeWhile Text.isBlank ++
            '<' :: c :: (named.takeWhile isNameTail ++ (attrs ++ '>' :: more))) =
              '<' :: c :: (named.takeWhile isNameTail ++ (attrs ++ '>' :: more)) :=
          Text.dropWhile_append (fun d here => List.mem_takeWhile_imp here) fun d first => by
            obtain rfl : '<' = d := Option.some.inj first
            rfl
        have all : ∀ d ∈ named.takeWhile isNameTail, isNameTail d = true := fun d here => List.mem_takeWhile_imp here
        simp only [List.append_assoc, List.cons_append]
        rw [read?, opens]
        simp only [letter, if_true, Text.takeWhile_append all (stop more), Text.dropWhile_append all (stop more),
          again more, Option.map_some]
    next => cases read
  next => cases read

end Extent

section Attributes

theorem attribute?_blank (cs : List Char) : attribute? (' ' :: cs) = none := by
  have none : (' ' :: cs).takeWhile isAttributeName = [] := List.takeWhile_cons_of_neg (by decide)
  simp only [attribute?, none, List.isEmpty_nil, if_true]

theorem value?_text (text rest : List Char) :
    value? ('=' :: '"' :: (Entity.escapeChars text ++ '"' :: rest)) = some (Entity.escapeChars text, rest) := by
  have quoted : '"' ∉ Entity.escapeChars text := Entity.not_mem_escapeChars (by decide) text
  have cut := Text.cutFirst?_char rest quoted
  have mark (cs : List Char) : Text.trimStart ('=' :: cs) = '=' :: cs := List.dropWhile_cons_of_neg (by decide)
  have quote (cs : List Char) : Text.trimStart ('"' :: cs) = '"' :: cs := List.dropWhile_cons_of_neg (by decide)
  simp only [value?, mark, quote, true_or, if_true, quoted?, cut]

-- An attribute without text ends at the blank before the next name, which is no equals sign.
theorem value?_writtenAll {attributes : List (String × Option String)} (names : ∀ a ∈ attributes, IsName a.1) :
    value? (writtenAll attributes) = none := by
  cases attributes with
  | nil => rfl
  | cons a attributes =>
      obtain ⟨c, cs, is, free⟩ := (names a List.mem_cons_self).cons
      obtain ⟨solid, plain⟩ := isAttributeName_iff.mp (free c (is ▸ List.mem_cons_self))
      have other : c ≠ '=' := fun same => plain (same ▸ List.mem_cons_self)
      have text : ∃ rest, writtenAll (a :: attributes) = ' ' :: c :: rest := by
        rw [writtenAll, List.flatMap_cons]
        rcases a with ⟨name, _ | text⟩ <;> simp only [written, is, List.cons_append] <;> exact ⟨_, rfl⟩
      obtain ⟨rest, text⟩ := text
      have trimmed : Text.trimStart (' ' :: c :: rest) = c :: rest := by
        rw [Text.trimStart, List.dropWhile_cons_of_pos (by decide), List.dropWhile_cons_of_neg (by simp [solid])]
      rw [text, value?, trimmed]
      split
      next same => exact absurd (List.cons.inj same).1 other
      next => rfl

theorem attribute?_written {name : String} {value : Option String} {attributes : List (String × Option String)}
    (isName : IsName name) (names : ∀ a ∈ attributes, IsName a.1) {behind : List Char}
    (is : written (name, value) ++ writtenAll attributes = ' ' :: name.toList ++ behind) :
    attribute? (name.toList ++ behind) = some ((name, value), writtenAll attributes) := by
  obtain ⟨c, cs, chars, all⟩ := isName.cons
  have occupied : name.toList.isEmpty = false := by rw [chars]; rfl
  have stop : ∀ d ∈ behind.head?, isAttributeName d = false := by
    intro d first
    cases value with
    | none =>
        rw [List.append_cancel_left is.symm] at first
        rw [writtenAll_head first]
        decide
    | some text =>
        simp only [written, List.append_assoc, List.append_cancel_left_eq] at is
        rw [← is] at first
        rw [← Option.some.inj first]
        decide
  rw [attribute?, Text.takeWhile_append all stop, Text.dropWhile_append all stop]
  simp only [occupied, Bool.false_eq_true, if_false, String.ofList_toList]
  cases value with
  | none =>
      rw [List.append_cancel_left is.symm, value?_writtenAll names]
  | some text =>
      simp only [written, List.append_assoc, List.append_cancel_left_eq] at is
      rw [← is]
      simp only [List.cons_append, List.append_assoc, List.nil_append, value?_text, Entity.decodeChars_escapeChars,
        String.ofList_toList]

theorem findAll_writtenAll {attributes : List (String × Option String)} (names : ∀ a ∈ attributes, IsName a.1) :
    Text.findAll attribute? (writtenAll attributes) = attributes := by
  induction attributes with
  | nil => rfl
  | cons a attributes ih =>
      rcases a with ⟨name, value⟩
      rw [List.forall_mem_cons] at names
      obtain ⟨isName, names⟩ := names
      obtain ⟨c, cs, chars, _⟩ := isName.cons
      have text : ∃ behind, written (name, value) = ' ' :: name.toList ++ behind := by
        cases value with
        | none => exact ⟨[], (List.append_nil _).symm⟩
        | some text => exact ⟨_, rfl⟩
      obtain ⟨behind, text⟩ := text
      have all : written (name, value) ++ writtenAll attributes = ' ' :: name.toList ++ (behind ++ writtenAll attributes) := by
        rw [text, List.append_assoc]
      have found := attribute?_written isName names all
      rw [← List.append_assoc, chars, List.cons_append] at found
      rw [writtenAll, List.flatMap_cons, ← writtenAll, text, chars]
      simp only [List.cons_append]
      rw [Text.findAll_skip (attribute?_blank _), ← List.cons_append, Text.findAll_found found, ih names]

end Attributes

section Reading

variable {tag : String} {attributes : List (String × Option String)} (isTag : IsTag tag)
  (names : ∀ a ∈ attributes, IsName a.1)

include isTag

-- The name ends where no character of a name follows; the rest is for `body?`.
theorem read?_tag {behind : List Char} (stop : ∀ c ∈ behind.head?, isNameTail c = false) :
    read? ('<' :: tag.toList ++ behind) =
      (body? none behind).map fun (attrs, rest) => (⟨tag, Text.findAll attribute? attrs⟩, rest) := by
  obtain ⟨c, cs, is, letter, all⟩ := isTag.cons
  have start (ds : List Char) : Text.trimStart ('<' :: ds) = '<' :: ds := List.dropWhile_cons_of_neg (by decide)
  rw [is, List.cons_append, List.cons_append, read?, start]
  simp only [letter, if_true, Text.takeWhile_append all stop, Text.dropWhile_append all stop]
  rw [← is, String.ofList_toList]

include names

theorem read?_opening (rest : List Char) : read? (opening tag attributes ++ rest) = some (⟨tag, attributes⟩, rest) := by
  have body : body? none (writtenAll attributes ++ '>' :: rest) = some (writtenAll attributes, rest) := by
    rw [body?_writtenAll names, body?, if_pos rfl, Option.map_some, before, List.append_nil]
  rw [opening, List.append_assoc, List.append_assoc, List.singleton_append, read?_tag isTag (writtenAll_stop rfl rest),
    body, Option.map_some]
  simp only [findAll_writtenAll names]

theorem read?_unclosed {name : String} (isName : IsName name) {cut : List Char} (inside : '"' ∉ cut) :
    read? (unclosed tag attributes name cut) = none := by
  rw [unclosed, read?_tag isTag (writtenAll_stop rfl _), body?_writtenAll names, ← List.cons_append, body?_name isName,
    body?_value, body?_unclosed inside]
  rfl

section Lines

theorem line_feed_not_mem_opening (whole : ∀ a ∈ attributes, breaks a = false) : '\n' ∉ opening tag attributes := by
  have inside := line_feed_not_mem_writtenAll names whole
  simp only [opening, List.mem_append, List.mem_cons, not_or]
  exact ⟨⟨⟨by decide, isTag.not_mem rfl⟩, inside⟩, by decide, by simp⟩

theorem opening_breaks {a : String × Option String} (member : a ∈ attributes) (broken : breaks a = true) :
    ∃ before name cut behind, (∀ a ∈ before, IsName a.1) ∧ IsName name ∧ '"' ∉ cut ∧
      opening tag attributes = unclosed tag before name cut ++ '\n' :: behind ∧ '\n' ∉ unclosed tag before name cut := by
  obtain ⟨⟨name, value⟩, found⟩ := Option.isSome_iff_exists.mp (List.find?_isSome.mpr ⟨a, member, broken⟩)
  obtain ⟨broken, before, after, rfl, whole⟩ := List.find?_eq_some_iff_append.mp found
  obtain ⟨text, rfl, -⟩ := (Option.any_eq_true _ _).mp broken
  obtain ⟨cut, more, split, single⟩ :=
    List.eq_append_cons_of_mem (Entity.line_feed_mem_escapeChars.mpr ((breaks_iff rfl).mp broken))
  rw [List.forall_mem_append, List.forall_mem_cons] at names
  obtain ⟨namesBefore, isName, -⟩ := names
  refine ⟨before, name, cut, more ++ '"' :: (writtenAll after ++ ['>']), namesBefore, isName, ?_, ?_, ?_⟩
  · have quoted : '"' ∉ Entity.escapeChars text.toList := Entity.not_mem_escapeChars (by decide) text.toList
    exact fun inside => quoted (split ▸ List.mem_append_left _ inside)
  · simp only [opening, unclosed, writtenAll, List.flatMap_append, List.flatMap_cons, written, split, List.append_assoc,
      List.cons_append, List.nil_append]
  · have inside := line_feed_not_mem_writtenAll namesBefore fun a member => by simpa using whole a member
    have outside : '\n' ∉ name.toList := fun here => absurd (isName.free '\n' here).1 (by decide)
    simp only [unclosed, List.cons_append, List.mem_append, List.mem_cons, not_or]
    exact ⟨by decide, isTag.not_mem rfl, inside, by decide, outside, by decide, by decide, single⟩

end Lines

end Reading

theorem isName_of_attribute? {cs rest : List Char} {a : String × Option String}
    (read : attribute? cs = some (a, rest)) : IsName a.1 := by
  rw [attribute?] at read
  split at read
  next => cases read
  next occupied =>
    have name : a.1 = String.ofList (cs.takeWhile isAttributeName) := by
      dsimp only at read
      split at read <;> rw [← (Prod.mk.inj (Option.some.inj read)).1]
    have chars : a.1.toList = cs.takeWhile isAttributeName := by rw [name, String.toList_ofList]
    refine ⟨fun empty => occupied ?_, fun c here => ?_⟩
    · rw [← chars, empty]
      rfl
    · rw [chars] at here
      exact isAttributeName_iff.mp (List.mem_takeWhile_imp here)

theorem read?_named {cs rest : List Char} {found : OpenTag} (read : read? cs = some (found, rest)) :
    IsTag found.name ∧ ∀ a ∈ found.attributes, IsName a.1 := by
  rw [read?] at read
  split at read
  next c cs _ =>
    split at read
    next letter =>
      obtain ⟨⟨attrs, behind⟩, _, result⟩ := Option.map_eq_some_iff.mp read
      obtain ⟨rfl, -⟩ := Prod.mk.inj result
      refine ⟨⟨⟨c, by simp, letter⟩, fun d here => ?_⟩, fun a here => ?_⟩
      · simp only [String.toList_ofList, List.tail_cons] at here
        have tail := List.mem_takeWhile_imp here
        rwa [isNameTail, Bool.or_eq_true, beq_iff_eq] at tail
      · obtain ⟨_, _, item⟩ := Text.mem_findFrom here
        exact isName_of_attribute? item
    next => cases read
  next => cases read

end Prerender.Markup.OpenTag
