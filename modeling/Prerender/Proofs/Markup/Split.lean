import Prerender.Markup.Split
import Prerender.Proofs.Markup.OpenTag

set_option autoImplicit false

namespace Prerender.Markup

def linesOf (part : List Char) : List (List Char) :=
  (Text.splitOn (· == '\n') part).map (Text.dropEndWhile (· == '\r'))

def trimmed (line : List Char) : List Char := Text.dropEndWhile (· == '\r') line

theorem linesOf_single {line : List Char} (single : '\n' ∉ line) : linesOf line = [trimmed line] := by
  have whole : Text.splitOn (· == '\n') line = [line] :=
    Text.splitOn_of_none fun c here => beq_eq_false_iff_ne.mpr fun same => single (same ▸ here)
  rw [linesOf, whole]
  rfl

theorem trimmed_eq {line : List Char} (ends : ∀ c ∈ line.getLast?, c ≠ '\r') : trimmed line = line :=
  Text.dropEndWhile_eq fun c last => beq_eq_false_iff_ne.mpr (ends c last)

theorem linesOf_line {line : List Char} (single : '\n' ∉ line) (ends : ∀ c ∈ line.getLast?, c ≠ '\r') :
    linesOf line = [line] := by
  rw [linesOf_single single, trimmed_eq ends]

-- The tags that are looked for end with `>`, so that carriage returns behind them do not matter.
theorem contains_trimmed (before line : List Char) :
    Text.contains (before ++ ['>']) (trimmed line) = Text.contains (before ++ ['>']) line :=
  Text.contains_dropEndWhile rfl line

theorem closeTag_trimmed (tag : String) (line : List Char) :
    Text.contains (closeTag tag) (trimmed line) = Text.contains (closeTag tag) line := contains_trimmed _ line

theorem templateClose_trimmed (line : List Char) :
    Text.contains templateClose (trimmed line) = Text.contains templateClose line :=
  contains_trimmed "</template".toList line

theorem templateOpen_trimmed (line : List Char) :
    Text.contains templateOpen (trimmed line) = Text.contains templateOpen line :=
  contains_trimmed "<template shadowrootmode=\"open\"".toList line

theorem read?_trimmed {line rest : List Char} {host : OpenTag} (read : OpenTag.read? line = some (host, rest)) :
    OpenTag.read? (trimmed line) = some (host, trimmed rest) := by
  obtain ⟨passed, rfl, again⟩ := OpenTag.read?_extent read
  rw [trimmed, Text.dropEndWhile_append rfl]
  exact again _

theorem linesOf_tag {before : List Char} (single : '\n' ∉ before) : linesOf (before ++ ['>']) = [before ++ ['>']] := by
  refine linesOf_line (by simpa using single) fun c last => ?_
  rw [List.getLast?_concat] at last
  obtain rfl : '>' = c := Option.some.inj last
  decide

theorem linesOf_break {before : List Char} (single : '\n' ∉ before) (behind : List Char) :
    linesOf (before ++ '\n' :: behind) = Text.dropEndWhile (· == '\r') before :: linesOf behind := by
  have whole : Text.splitOn (· == '\n') before = [before] :=
    Text.splitOn_of_none fun c here => beq_eq_false_iff_ne.mpr fun same => single (same ▸ here)
  rw [linesOf, Text.splitOn_append rfl, whole]
  rfl

theorem mem_of_mem_linesOf {part line : List Char} {c : Char} (one : line ∈ linesOf part) (here : c ∈ line) : c ∈ part := by
  obtain ⟨piece, member, rfl⟩ := List.mem_map.mp one
  exact Text.mem_of_mem_splitOn member (Text.mem_of_mem_dropEndWhile here)

theorem lines_of_parts {text : String} {parts : List (List Char)} (is : text.toList = Text.join ['\n'] parts)
    (some : parts ≠ []) (first : ∀ c ∈ text.toList.head?, c ≠ '\n') (last : ∀ c ∈ text.toList.getLast?, c ≠ '\n') :
    lines text = parts.flatMap linesOf := by
  have start : text.toList.dropWhile (· == '\n') = text.toList := by
    cases chars : text.toList with
    | nil => rfl
    | cons c cs => rw [List.dropWhile_cons_of_neg (by simpa using first c (by rw [chars]; rfl))]
  have stop := Text.dropEndWhile_eq (p := (· == '\n')) fun c here => beq_eq_false_iff_ne.mpr (last c here)
  simp only [lines, start, stop]
  rw [is, Text.splitOn_join (c := '\n') rfl some, List.map_flatMap]
  rfl

theorem contains_closeTag_iff {tag other : String} (isTag : OpenTag.IsTag tag) (isOther : OpenTag.IsTag other) :
    Text.contains (closeTag other) (closeTag tag) = true ↔ tag = other := by
  rw [Text.contains_iff]
  refine ⟨fun found => ?_, fun same => same ▸ List.infix_refl _⟩
  have cut (name : String) (isName : OpenTag.IsTag name) (behind : List Char) :
      Text.cutFirst? ['>'] (closeTag name ++ behind) = some ('<' :: '/' :: name.toList, behind) := by
    have once : '>' ∉ '<' :: '/' :: name.toList := by simpa using isName.not_mem (c := '>') rfl
    rw [closeTag, List.append_assoc]
    exact Text.cutFirst?_char behind once
  rcases List.infix_cons_iff.mp found with ⟨behind, is⟩ | later
  · have read := cut tag isTag []
    have same : closeTag tag = closeTag other ++ behind := is.symm
    rw [List.append_nil, same, cut other isOther behind] at read
    obtain ⟨names, -⟩ := Prod.mk.inj (Option.some.inj read)
    exact (String.toList_inj.mp (List.cons.inj (List.cons.inj names).2).2).symm
  · have missing : '<' ∉ '/' :: tag.toList ++ ['>'] := by simpa using isTag.not_mem (c := '<') rfl
    exact absurd (later.subset List.mem_cons_self) missing

theorem of_split_ok {html tag : String} {serialization : Serialization} {markup : Markup}
    (ok : split html tag serialization = .ok markup) :
    ∃ first others rest host, lines html = first :: others ∧ OpenTag.read? first = some (host, rest) ∧ host.name = tag ∧
      ((∃ second below i, others = second :: below ∧ Text.contains templateOpen second = true ∧
          Text.lastIndex? (Text.contains templateClose) (lines html) = some i ∧ 1 ≤ i ∧
          markup = .shadow host (if i = 1 then String.ofList (between templateOpen templateClose second)
            else joinLines (((lines html).take i).drop 2))) ∨
        ∃ i, Text.lastIndex? (Text.contains (closeTag tag)) (lines html) = some i ∧
          markup = .scoped host (if i = 0 then String.ofList (inlineContent (closeTag tag) first)
            else joinLines (((lines html).take i).drop 1))) := by
  obtain ⟨first, others, is⟩ : ∃ first others, lines html = first :: others :=
    List.exists_cons_of_ne_nil (by rw [lines]; exact List.map_eq_nil_iff.not.mpr (Text.splitOn_ne_nil _ _))
  simp only [split, is, List.headD_cons] at ok
  split at ok
  next => cases ok
  next host rest opens =>
    obtain ⟨read, named⟩ := Option.filter_eq_some_iff.mp opens
    refine ⟨first, others, rest, host, is, read, by simpa using named, ?_⟩
    split at ok
    next => cases ok
    next closeLine closes =>
      rw [is]
      split at ok
      next template =>
        obtain ⟨-, template⟩ := Bool.and_eq_true_iff.mp template
        cases others with
        | nil => cases template
        | cons second below =>
            split at ok
            next => cases ok
            next i ends =>
              split at ok
              next within =>
                exact .inl ⟨second, below, i, rfl, template, ends, within.1, (Except.ok.inj ok).symm⟩
              next => cases ok
      next => exact .inr ⟨closeLine, closes, (Except.ok.inj ok).symm⟩

section Split

variable {html tag : String} {first : List Char} {rest : List Char} {host : OpenTag}

theorem split_unopened {others : List (List Char)} (serialization : Serialization) (is : lines html = first :: others)
    (unread : OpenTag.read? first = none) :
    split html tag serialization = .error (.missingOpenTag tag (String.ofList first)) := by
  simp only [split, is, List.headD_cons, unread, Option.filter_none]

theorem split_inline {line : List Char} (serialization : Serialization) (is : lines html = [line])
    (opens : OpenTag.read? line = some (host, rest)) (named : host.name = tag)
    (closes : Text.contains (closeTag tag) line = true) :
    split html tag serialization = .ok (.scoped host (String.ofList (inlineContent (closeTag tag) line))) := by
  have read : (some (host, rest)).filter (fun found => found.1.name == tag) = some (host, rest) := by
    simp [named]
  have close : Text.lastIndex? (Text.contains (closeTag tag)) [line] = some 0 := Text.lastIndex?_append [] closes nofun
  have second : Text.contains templateOpen (([line][1]?).getD []) = false := rfl
  simp only [split, is, List.headD_cons, opens, read, close, second, Bool.and_false, Bool.false_eq_true, if_false, if_true]

-- The lines behind the host's opening tag, of which the last one closes it.
variable {inner : List (List Char)} {last : List Char} (is : lines html = first :: (inner ++ [last]))
  (opens : OpenTag.read? first = some (host, rest)) (named : host.name = tag)
  (closes : Text.contains (closeTag tag) last = true)

include is opens named closes

theorem split_closed (serialization : Serialization) :
    split html tag serialization =
      if serialization = .declarative && Text.contains templateOpen ((inner ++ [last]).headD []) then
        match Text.lastIndex? (Text.contains templateClose) (first :: (inner ++ [last])) with
        | none => .error .missingTemplateClose
        | some i =>
            if 1 ≤ i ∧ i ≤ inner.length + 1 then
              .ok <| .shadow host <|
                if i = 1 then String.ofList (between templateOpen templateClose ((inner ++ [last]).headD []))
                else joinLines (((first :: (inner ++ [last])).take i).drop 2)
            else .error .missingTemplateClose
      else .ok (.scoped host (joinLines inner)) := by
  have read : (some (host, rest)).filter (fun found => found.1.name == tag) = some (host, rest) := by
    simp [named]
  have close : Text.lastIndex? (Text.contains (closeTag tag)) (first :: inner ++ [last]) = some (inner.length + 1) :=
    Text.lastIndex?_append (first :: inner) closes (by simp)
  have second : ((first :: (inner ++ [last]))[1]?).getD [] = (inner ++ [last]).headD [] := by
    cases inner <;> rfl
  have content : ((first :: (inner ++ [last])).take (inner.length + 1)).drop 1 = inner := by
    rw [← List.cons_append, List.take_left' (by simp)]
    rfl
  rw [List.cons_append] at close
  cases ends : Text.lastIndex? (Text.contains templateClose) (first :: (inner ++ [last])) <;>
    simp only [split, is, List.headD_cons, opens, read, close, second, content, ends, Nat.add_one_ne_zero, if_false]

theorem split_unshadowed {serialization : Serialization} (other : serialization ≠ .declarative) :
    split html tag serialization = .ok (.scoped host (joinLines inner)) := by
  rw [split_closed is opens named closes, if_neg (by simp [other])]

theorem split_shadowed {i : Nat} (template : Text.contains templateOpen ((inner ++ [last]).headD []) = true)
    (ends : Text.lastIndex? (Text.contains templateClose) (first :: (inner ++ [last])) = some i)
    (behind : 2 ≤ i) (within : i ≤ inner.length + 1) :
    split html tag .declarative = .ok (.shadow host (joinLines (((first :: (inner ++ [last])).take i).drop 2))) := by
  have several : i ≠ 1 := by omega
  rw [split_closed is opens named closes, if_pos (by simpa using template), ends]
  simp only [if_pos (And.intro (Nat.le_of_succ_le behind) within), if_neg several]

end Split

end Prerender.Markup
