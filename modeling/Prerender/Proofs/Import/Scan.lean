import Prerender.Proofs.Import.Layout

set_option autoImplicit false

namespace Prerender.Import

open Text (after? isBlank isIdentifierPart trim trimStart)

def isStop (c : Char) : Bool := c == ';' || isQuote c || c == '(' || c == ')'

theorem solid_of_quote {c : Char} (quoted : isQuote c = true) : isBlank c = false := by
  have mark := mem_quotes quoted
  have solid : ∀ c ∈ ['"', '\''], isBlank c = false := by decide
  exact solid c mark

theorem eq_append_trimStart (cs : List Char) : ∃ front, (∀ c ∈ front, isBlank c = true) ∧ cs = front ++ trimStart cs :=
  ⟨cs.takeWhile isBlank, fun _ here => List.mem_takeWhile_imp here, List.takeWhile_append_dropWhile.symm⟩

theorem eq_of_source? {cs : List Char} {found : List Char × List Char} (read : source? cs = some found) :
    ∃ front behind quote tail, (∀ c ∈ front, isBlank c = true) ∧ (∀ c ∈ behind, isBlank c = true) ∧
      isQuote quote = true ∧ cs = front ++ ("from".toList ++ behind) ++ quote :: tail := by
  obtain ⟨front, front_blank, is⟩ := eq_append_trimStart cs
  unfold source? at read
  split at read
  next => cases read
  next more after_word =>
    obtain ⟨behind, behind_blank, more_is⟩ := eq_append_trimStart more
    split at read
    next => cases read
    next quote tail trimmed =>
      dsimp only at read
      split at read
      next quoted =>
        refine ⟨front, behind, quote, tail, front_blank, behind_blank, (Bool.and_eq_true_iff.mp quoted).1, ?_⟩
        rw [is, Text.eq_append_of_after? after_word, more_is, trimmed]
        simp
      next => cases read

variable (layout : Layout) {rest : List Char}

theorem source?_source {front : List Char} (blank : ∀ c ∈ front, isBlank c = true) :
    source? (front ++ (layout.source ++ rest)) = some (layout.specifier, rest) := by
  have word : trimStart (front ++ (layout.source ++ rest)) = layout.source ++ rest :=
    Text.dropWhile_append blank (by rintro c ⟨⟩; decide)
  have quoted := layout.quoted
  have solid := solid_of_quote quoted
  have trimmed : trimStart (layout.gap.text ++ layout.quote :: (layout.specifier ++ layout.quote :: rest)) =
      layout.quote :: (layout.specifier ++ layout.quote :: rest) :=
    Text.dropWhile_append layout.gap.blank (by rintro c ⟨⟩; exact solid)
  have inside : ∀ c ∈ layout.specifier, (!isQuote c) = true := fun c here => by rw [(layout.plain c here).1]; rfl
  have stop : ∀ c ∈ (layout.quote :: rest).head?, (!isQuote c) = false := by rintro c ⟨⟩; rw [quoted]; rfl
  rw [source?, word, layout.source_append]
  simp only [Text.after?_append, trimmed, Text.takeWhile_append inside stop, Text.dropWhile_append inside stop, quoted,
    Bool.true_and, Bool.not_eq_true', List.isEmpty_eq_false_iff, if_pos layout.some]

-- In front of a clause that has not ended there is no source: what is not blank would have to be the word itself.
theorem source?_body {body : List Char} (unquoted : ∀ c ∈ body, isQuote c = false)
    (solid : ¬ ∀ c ∈ body, isBlank c = true) : source? (body ++ (layout.source ++ rest)) = none := by
  cases read : source? (body ++ (layout.source ++ rest)) with
  | none => rfl
  | some found =>
      obtain ⟨front, behind, quote, tail, front_blank, behind_blank, quoted, is⟩ := eq_of_source? read
      have blank_plain {c : Char} (blank : isBlank c = true) : (!isQuote c) = true := by
        cases quoted : isQuote c with
        | false => rfl
        | true => rw [solid_of_quote quoted] at blank; cases blank
      have word_plain : ∀ c ∈ "from".toList, (!isQuote c) = true := by decide
      have stop {quote : Char} {tail : List Char} (quoted : isQuote quote = true) :
          ∀ c ∈ (quote :: tail).head?, (!isQuote c) = false := by rintro c ⟨⟩; rw [quoted]; rfl
      have whole : body ++ (layout.source ++ rest) =
          body ++ ("from".toList ++ layout.gap.text) ++ layout.quote :: (layout.specifier ++ layout.quote :: rest) := by
        simp only [layout.source_append, List.append_assoc]
      have same : body ++ ("from".toList ++ layout.gap.text) = front ++ ("from".toList ++ behind) := by
        have cut := congrArg (List.takeWhile (!isQuote ·)) (whole.symm.trans is)
        rwa [Text.takeWhile_append _ (stop layout.quoted), Text.takeWhile_append _ (stop quoted)] at cut
        · exact List.forall_mem_append.mpr ⟨fun c here => blank_plain (front_blank c here),
            List.forall_mem_append.mpr ⟨word_plain, fun c here => blank_plain (behind_blank c here)⟩⟩
        · exact List.forall_mem_append.mpr ⟨fun c here => by rw [unquoted c here]; rfl,
            List.forall_mem_append.mpr ⟨word_plain, fun c here => blank_plain (layout.gap.blank c here)⟩⟩
      have none_of {cs : List Char} (blank : ∀ c ∈ cs, isBlank c = true) : cs.filter (!isBlank ·) = [] :=
        List.filter_eq_nil_iff.mpr fun c here => by simp [blank c here]
      have words := congrArg (List.filter (!isBlank ·)) same
      simp only [List.filter_append, none_of front_blank, none_of behind_blank, none_of layout.gap.blank, List.nil_append,
        List.append_nil, List.append_left_eq_self] at words
      exact absurd (fun c here => by simpa using List.filter_eq_nil_iff.mp words c here) solid

theorem clause?_source {body : List Char} (plain : ∀ c ∈ body, isStop c = false) :
    clause? (body ++ (layout.source ++ rest)) = some ((Text.trimEnd body, layout.specifier), rest) := by
  induction body with
  | nil =>
      have found := @source?_source layout rest [] (List.forall_mem_nil _)
      rw [List.nil_append] at found ⊢
      rw [clause?.eq_def, found]
      rfl
  | cons c body ih =>
      by_cases blank : ∀ d ∈ c :: body, isBlank d = true
      · rw [clause?.eq_def, source?_source layout blank, Text.trimEnd, ← List.nil_append (c :: body),
          Text.dropEndWhile_blank blank]
        rfl
      · have unquoted : ∀ d ∈ c :: body, isQuote d = false := by
          intro d here
          have stop := plain d here
          simp only [isStop, Bool.or_eq_false_iff] at stop
          exact stop.1.1.2
        obtain ⟨here, plain⟩ := List.forall_mem_cons.mp plain
        have ends : Text.trimEnd (c :: body) = c :: Text.trimEnd body := by
          obtain ⟨tail, is, tail_blank⟩ := Text.dropEndWhile_append_tail isBlank body
          rw [Text.trimEnd, Text.dropEndWhile_cons, if_neg]
          · rfl
          · rintro both
            obtain ⟨none, here⟩ := Bool.and_eq_true_iff.mp both
            rw [List.isEmpty_iff.mp none, List.nil_append] at is
            exact blank (List.forall_mem_cons.mpr ⟨here, is ▸ tail_blank⟩)
        rw [clause?.eq_def, source?_body layout unquoted blank]
        simp only [List.cons_append]
        rw [isStop] at here
        simp [here, ih plain, ends]

def Unstopped (cs : List Char) : Prop := ∀ c ∈ cs, isStop c = false

instance (cs : List Char) : Decidable (Unstopped cs) := inferInstanceAs (Decidable (∀ c ∈ cs, isStop c = false))

theorem unstopped_append {cs ds : List Char} : Unstopped (cs ++ ds) ↔ Unstopped cs ∧ Unstopped ds := List.forall_mem_append

theorem Gap.unstopped (gap : Gap) : Unstopped gap.text := by
  intro c here
  cases stop : isStop c with
  | false => rfl
  | true =>
      have mark : c ∈ [';', '"', '\'', '(', ')'] := by simpa [isStop, isQuote, or_assoc] using stop
      have solid : ∀ c ∈ [';', '"', '\'', '(', ')'], isBlank c = false := by decide
      have blank := gap.blank c here
      rw [solid c mark] at blank
      cases blank

theorem unstopped_name {name : List Char} (is : isName name = true) : Unstopped name := by
  intro c here
  cases stop : isStop c with
  | false => rfl
  | true =>
      have mark : c ∈ [';', '"', '\'', '(', ')'] := by simpa [isStop, isQuote, or_assoc] using stop
      have others : ∀ c ∈ [';', '"', '\'', '(', ')'],
          Text.isIdentifierStart c = false ∧ isIdentifierPart c = false := by decide
      cases name with
      | nil => cases here
      | cons d ds =>
          obtain ⟨start, all⟩ := Bool.and_eq_true_iff.mp is
          rcases List.mem_cons.mp here with rfl | here
          · rw [(others c mark).1] at start
            cases start
          · have part := List.all_eq_true.mp all c here
            rw [(others c mark).2] at part
            cases part

theorem Padded.unstopped {α : Type} {text : α → List Char} {p : Padded α} (item : Unstopped (text p.item)) :
    Unstopped (p.text text) :=
  unstopped_append.mpr ⟨unstopped_append.mpr ⟨p.before.unstopped, item⟩, p.behind.unstopped⟩

theorem Whole.unstopped {whole : Whole} (is : isName whole.name.text = true) : Unstopped whole.text := by
  have star : Unstopped ['*'] := by decide
  have word : Unstopped ['a', 's'] := by decide
  rw [text, ← List.singleton_append]
  simp only [unstopped_append]
  exact ⟨star, whole.gap.unstopped, word, whole.space.unstopped, unstopped_name is⟩

theorem Entry.IsScript.unstopped {entry : Entry} (is : entry.IsScript) : Unstopped entry.text := by
  rw [Entry.text, is.unmarked, Option.elim_none, List.nil_append, unstopped_append]
  refine ⟨unstopped_name is.exported, ?_⟩
  cases renamed : entry.rename with
  | none => exact List.forall_mem_nil _
  | some rename =>
      have word : Unstopped ['a', 's'] := by decide
      rw [Option.elim_some, Alias.text]
      simp only [unstopped_append]
      exact ⟨rename.before.unstopped, word, rename.behind.unstopped, unstopped_name (is.bound rename renamed)⟩

theorem unstopped_join {pieces : List (List Char)} (all : ∀ piece ∈ pieces, Unstopped piece) :
    Unstopped (Text.join [','] pieces) := by
  intro c here
  have comma : Unstopped [','] := by decide
  rcases Text.mem_join here with here | ⟨piece, member, here⟩
  · exact comma c here
  · exact all piece member c here

theorem Entries.unstopped {list : Entries} (are : ∀ p ∈ list.entries, p.item.IsScript) : Unstopped list.inner := by
  refine unstopped_join fun piece member => ?_
  rcases List.mem_append.mp member with entry | last
  · obtain ⟨p, here, rfl⟩ := List.mem_map.mp entry
    exact Padded.unstopped (are p here).unstopped
  · obtain ⟨gap, -, rfl⟩ := List.mem_map.mp last
    exact gap.unstopped

theorem Clause.IsScript.unstopped {clause : Clause} (is : clause.IsScript) : Unstopped clause.text := by
  refine unstopped_join fun piece member => ?_
  rcases List.mem_append.mp member with outer | member
  · rcases List.mem_append.mp outer with standard | whole
    · obtain ⟨p, here, rfl⟩ := List.mem_map.mp standard
      exact Padded.unstopped (unstopped_name (is.standard p (Option.mem_toList.mp here)))
    · obtain ⟨p, here, rfl⟩ := List.mem_map.mp whole
      exact Padded.unstopped (Whole.unstopped (is.whole p (Option.mem_toList.mp here)))
  · rcases List.mem_append.mp member with list | last
    · obtain ⟨p, here, rfl⟩ := List.mem_map.mp list
      have braces : Unstopped ['\x7b'] ∧ Unstopped ['\x7d'] := by decide
      have inner := Entries.unstopped (is.entries p (Option.mem_toList.mp here))
      exact Padded.unstopped (unstopped_append.mpr ⟨braces.1, unstopped_append.mpr ⟨inner, braces.2⟩⟩)
    · obtain ⟨gap, -, rfl⟩ := List.mem_map.mp last
      exact gap.unstopped

theorem Padded.occupied {α : Type} {text : α → List Char} {p : Padded α} (item : text p.item ≠ []) : p.text text ≠ [] := by
  simp [Padded.text, item]

theorem Clause.IsScript.occupied {clause : Clause} (is : clause.IsScript) : clause.text ≠ [] := by
  have first {piece : List Char} (pieces : List (List Char)) (occupied : piece ≠ []) :
      Text.join [','] (piece :: pieces) ≠ [] := by
    obtain ⟨behind, whole⟩ := Text.join_cons [','] piece pieces
    rw [whole]
    exact List.append_ne_nil_of_left_ne_nil occupied behind
  have present := is.some
  obtain ⟨standard, whole, list, last⟩ := clause
  cases standard with
  | some p => exact first _ (Padded.occupied p.item.some)
  | none =>
      cases whole with
      | some p => exact first _ (Padded.occupied (List.cons_ne_nil _ _))
      | none =>
          cases list with
          | some p => exact first _ (Padded.occupied (List.cons_ne_nil _ _))
          | none => cases present

theorem eq_of_afterWord? {keyword : String} {cs rest : List Char} (found : afterWord? keyword cs = some rest) :
    ∃ c behind, isBlank c = true ∧ cs = keyword.toList ++ c :: behind ∧ rest = trimStart behind := by
  unfold afterWord? at found
  split at found
  next c behind after =>
    obtain ⟨blank, same⟩ := Option.ite_none_right_eq_some.mp found
    exact ⟨c, behind, blank, Text.eq_append_of_after? after, (Option.some.inj same).symm⟩
  next => cases found

namespace Layout

variable (layout : Layout)

def body : List Char := layout.clause.text ++ layout.behind.text

theorem body_unstopped : Unstopped layout.body := unstopped_append.mpr ⟨layout.script.unstopped, layout.behind.unstopped⟩

theorem text_body (rest : List Char) :
    layout.text ++ rest = "import".toList ++ (layout.before.text ++ (layout.body ++ (layout.source ++ rest))) := by
  rw [text_append, body, List.append_assoc]

theorem trimEnd_body : Text.trimEnd layout.body = layout.clause.text := by
  rw [Text.trimEnd, body, Text.dropEndWhile_blank layout.behind.blank]
  exact Text.dropEndWhile_eq (Text.trim_eq_self_iff.mp layout.script.trimmed).2

theorem afterWord?_import (rest : List Char) : afterWord? "import" (layout.text ++ rest) =
    if layout.before.text = [] then none else .some (layout.body ++ (layout.source ++ rest)) := by
  have first := (Text.trim_eq_self_iff.mp layout.script.trimmed).1
  obtain ⟨c, cs, clause⟩ := List.exists_cons_of_ne_nil layout.script.occupied
  have solid : isBlank c = false := first c (by rw [clause]; rfl)
  have front : ∀ d ∈ (layout.body ++ (layout.source ++ rest)).head?, isBlank d = false := by
    rw [body, clause]
    rintro d ⟨⟩
    exact solid
  have blank := layout.before.blank
  rw [text_body]
  simp only [afterWord?, Text.after?_append]
  cases before : layout.before.text with
  | nil =>
      rw [body, clause]
      simp [solid]
  | cons d ds =>
      rw [before] at blank
      obtain ⟨here, blank⟩ := List.forall_mem_cons.mp blank
      have trimmed : trimStart (ds ++ (layout.body ++ (layout.source ++ rest))) = layout.body ++ (layout.source ++ rest) :=
        Text.dropWhile_append blank front
      simp [here, trimmed]

-- Behind a default name that is called like the mark of a type, what is left is laid out alike.
theorem afterWord?_type {cs rest : List Char}
    (marked : afterWord? "type" (layout.body ++ (layout.source ++ rest)) = .some cs) :
    ∃ body, Unstopped body ∧ cs = body ++ (layout.source ++ rest) := by
  obtain ⟨c, behind, blank, is, rfl⟩ := eq_of_afterWord? marked
  have assoc : "type".toList ++ c :: behind = ("type".toList ++ [c]) ++ behind := by simp
  rw [assoc] at is
  -- The word of the source does not begin within the mark.
  obtain ⟨passed, inside, rfl⟩ : ∃ passed, layout.body = "type".toList ++ [c] ++ passed ∧
      behind = passed ++ (layout.source ++ rest) := by
    rcases List.append_eq_append_iff.mp is with ⟨split, within, behind_is⟩ | ⟨split, within, behind_is⟩
    · cases split with
      | nil => exact ⟨[], by rw [within, List.append_nil, List.append_nil], behind_is.symm⟩
      | cons d split =>
          have first : 'f' = d := (List.cons.inj behind_is).1
          have here : 'f' ∈ "type".toList ++ [c] := by rw [within, first]; simp
          rcases List.mem_append.mp here with word | last
          · exact absurd word (by decide)
          · rw [← List.mem_singleton.mp last] at blank
            cases blank
    · exact ⟨split, within, behind_is⟩
  have unstopped := layout.body_unstopped
  rw [inside, unstopped_append] at unstopped
  refine ⟨trimStart passed, fun d here => unstopped.2 d ((List.dropWhile_sublist _).subset here), ?_⟩
  rw [trimStart, List.dropWhile_append]
  split
  next none =>
    rw [trimStart, List.isEmpty_iff.mp none]
    rfl
  next => rfl

end Layout

/-- Where an import is laid out, it is found if white space stands behind its keyword, with what its clause binds; one
whose default name is `type` is passed over as an import of types. -/
theorem statement?_layout (layout : Layout) (rest : List Char) :
    statement? (layout.text ++ rest) = (afterWord? "import" (layout.text ++ rest)).map fun behind =>
      (if (afterWord? "type" behind).isSome then none else some layout.statement, rest) := by
  have start : (layout.text ++ rest).dropWhile (fun c => c == ' ' || c == '\t') = layout.text ++ rest := rfl
  have names : clauseNames layout.clause.text = layout.clause.bindings := by
    rw [clauseNames, layout.clause.braced_text]
    simp only [parts_join layout.clause.spared_uncut, layout.clause.trimmed_spared, layout.clause.outer_names,
      layout.clause.inner_names]
    rfl
  rw [statement?, start, layout.afterWord?_import]
  by_cases bare : layout.before.text = []
  · rw [if_pos bare]
    rfl
  · rw [if_neg bare]
    cases marked : afterWord? "type" (layout.body ++ (layout.source ++ rest)) with
    | none =>
        simp [marked, clause?_source layout layout.body_unstopped, layout.trimEnd_body, names, Layout.statement]
    | some cs =>
        obtain ⟨body, unstopped, rfl⟩ := layout.afterWord?_type marked
        simp [marked, clause?_source layout unstopped]

end Prerender.Import
