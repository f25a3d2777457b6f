import Prerender.Proofs.Markup.Split
import Prerender.Proofs.Text.Occurrence

set_option autoImplicit false

namespace Prerender.Markup

theorem lines_joinLines {first last : List Char} {inner : List (List Char)} (opened : first ≠ []) (closed : last ≠ [])
    (single : ∀ line ∈ first :: (inner ++ [last]), '\n' ∉ line) :
    lines (joinLines (first :: (inner ++ [last]))) = (first :: (inner ++ [last])).map trimmed := by
  have text : (joinLines (first :: (inner ++ [last]))).toList = Text.join ['\n'] (first :: (inner ++ [last])) :=
    String.toList_ofList
  rw [lines_of_parts text (by simp) ?_ ?_]
  · rw [List.flatMap_congr fun line member => linesOf_single (single line member), ← List.map_eq_flatMap]
  · intro c here
    obtain ⟨behind, is⟩ := Text.join_cons ['\n'] first (inner ++ [last])
    obtain ⟨d, ds, rfl⟩ := List.exists_cons_of_ne_nil opened
    rw [text, is] at here
    obtain rfl : d = c := Option.some.inj here
    exact fun same => single _ List.mem_cons_self (same ▸ List.mem_cons_self)
  · intro c here
    obtain ⟨before, is⟩ := Text.join_concat ['\n'] last (first :: inner)
    rw [List.cons_append] at is
    rw [text, is, List.getLast?_append_of_ne_nil _ closed] at here
    exact fun same => single last (by simp) (same ▸ List.mem_of_mem_getLast? here)

structure IsLine (line : List Char) : Prop where
  single : '\n' ∉ line
  ends : ∀ c ∈ line.getLast?, c ≠ '\r'

theorem IsLine.trimmed_eq {line : List Char} (isLine : IsLine line) : trimmed line = line := Markup.trimmed_eq isLine.ends

theorem map_trimmed {content : List (List Char)} (inner : ∀ line ∈ content, IsLine line) :
    content.map trimmed = content := by
  rw [List.map_congr_left fun line here => (inner line here).trimmed_eq, List.map_id']

structure Alone (tag line : List Char) : Prop where
  single : '\n' ∉ line
  spaced : ∃ before behind, line = before ++ (tag ++ behind) ∧ ∀ c ∈ before ++ behind, Text.isBlank c = true

-- What stands below the opening tag of a host with a shadow root: its template, and its light children.
structure ShadowBody (tag : String) where
  opening : List Char
  content : List (List Char)
  closing : List Char
  light : List (List Char)
  last : List Char
  opens : Alone templateOpen opening
  inner : ∀ line ∈ content, IsLine line
  closes : Alone templateClose closing
  outer : ∀ line ∈ light, '\n' ∉ line ∧ Text.contains templateClose line = false
  single : '\n' ∉ last
  ends : Text.contains (closeTag tag) last = true
  clear : Text.contains templateClose last = false

structure PlainBody (tag : String) where
  content : List (List Char)
  last : List Char
  inner : ∀ line ∈ content, IsLine line
  single : '\n' ∉ last
  ends : Text.contains (closeTag tag) last = true

def ShadowBody.lines {tag : String} (body : ShadowBody tag) : List (List Char) :=
  body.opening :: (body.content ++ body.closing :: body.light) ++ [body.last]

def PlainBody.lines {tag : String} (body : PlainBody tag) : List (List Char) := body.content ++ [body.last]

theorem Alone.contains {tag line : List Char} (alone : Alone tag line) : Text.contains tag line = true := by
  obtain ⟨before, behind, rfl, -⟩ := alone.spaced
  exact Text.contains_iff.mpr ⟨before, behind, by simp⟩

theorem occupied_of_contains {c : Char} {cs line : List Char} (found : Text.contains (c :: cs) line = true) : line ≠ [] := by
  rintro rfl
  cases found

section

variable {tag : String} {first rest : List Char} {host : OpenTag} (single : '\n' ∉ first)
  (opens : OpenTag.read? first = some (host, rest)) (named : host.name = tag)

include single opens named

theorem split_shadowBody (body : ShadowBody tag) :
    split (joinLines (first :: body.lines)) tag .declarative = .ok (.shadow host (joinLines body.content)) := by
  obtain ⟨opening, content, closing, light, last, template, inner, closes, outer, ended, ends, clear⟩ := body
  have occupied : first ≠ [] := by rintro rfl; cases opens
  have all : ∀ line ∈ first :: (opening :: (content ++ closing :: light) ++ [last]), '\n' ∉ line := by
    intro line member
    simp only [List.mem_cons, List.mem_append, List.not_mem_nil, or_false] at member
    rcases member with rfl | (rfl | here | rfl | here) | rfl
    exacts [single, template.single, (inner line here).single, closes.single, (outer line here).1, ended]
  have read := lines_joinLines occupied (occupied_of_contains ends) all
  have kept : content.map trimmed = content := map_trimmed inner
  rw [List.map_cons, List.map_append, List.map_cons, List.map_append, List.map_cons, kept] at read
  have below : ∀ line ∈ light.map trimmed ++ [trimmed last], Text.contains templateClose line = false := by
    simp only [List.forall_mem_append, List.forall_mem_map, List.forall_mem_singleton, templateClose_trimmed]
    exact ⟨fun line here => (outer line here).2, clear⟩
  have close := Text.lastIndex?_append (trimmed first :: trimmed opening :: content)
    ((templateClose_trimmed closing).trans closes.contains) below
  have result := split_shadowed (i := content.length + 2) read (read?_trimmed opens) named
    ((closeTag_trimmed tag last).trans ends) ((templateOpen_trimmed opening).trans template.contains)
    (by simpa using close) (by omega) (by simp)
  simpa [ShadowBody.lines] using result

theorem split_plainBody (body : PlainBody tag) (serialization : Serialization)
    (untemplated : serialization = .declarative → Text.contains templateOpen (body.lines.headD []) = false) :
    split (joinLines (first :: body.lines)) tag serialization = .ok (.scoped host (joinLines body.content)) := by
  obtain ⟨content, last, inner, ended, ends⟩ := body
  have occupied : first ≠ [] := by rintro rfl; cases opens
  have all : ∀ line ∈ first :: (content ++ [last]), '\n' ∉ line := by
    intro line member
    simp only [List.mem_cons, List.mem_append, List.not_mem_nil, or_false] at member
    rcases member with rfl | here | rfl
    exacts [single, (inner line here).single, ended]
  have read := lines_joinLines occupied (occupied_of_contains ends) all
  have kept : content.map trimmed = content := map_trimmed inner
  rw [List.map_cons, List.map_append, kept, List.map_singleton] at read
  have second : (content ++ [trimmed last]).headD [] = trimmed ((content ++ [last]).headD []) := by
    cases content with
    | nil => rfl
    | cons line content => exact (inner line List.mem_cons_self).trimmed_eq.symm
  rw [PlainBody.lines, split_closed read (read?_trimmed opens) named ((closeTag_trimmed tag last).trans ends), if_neg]
  rw [second, templateOpen_trimmed, Bool.and_eq_true, decide_eq_true_eq]
  rintro ⟨declarative, template⟩
  have none := untemplated declarative
  rw [PlainBody.lines] at none
  rw [none] at template
  cases template

end

/-- A host below whose opening tag its content stands line by line is split into its tag and that content, whatever
the lines hold: in a template of its own, with light children behind it, or without a template. -/
theorem split_recovers {tag : String} {first : List Char} {host : OpenTag} (single : '\n' ∉ first)
    (opens : OpenTag.parse? (String.ofList first) = some host) (named : host.name = tag) :
    (∀ body : ShadowBody tag,
      split (joinLines (first :: body.lines)) tag .declarative = .ok (.shadow host (joinLines body.content))) ∧
    ∀ (body : PlainBody tag) (serialization : Serialization),
      (serialization = .declarative → Text.contains templateOpen (body.lines.headD []) = false) →
        split (joinLines (first :: body.lines)) tag serialization = .ok (.scoped host (joinLines body.content)) := by
  obtain ⟨⟨found, rest⟩, read, rfl⟩ := Option.map_eq_some_iff.mp opens
  rw [String.toList_ofList] at read
  exact ⟨split_shadowBody single read named, split_plainBody single read named⟩

def sampleFirst : List Char := "<x-a title=\"a > b\" s-id='1'>".toList
def sampleHost : OpenTag := ⟨"x-a", [("title", some "a > b"), ("s-id", some "1")]⟩

def sampleShadow : ShadowBody "x-a" where
  opening := "  <template shadowrootmode=\"open\">\r".toList
  content := ["    <x-a>".toList, "    </template>".toList, [], "    </x-a>".toList]
  closing := "\t</template> ".toList
  light := ["  <b></b>".toList, []]
  last := "text</x-a> <x-a>".toList
  opens := ⟨by decide, "  ".toList, ['\r'], by decide, List.all_eq_true.mp (by decide)⟩
  inner := by
    have all : ∀ line ∈ ["    <x-a>".toList, "    </template>".toList, [], "    </x-a>".toList],
        '\n' ∉ line ∧ line.getLast? ≠ some '\r' := by decide
    exact fun line here => ⟨(all line here).1, fun _ last same => (all line here).2 (same ▸ last)⟩
  closes := ⟨by decide, ['\t'], [' '], by decide, List.all_eq_true.mp (by decide)⟩
  outer := by decide
  single := by decide
  ends := by decide
  clear := by decide

def samplePlain : PlainBody "x-a" where
  content := ["  </x-a>".toList, [], "  <template shadowrootmode=\"open\">".toList]
  last := "</x-a>".toList
  inner := by
    have all : ∀ line ∈ ["  </x-a>".toList, [], "  <template shadowrootmode=\"open\">".toList],
        '\n' ∉ line ∧ line.getLast? ≠ some '\r' := by decide
    exact fun line here => ⟨(all line here).1, fun _ last same => (all line here).2 (same ▸ last)⟩
  single := by decide
  ends := by decide

theorem split_recovers_nested :
    '\n' ∉ sampleFirst ∧ OpenTag.parse? (String.ofList sampleFirst) = some sampleHost ∧ sampleHost.name = "x-a" ∧
    split (joinLines (sampleFirst :: sampleShadow.lines)) "x-a" .declarative =
      .ok (.shadow sampleHost "    <x-a>\n    </template>\n\n    </x-a>") ∧
    split (joinLines (sampleFirst :: samplePlain.lines)) "x-a" .declarative =
      .ok (.scoped sampleHost "  </x-a>\n\n  <template shadowrootmode=\"open\">") := by
  have single : '\n' ∉ sampleFirst := by decide
  have opens : OpenTag.parse? (String.ofList sampleFirst) = some sampleHost := by decide +kernel
  obtain ⟨shadow, plain⟩ := split_recovers single opens rfl
  exact ⟨single, opens, rfl, shadow sampleShadow, plain samplePlain .declarative fun _ => by decide⟩

section Inline

def unended (tag : String) (attrs : List Char) : List Char := '<' :: (tag.toList ++ attrs)

-- What stands in an opening tag behind its first `>`, which may be one that is quoted.
def spill (opening : List Char) : List Char := ((Text.cutFirst? ['>'] opening).map (·.2)).getD []

variable {tag : String} {attrs inner : List Char} {host : OpenTag}

theorem not_mem_unended {c : Char} (isTag : OpenTag.IsTag tag) (other : c ≠ '<') (named : OpenTag.isNameTail c = false) :
    c ∉ unended tag attrs ↔ c ∉ attrs := by
  simp [unended, other, isTag.not_mem named]

theorem lines_inline (isTag : OpenTag.IsTag tag) (outer : '\n' ∉ attrs) (single : '\n' ∉ inner) :
    lines (String.ofList (unended tag attrs ++ '>' :: (inner ++ closeTag tag))) =
      [unended tag attrs ++ '>' :: (inner ++ closeTag tag)] := by
  have whole : unended tag attrs ++ '>' :: (inner ++ closeTag tag) =
      (unended tag attrs ++ '>' :: (inner ++ '<' :: '/' :: tag.toList)) ++ ['>'] := by simp [closeTag]
  have flat : '\n' ∉ unended tag attrs ++ '>' :: (inner ++ '<' :: '/' :: tag.toList) := by
    have begins : '\n' ∉ unended tag attrs := (not_mem_unended isTag (by decide) rfl).mpr outer
    simp [begins, single, isTag.not_mem (c := '\n') rfl]
  have text : (String.ofList (unended tag attrs ++ '>' :: (inner ++ closeTag tag))).toList =
      Text.join ['\n'] [unended tag attrs ++ '>' :: (inner ++ closeTag tag)] := String.toList_ofList
  rw [lines_of_parts text (by simp) ?_ ?_, List.flatMap_singleton, whole, linesOf_tag flat]
  · intro c first
    rw [String.toList_ofList, unended] at first
    obtain rfl : '<' = c := Option.some.inj first
    decide
  · intro c last
    rw [String.toList_ofList, whole, List.getLast?_concat] at last
    obtain rfl : '>' = c := Option.some.inj last
    decide

/-- On one line the content is taken to begin behind the first `>`, wherever the opening tag ends. It is the text
between the tags exactly if the attributes are written without one. -/
theorem split_spills (opens : OpenTag.read? (unended tag attrs ++ ['>']) = some (host, [])) (named : host.name = tag)
    (outer : '\n' ∉ attrs) (single : '\n' ∉ inner) :
    split (String.ofList (unended tag attrs ++ '>' :: (inner ++ closeTag tag))) tag .scoped =
      .ok (.scoped host (String.ofList (spill (unended tag attrs ++ ['>']) ++ inner))) ∧
    (split (String.ofList (unended tag attrs ++ '>' :: (inner ++ closeTag tag))) tag .scoped =
      .ok (.scoped host (String.ofList inner)) ↔ '>' ∉ attrs) := by
  have isTag : OpenTag.IsTag tag := named ▸ (OpenTag.read?_named opens).1
  have read : OpenTag.read? (unended tag attrs ++ '>' :: (inner ++ closeTag tag)) = some (host, inner ++ closeTag tag) := by
    obtain ⟨passed, is, again⟩ := OpenTag.read?_extent opens
    rw [List.append_inj_left' is rfl]
    exact again _
  obtain ⟨before, gap, cut, none_iff, further⟩ := Text.cutFirst?_passed '>' (unended tag attrs)
  have spilled : spill (unended tag attrs ++ ['>']) = gap := by
    rw [spill, cut]
    rfl
  have content : inlineContent (closeTag tag) (unended tag attrs ++ '>' :: (inner ++ closeTag tag)) = gap ++ inner := by
    have once : '<' ∉ '/' :: tag.toList ++ ['>'] := by simpa using isTag.not_mem (c := '<') rfl
    have closes : Text.cutLast? (closeTag tag) (gap ++ inner ++ (closeTag tag ++ [])) = some (gap ++ inner, []) :=
      Text.cutLast?_last (gap ++ inner) once (by simp)
    rw [List.append_nil] at closes
    rw [inlineContent, further, Option.map_some, Option.getD_some, ← List.append_assoc, closes]
    rfl
  have held : Text.contains (closeTag tag) (unended tag attrs ++ '>' :: (inner ++ closeTag tag)) = true :=
    Text.contains_iff.mpr ⟨unended tag attrs ++ '>' :: inner, [], by simp⟩
  rw [split_inline .scoped (lines_inline isTag outer single) read named held, content, spilled]
  refine ⟨rfl, ?_⟩
  simp only [Except.ok.injEq, Markup.scoped.injEq, true_and, String.ofList_inj, List.append_left_eq_self, none_iff]
  exact not_mem_unended isTag (by decide) rfl

theorem split_spills_quoted :
    OpenTag.read? (unended "x-a" " title=\"a>b\"".toList ++ ['>']) = some (⟨"x-a", [("title", some "a>b")]⟩, []) ∧
    '\n' ∉ " title=\"a>b\"".toList ∧ '\n' ∉ "text</x-a>".toList ∧
    split "<x-a title=\"a>b\">text</x-a></x-a>" "x-a" .scoped =
      .ok (.scoped ⟨"x-a", [("title", some "a>b")]⟩ "b\">text</x-a>") ∧
    split "<x-a title=\"a>b\">text</x-a></x-a>" "x-a" .scoped ≠ .ok (.scoped ⟨"x-a", [("title", some "a>b")]⟩ "text</x-a>") := by
  have opens : OpenTag.read? (unended "x-a" " title=\"a>b\"".toList ++ ['>']) =
      some (⟨"x-a", [("title", some "a>b")]⟩, []) := by decide +kernel
  have outer : '\n' ∉ " title=\"a>b\"".toList := by decide
  have single : '\n' ∉ "text</x-a>".toList := by decide
  obtain ⟨spills, kept_iff⟩ := split_spills opens rfl outer single
  exact ⟨opens, outer, single, spills, fun kept => absurd (kept_iff.mp kept) (by decide)⟩

theorem split_inline_quoted :
    ¬ ∀ (tag : String) (attrs inner : List Char) (host : OpenTag),
      OpenTag.read? (unended tag attrs ++ ['>']) = some (host, []) → host.name = tag → '\n' ∉ attrs → '\n' ∉ inner →
        split (String.ofList (unended tag attrs ++ '>' :: (inner ++ closeTag tag))) tag .scoped =
          .ok (.scoped host (String.ofList inner)) := by
  intro exact
  have kept := exact "x-a" " title=\"a>b\"".toList "text".toList ⟨"x-a", [("title", some "a>b")]⟩
    (by decide +kernel) rfl (by decide) (by decide)
  exact absurd kept (by decide +kernel)

end Inline

end Prerender.Markup
