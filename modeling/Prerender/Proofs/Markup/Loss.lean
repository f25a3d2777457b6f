import Prerender.Proofs.Markup.Split
import Prerender.Proofs.Text.Occurrence

set_option autoImplicit false

namespace Prerender.Markup

def visible (cs : List Char) : List Char := cs.filter fun c => !Text.isBlank c

-- All of a text is kept, in its order, up to white space.
def Keeps (kept : String) (content : List Char) : Prop := (visible content).Sublist kept.toList

-- Nothing but white space stands above the first line feed and below the last one.
structure Framed (content : List Char) : Prop where
  above : visible (content.takeWhile (· != '\n')) = []
  below : visible (content.reverse.takeWhile (· != '\n')) = []

def afterLine (cs : List Char) : List Char := cs.dropWhile (· != '\n')

def templateText? (html : String) : Option (List Char) :=
  (Text.cutFirst? templateOpen (afterLine (html.toList.dropWhile (· == '\n')))).map (·.2)

section Visible

theorem visible_append (cs ds : List Char) : visible (cs ++ ds) = visible cs ++ visible ds := List.filter_append ..

theorem keeps_iff {kept content : List Char} : Keeps (String.ofList kept) content ↔ (visible content).Sublist (visible kept) := by
  rw [Keeps, String.toList_ofList]
  refine ⟨fun keeps => ?_, fun keeps => keeps.trans List.filter_sublist⟩
  have both := keeps.filter fun c => !Text.isBlank c
  simpa only [visible, List.filter_filter, Bool.and_self] using both

theorem visible_join (lines : List (List Char)) : visible (Text.join ['\n'] lines) = lines.flatMap visible := by
  match lines with
  | [] => rfl
  | [line] => rw [Text.join, List.flatMap_singleton]
  | line :: next :: lines =>
      rw [Text.join, visible_append, visible_append, visible_join (next :: lines), List.flatMap_cons (x := line)]
      exact congrArg (· ++ _) (List.append_nil _)

theorem visible_trimmed (line : List Char) : visible (trimmed line) = visible line := by
  obtain ⟨tail, is, dropped⟩ := Text.dropEndWhile_append_tail (· == '\r') line
  have blank : visible tail = [] := List.filter_eq_nil_iff.mpr fun c here => by
    rw [beq_iff_eq.mp (dropped c here)]
    decide
  rw [trimmed, ← List.append_nil (visible _), ← blank, ← visible_append, ← is]

theorem keeps_lines {lines : List (List Char)} {content : List Char} :
    Keeps (joinLines (lines.map trimmed)) content ↔ (visible content).Sublist (lines.flatMap visible) := by
  rw [joinLines, keeps_iff, visible_join, List.flatMap_map]
  simp only [visible_trimmed]

theorem takeWhile_line {line : List Char} (single : '\n' ∉ line) (rest : List Char) :
    (line ++ '\n' :: rest).takeWhile (· != '\n') = line :=
  Text.takeWhile_append (fun c here => bne_iff_ne.mpr fun same => single (same ▸ here)) fun c here => by
    obtain rfl : '\n' = c := Option.some.inj here
    rfl

theorem takeWhile_join {line : List Char} (single : '\n' ∉ line) {lines : List (List Char)} (more : lines ≠ []) :
    (Text.join ['\n'] (line :: lines)).takeWhile (· != '\n') = line := by
  rw [Text.join_next _ _ more, List.append_assoc, List.singleton_append, takeWhile_line single]

theorem framed_iff {top left : List Char} {mid : List (List Char)} (first : '\n' ∉ top) (last : '\n' ∉ left) :
    Framed (Text.join ['\n'] (top :: (mid ++ [left]))) ↔ visible top = [] ∧ visible left = [] := by
  have above : (Text.join ['\n'] (top :: (mid ++ [left]))).takeWhile (· != '\n') = top := takeWhile_join first (by simp)
  have below : (Text.join ['\n'] (top :: (mid ++ [left]))).reverse.takeWhile (· != '\n') = left.reverse := by
    rw [← List.cons_append, Text.join_snoc _ _ (by simp), List.reverse_append, List.reverse_append, List.reverse_singleton,
      List.singleton_append, takeWhile_line (by simpa using last)]
  constructor
  · intro framed
    have clear := framed.below
    rw [below, visible, List.filter_reverse, List.reverse_eq_nil_iff] at clear
    exact ⟨above ▸ framed.above, clear⟩
  · rintro ⟨clearAbove, clearBelow⟩
    refine ⟨by rw [above, clearAbove], ?_⟩
    rw [below, visible, List.filter_reverse, List.reverse_eq_nil_iff]
    exact clearBelow

theorem keeps_between_iff {top left : List Char} {mid : List (List Char)} (first : '\n' ∉ top) (last : '\n' ∉ left) :
    Keeps (joinLines (mid.map trimmed)) (Text.join ['\n'] (top :: (mid ++ [left]))) ↔
      Framed (Text.join ['\n'] (top :: (mid ++ [left]))) := by
  rw [keeps_lines, framed_iff first last, visible_join, List.flatMap_cons, List.flatMap_append, List.flatMap_singleton]
  constructor
  · intro keeps
    have short := keeps.length_le
    rw [List.length_append, List.length_append] at short
    exact ⟨List.eq_nil_of_length_eq_zero (by omega), List.eq_nil_of_length_eq_zero (by omega)⟩
  · rintro ⟨clearAbove, clearBelow⟩
    rw [clearAbove, clearBelow, List.nil_append, List.append_nil]

end Visible

section Lines

def rawLines (html : String) : List (List Char) := Text.splitOn (· == '\n') (html.toList.dropWhile (· == '\n'))

theorem join_rawLines (html : String) : Text.join ['\n'] (rawLines html) = html.toList.dropWhile (· == '\n') :=
  Text.join_splitOn (fun _ is => beq_iff_eq.mp is) _

theorem single_of_mem_rawLines {html : String} {line : List Char} (member : line ∈ rawLines html) : '\n' ∉ line :=
  fun here => absurd (Text.not_of_mem_splitOn member here) (by decide)

theorem splitOn_feeds {feeds : List Char} (all : ∀ c ∈ feeds, (c == '\n') = true) (cs : List Char) :
    Text.splitOn (· == '\n') (cs ++ feeds) = Text.splitOn (· == '\n') cs ++ List.replicate feeds.length [] := by
  induction feeds generalizing cs with
  | nil => simp
  | cons c feeds ih =>
      rw [List.forall_mem_cons] at all
      have empty := ih all.2 []
      rw [List.nil_append] at empty
      rw [Text.splitOn_append (p := (· == '\n')) all.1, empty]
      rfl

theorem map_trimmed_rawLines (html : String) : ∃ n, (rawLines html).map trimmed = lines html ++ List.replicate n [] := by
  obtain ⟨feeds, is, all⟩ := Text.dropEndWhile_append_tail (· == '\n') (html.toList.dropWhile (· == '\n'))
  refine ⟨feeds.length, ?_⟩
  rw [rawLines, is, splitOn_feeds all, List.map_append, List.map_replicate]
  rfl

theorem lastIndex?_rawLines (html : String) (p : Char) (ps : List Char) :
    Text.lastIndex? (Text.contains (p :: ps ++ ['>'])) (rawLines html) =
      Text.lastIndex? (Text.contains (p :: ps ++ ['>'])) (lines html) := by
  obtain ⟨n, is⟩ := map_trimmed_rawLines html
  have same : Text.contains (p :: ps ++ ['>']) ∘ trimmed = Text.contains (p :: ps ++ ['>']) := funext (contains_trimmed (p :: ps))
  have empty : ∀ line ∈ List.replicate n [], Text.contains (p :: ps ++ ['>']) line = false := fun line member => by
    rw [List.eq_of_mem_replicate member]
    rfl
  rw [← Text.lastIndex?_before empty (lines html), ← is, Text.lastIndex?_map, same]

theorem take_rawLines {html : String} {i : Nat} (within : i ≤ (lines html).length) :
    ((rawLines html).take i).map trimmed = (lines html).take i := by
  obtain ⟨n, is⟩ := map_trimmed_rawLines html
  rw [List.map_take, is, List.take_append_of_le_length within]

theorem read?_of_trimmed {line rest : List Char} {host : OpenTag} (read : OpenTag.read? (trimmed line) = some (host, rest)) :
    ∃ rest, OpenTag.read? line = some (host, rest) := by
  obtain ⟨passed, opens, again⟩ := OpenTag.read?_extent read
  obtain ⟨tail, is, -⟩ := Text.dropEndWhile_append_tail (· == '\r') line
  refine ⟨rest ++ tail, ?_⟩
  have whole : line = passed ++ '>' :: (rest ++ tail) := by
    rw [is]
    change trimmed line ++ tail = _
    rw [opens, List.append_assoc, List.cons_append]
  rw [whole]
  exact again _

end Lines

section Outcome

variable {html tag : String}

theorem rawLines_cons {first : List Char} {others : List (List Char)} (is : lines html = first :: others) :
    ∃ line more n, rawLines html = line :: more ∧ trimmed line = first ∧
      more.map trimmed = others ++ List.replicate n [] := by
  obtain ⟨n, mapped⟩ := map_trimmed_rawLines html
  rw [is, List.cons_append] at mapped
  obtain ⟨line, more, raw, rfl, rest⟩ := List.map_eq_cons_iff.mp mapped
  exact ⟨line, more, n, raw, rfl, rest⟩

theorem of_split_raw {serialization : Serialization} {markup : Markup} (ok : split html tag serialization = .ok markup) :
    ∃ first others rest host, rawLines html = first :: others ∧ OpenTag.read? first = some (host, rest) ∧ host.name = tag ∧
      ((∃ second below i, others = second :: below ∧ Text.contains templateOpen second = true ∧
          Text.lastIndex? (Text.contains templateClose) (first :: others) = some i ∧ 1 ≤ i ∧
          markup = .shadow host (if i = 1 then String.ofList (between templateOpen templateClose (trimmed second))
            else joinLines ((((first :: others).take i).drop 2).map trimmed))) ∨
        ∃ i, Text.lastIndex? (Text.contains (closeTag tag)) (first :: others) = some i ∧
          markup = .scoped host (if i = 0 then String.ofList (inlineContent (closeTag tag) (trimmed first))
            else joinLines ((((first :: others).take i).drop 1).map trimmed))) := by
  obtain ⟨first, others, rest, host, is, read, named, result⟩ := of_split_ok ok
  obtain ⟨line, more, n, raw, rfl, below⟩ := rawLines_cons is
  obtain ⟨rest, read⟩ := read?_of_trimmed read
  have within {pat : List Char} {i : Nat} (found : Text.lastIndex? (Text.contains pat) (lines html) = some i) :
      i ≤ (lines html).length := by
    obtain ⟨above, x, below, is, rfl, -, -⟩ := Text.lastIndex?_eq_some found
    rw [is, List.length_append]
    exact Nat.le_add_right _ _
  refine ⟨line, more, rest, host, raw, read, named, ?_⟩
  rcases result with ⟨second, below', i, rfl, opens, found, behind, markup⟩ | ⟨i, found, markup⟩
  · rw [List.cons_append] at below
    obtain ⟨second, more, rfl, rfl, -⟩ := List.map_eq_cons_iff.mp below
    rw [templateOpen_trimmed] at opens
    refine .inl ⟨second, more, i, rfl, opens, ?_, behind, ?_⟩
    · rw [← raw, ← found]
      exact lastIndex?_rawLines html '<' "/template".toList
    · rw [markup, ← take_rawLines (within found), raw, List.map_drop]
  · refine .inr ⟨i, ?_, ?_⟩
    · rw [← raw, ← found]
      exact lastIndex?_rawLines html '<' ('/' :: tag.toList)
    · rw [markup, ← take_rawLines (within found), raw, List.map_drop]

end Outcome

section Between

theorem afterLine_join {line : List Char} (single : '\n' ∉ line) (lines : List (List Char)) :
    afterLine (Text.join ['\n'] (line :: lines)) = if lines = [] then [] else '\n' :: Text.join ['\n'] lines := by
  have all : ∀ c ∈ line, (c != '\n') = true := fun c here => bne_iff_ne.mpr fun same => single (same ▸ here)
  split
  next empty =>
    rw [empty, afterLine, Text.join, List.dropWhile_eq_nil_iff]
    exact all
  next more =>
    rw [Text.join_next _ _ more, List.append_assoc, List.singleton_append, afterLine]
    exact Text.dropWhile_append all fun c here => by
      obtain rfl : '\n' = c := Option.some.inj here
      rfl

theorem infix_afterLine_iff {pat line : List Char} (flat : '\n' ∉ pat) (occupied : pat ≠ []) (single : '\n' ∉ line)
    {lines : List (List Char)} :
    pat <:+: afterLine (Text.join ['\n'] (line :: lines)) ↔ ∃ other ∈ lines, Text.contains pat other = true := by
  simp only [Text.contains_iff]
  rw [afterLine_join single]
  constructor
  · split
    next => exact fun found => absurd (List.infix_nil.mp found) occupied
    next more =>
      intro found
      rcases List.infix_cons_iff.mp found with ⟨rest, is⟩ | ⟨before, behind, is⟩
      · obtain ⟨p, ps, rfl⟩ := List.exists_cons_of_ne_nil occupied
        exact absurd (by rw [(List.cons.inj is).1]; exact List.mem_cons_self) flat
      · rw [List.append_assoc] at is
        obtain ⟨above, left, right, below, rfl, -, -⟩ := Text.join_cut flat occupied is.symm
        exact ⟨left ++ (pat ++ right), by simp, left, right, by rw [List.append_assoc]⟩
  · rintro ⟨other, member, found⟩
    rw [if_neg (List.ne_nil_of_mem member)]
    exact List.infix_cons (found.trans (Text.infix_join_of_mem _ member))

theorem lastIndex?_of_clear (pat left right : List Char) (above : List (List Char)) {below : List (List Char)}
    (clear : ¬ ∃ line ∈ below, Text.contains pat line = true) :
    Text.lastIndex? (Text.contains pat) (above ++ (left ++ (pat ++ right)) :: below) = some above.length :=
  Text.lastIndex?_append above (Text.contains_iff.mpr ⟨left, right, by rw [List.append_assoc]⟩) fun line member =>
    Bool.eq_false_iff.mpr fun found => clear ⟨line, member, found⟩

theorem trimmed_tag (before : List Char) {pat : List Char} (behind : List Char) :
    trimmed (before ++ (pat ++ '>' :: behind)) = before ++ (pat ++ '>' :: trimmed behind) := by
  rw [← List.append_assoc, trimmed, Text.dropEndWhile_append rfl, List.append_assoc]
  rfl

end Between

section Scoped

variable {tag : String} (isTag : OpenTag.IsTag tag)

include isTag

theorem closeTag_single : '\n' ∉ closeTag tag := by
  simpa [closeTag] using isTag.not_mem (c := '\n') rfl

theorem closeTag_once : '<' ∉ '/' :: tag.toList ++ ['>'] := by
  simpa using isTag.not_mem (c := '<') rfl

-- Content on one line with both tags is kept; what is kept may begin with a part of the opening tag.
theorem keeps_inline {first rest left right : List Char} {host : OpenTag} (read : OpenTag.read? first = some (host, rest))
    (is : rest = left ++ (closeTag tag ++ right)) (last : ¬ closeTag tag <:+: right) :
    Keeps (String.ofList (inlineContent (closeTag tag) (trimmed first))) left := by
  obtain ⟨passed, opens, -⟩ := OpenTag.read?_extent read
  obtain ⟨before, gap, -, -, cut⟩ := Text.cutFirst?_passed '>' passed
  have line : trimmed first = passed ++ '>' :: (left ++ (closeTag tag ++ trimmed right)) := by
    rw [opens, is]
    have whole : passed ++ '>' :: (left ++ (closeTag tag ++ right)) =
        (passed ++ '>' :: left) ++ ('<' :: '/' :: tag.toList ++ '>' :: right) := by simp [closeTag]
    rw [whole, trimmed_tag]
    simp [closeTag]
  have behind : ¬ closeTag tag <:+: trimmed right := by
    obtain ⟨tail, is, -⟩ := Text.dropEndWhile_append_tail (· == '\r') right
    exact fun found => last (found.trans ⟨[], tail, is.symm⟩)
  have closes : Text.cutLast? (closeTag tag) (gap ++ (left ++ (closeTag tag ++ trimmed right))) =
      some (gap ++ left, trimmed right) := by
    rw [← List.append_assoc]
    exact Text.cutLast?_last (gap ++ left) (closeTag_once isTag) behind
  rw [inlineContent, line, cut, Option.map_some, Option.getD_some, closes, Option.map_some, Option.getD_some, keeps_iff,
    visible_append]
  exact List.sublist_append_right _ _

theorem scoped_keeps_iff {first rest : List Char} {others : List (List Char)} {host : OpenTag} {i : Nat}
    (single : ∀ line ∈ first :: others, '\n' ∉ line) (read : OpenTag.read? first = some (host, rest))
    (found : Text.lastIndex? (Text.contains (closeTag tag)) (first :: others) = some i) {content behind : List Char}
    (text : Text.join ['\n'] (rest :: others) = content ++ (closeTag tag ++ behind)) (last : ¬ closeTag tag <:+: behind) :
    Keeps (if i = 0 then String.ofList (inlineContent (closeTag tag) (trimmed first))
      else joinLines ((((first :: others).take i).drop 1).map trimmed)) content ↔ '\n' ∉ content ∨ Framed content := by
  obtain ⟨passed, opens, -⟩ := OpenTag.read?_extent read
  have flat := closeTag_single isTag
  obtain ⟨above, left, right, below, is, rfl, rfl⟩ := Text.join_cut flat (by simp [closeTag]) text
  have clear : ¬ ∃ line ∈ below, Text.contains (closeTag tag) line = true := by
    rintro ⟨line, member, inside⟩
    exact last ((Text.contains_iff.mp inside).trans (Text.infix_join_of_mem _ (List.mem_cons_of_mem right member)))
  cases above with
  | nil =>
      obtain ⟨rest_eq, rfl⟩ := List.cons.inj is
      have line : first = (passed ++ '>' :: left) ++ (closeTag tag ++ right) := by
        rw [opens, rest_eq, List.append_assoc, List.cons_append]
      have here := lastIndex?_of_clear (closeTag tag) (passed ++ '>' :: left) right [] clear
      rw [List.nil_append, ← line, found] at here
      obtain rfl := Option.some.inj here
      have flatLeft : '\n' ∉ left := fun here => single first List.mem_cons_self (by rw [line]; simp [here])
      have nothing : ¬ closeTag tag <:+: right := fun inside =>
        last (inside.trans (Text.infix_join_of_mem _ List.mem_cons_self))
      rw [List.length_nil, if_pos rfl]
      exact iff_of_true (keeps_inline isTag read rest_eq nothing) (.inl flatLeft)
  | cons top mid =>
      rw [List.cons_append] at is
      obtain ⟨rfl, rfl⟩ := List.cons.inj is
      have here := lastIndex?_of_clear (closeTag tag) left right (first :: mid) clear
      rw [List.cons_append, found] at here
      obtain rfl := Option.some.inj here
      have flatTop : '\n' ∉ rest := fun here => single first List.mem_cons_self (by rw [opens]; simp [here])
      have flatLeft : '\n' ∉ left := fun here =>
        single (left ++ (closeTag tag ++ right)) (by simp) (List.mem_append_left _ here)
      have lines : ((first :: (mid ++ (left ++ (closeTag tag ++ right)) :: below)).take (first :: mid).length).drop 1 = mid := by
        simp
      have feed : '\n' ∈ Text.join ['\n'] (rest :: mid ++ [left]) := by
        rw [List.cons_append, Text.join_next _ _ (by simp)]
        simp
      rw [if_neg (by simp), lines, List.cons_append, keeps_between_iff flatTop flatLeft, ← List.cons_append]
      exact ⟨.inr, fun framed => framed.resolve_left (not_not_intro feed)⟩

end Scoped

section Shadow

theorem templateClose_single : '\n' ∉ templateClose := by decide

theorem templateClose_occupied : templateClose ≠ [] := by decide

theorem keeps_between_tags_iff {lead left : List Char} (right : List Char) (first : ¬ templateOpen <:+: lead) :
    Keeps (String.ofList (between templateOpen templateClose
      (trimmed (lead ++ (templateOpen ++ (left ++ (templateClose ++ right))))))) left ↔ ¬ templateClose <:+: left := by
  have line : trimmed (lead ++ (templateOpen ++ (left ++ (templateClose ++ right)))) =
      lead ++ (templateOpen ++ (left ++ (templateClose ++ trimmed right))) := by
    have whole (close : List Char) : lead ++ (templateOpen ++ (left ++ (templateClose ++ close))) =
        (lead ++ (templateOpen ++ left)) ++ ("</template".toList ++ '>' :: close) := by
      have tag : templateClose = "</template".toList ++ ['>'] := by decide
      simp [tag]
    rw [whole, trimmed_tag, whole]
  have opens : Text.cutFirst? templateOpen (lead ++ (templateOpen ++ (left ++ (templateClose ++ trimmed right)))) =
      some (lead, left ++ (templateClose ++ trimmed right)) := Text.cutFirst?_first _ (by decide) first
  rw [line, between, opens, Option.map_some, Option.getD_some, keeps_iff]
  by_cases inside : templateClose <:+: left
  · obtain ⟨⟨before, more⟩, cut⟩ := Option.isSome_iff_exists.mp (Text.contains_iff.mpr inside)
    have earlier := Text.not_infix_of_cutFirst? templateClose_occupied cut
    obtain rfl := Text.eq_append_of_cutFirst? cut
    have closes : Text.cutFirst? templateClose (before ++ (templateClose ++ more) ++ (templateClose ++ trimmed right)) =
        some (before, more ++ (templateClose ++ trimmed right)) := by
      rw [List.append_assoc, List.append_assoc]
      exact Text.cutFirst?_first _ (by decide) earlier
    rw [closes, Option.map_some, Option.getD_some]
    refine iff_of_false (fun keeps => ?_) (not_not_intro inside)
    have short := keeps.length_le
    rw [visible_append, visible_append, List.length_append, List.length_append] at short
    dsimp only at short
    have solid : (visible templateClose).length = 11 := by decide
    omega
  · have closes : Text.cutFirst? templateClose (left ++ (templateClose ++ trimmed right)) = some (left, trimmed right) :=
      Text.cutFirst?_first _ (by decide) inside
    rw [closes, Option.map_some, Option.getD_some]
    exact iff_of_true (List.Sublist.refl _) inside

variable {first second lead trail : List Char} {others : List (List Char)} {i : Nat}
  (single : ∀ line ∈ first :: second :: others, '\n' ∉ line) (template : second = lead ++ (templateOpen ++ trail))
  (opening : ¬ templateOpen <:+: lead)
  (found : Text.lastIndex? (Text.contains templateClose) (first :: second :: others) = Option.some i) {content behind : List Char}
  (text : Text.join ['\n'] (trail :: others) = content ++ (templateClose ++ behind))

include single template

theorem single_behind : ∀ line ∈ trail :: others, '\n' ∉ line := by
  intro line member
  rcases List.mem_cons.mp member with rfl | later
  · exact fun here => single second (by simp) (by rw [template]; simp [here])
  · exact single line (by simp [later])

include found text

-- An end of a template that is not on the last line with one: only what stands on the line of the opening tag is lost.
theorem shadow_keeps (more : templateClose <:+: afterLine behind)
    (clear : visible (content.takeWhile (· != '\n')) = []) :
    Keeps (if i = 1 then String.ofList (between templateOpen templateClose (trimmed second))
      else joinLines ((((first :: second :: others).take i).drop 2).map trimmed)) content := by
  obtain ⟨above, left, right, below, is, rfl, rfl⟩ := Text.join_cut templateClose_single templateClose_occupied text
  have flat := single_behind single template
  have flatLine : '\n' ∉ left ++ (templateClose ++ right) := flat _ (by rw [is]; simp)
  rw [infix_afterLine_iff templateClose_single templateClose_occupied fun here => flatLine (by simp [here])] at more
  have flatLeft : ∀ c ∈ left, (c != '\n') = true := fun c here =>
    bne_iff_ne.mpr fun same => flatLine (List.mem_append_left _ (same ▸ here))
  cases above with
  | nil =>
      have all : left.takeWhile (· != '\n') = left := List.takeWhile_eq_self_iff.mpr flatLeft
      rw [List.nil_append, Text.join, all] at clear
      rw [List.nil_append, Text.join, Keeps, clear]
      exact List.nil_sublist _
  | cons top mid =>
      rw [List.cons_append] at is
      obtain ⟨rfl, rfl⟩ := List.cons.inj is
      rw [List.cons_append, takeWhile_join (flat trail List.mem_cons_self) (by simp)] at clear
      cases later : Text.lastIndex? (Text.contains templateClose) below with
      | none =>
          obtain ⟨line, member, held⟩ := more
          rw [Text.lastIndex?_none later line member] at held
          cases held
      | some j =>
          have last := Text.lastIndex?_within later (first :: second :: (mid ++ [left ++ (templateClose ++ right)]))
          rw [List.cons_append, List.cons_append, ← List.append_cons, found] at last
          obtain rfl := Option.some.inj last
          have lines : ((first :: second :: (mid ++ (left ++ (templateClose ++ right)) :: below)).take
              ((first :: second :: (mid ++ [left ++ (templateClose ++ right)])).length + j)).drop 2 =
                mid ++ (left ++ (templateClose ++ right)) :: below.take j := by
            have whole : first :: second :: (mid ++ (left ++ (templateClose ++ right)) :: below) =
                (first :: second :: (mid ++ [left ++ (templateClose ++ right)])) ++ below := by simp
            rw [whole, List.take_length_add_append, List.cons_append, List.cons_append, ← List.append_cons]
            rfl
          have behind : (first :: second :: (mid ++ [left ++ (templateClose ++ right)])).length + j ≠ 1 := by
            simp only [List.length_cons]
            omega
          rw [if_neg behind, lines, keeps_lines, List.cons_append, visible_join, List.flatMap_cons, clear, List.nil_append,
            List.flatMap_append, List.flatMap_append, List.flatMap_singleton, List.flatMap_cons, visible_append,
            List.append_assoc]
          exact (List.Sublist.refl _).append (List.sublist_append_left _ _)

include opening

-- Otherwise all is kept exactly if the tags stand apart from it, or if it is on one line with both.
theorem shadow_keeps_iff (last : ¬ templateClose <:+: afterLine behind) :
    Keeps (if i = 1 then String.ofList (between templateOpen templateClose (trimmed second))
      else joinLines ((((first :: second :: others).take i).drop 2).map trimmed)) content ↔
    if templateClose <:+: afterLine (Text.join ['\n'] (trail :: others)) then Framed content
    else ¬ templateClose <:+: content := by
  obtain ⟨above, left, right, below, is, rfl, rfl⟩ := Text.join_cut templateClose_single templateClose_occupied text
  have flat := single_behind single template
  have flatBehind : '\n' ∉ right := fun here => flat (left ++ (templateClose ++ right)) (by rw [is]; simp) (by simp [here])
  rw [infix_afterLine_iff templateClose_single templateClose_occupied flatBehind] at last
  simp only [infix_afterLine_iff templateClose_single templateClose_occupied (flat trail List.mem_cons_self)]
  cases above with
  | nil =>
      obtain ⟨rfl, rfl⟩ := List.cons.inj is
      have here := lastIndex?_of_clear templateClose (lead ++ (templateOpen ++ left)) right [first] last
      have whole : second = lead ++ (templateOpen ++ left) ++ (templateClose ++ right) := by
        rw [template, List.append_assoc, List.append_assoc]
      rw [List.singleton_append, ← whole, found] at here
      obtain rfl := Option.some.inj here
      rw [List.length_singleton, if_pos rfl, if_neg last, template]
      exact keeps_between_tags_iff right opening
  | cons top mid =>
      rw [List.cons_append] at is
      obtain ⟨rfl, rfl⟩ := List.cons.inj is
      have here := lastIndex?_of_clear templateClose left right (first :: second :: mid) last
      rw [List.cons_append, List.cons_append, found] at here
      obtain rfl := Option.some.inj here
      have lines : ((first :: second :: (mid ++ (left ++ (templateClose ++ right)) :: below)).take
          (first :: second :: mid).length).drop 2 = mid := by simp
      have held : ∃ line ∈ mid ++ (left ++ (templateClose ++ right)) :: below, Text.contains templateClose line = true :=
        ⟨left ++ (templateClose ++ right), by simp, Text.contains_iff.mpr ⟨left, right, by rw [List.append_assoc]⟩⟩
      have flatLeft : '\n' ∉ left := fun here =>
        flat (left ++ (templateClose ++ right)) (by simp) (List.mem_append_left _ here)
      rw [if_neg (by simp), if_pos held, lines, List.cons_append]
      exact keeps_between_iff (flat trail List.mem_cons_self) flatLeft

end Shadow

-- What an outcome says of the text between the tags that it was stripped of. The end of the shadow template may be any:
-- it is not said which of them balances it.
def Account (html tag : String) : Markup → Prop
  | .scoped host kept => ∃ text, OpenTag.read? html.toList = some (host, text) ∧
      ∀ content behind, text = content ++ (closeTag tag ++ behind) → ¬ closeTag tag <:+: behind →
        (Keeps kept content ↔ '\n' ∉ content ∨ Framed content)
  | .shadow host kept => ∃ rest text, OpenTag.read? html.toList = some (host, rest) ∧ templateText? html = some text ∧
      ∀ content behind, text = content ++ (templateClose ++ behind) →
        (templateClose <:+: afterLine behind → visible (content.takeWhile (· != '\n')) = [] → Keeps kept content) ∧
        (¬ templateClose <:+: afterLine behind →
          (Keeps kept content ↔
            if templateClose <:+: afterLine text then Framed content else ¬ templateClose <:+: content))

theorem read?_html {html : String} {first rest : List Char} {others : List (List Char)} {host : OpenTag}
    (is : rawLines html = first :: others) (read : OpenTag.read? first = some (host, rest)) :
    OpenTag.read? html.toList = some (host, Text.join ['\n'] (rest :: others)) := by
  obtain ⟨passed, opens, again⟩ := OpenTag.read?_extent read
  have text : html.toList.dropWhile (· == '\n') = passed ++ '>' :: Text.join ['\n'] (rest :: others) := by
    rw [← join_rawLines, is, opens, List.append_cons, Text.join_head, List.append_assoc]
    rfl
  rw [← List.takeWhile_append_dropWhile (p := (· == '\n')) (l := html.toList), OpenTag.read?_blank, text, again]
  intro c here
  have feed := List.mem_takeWhile_imp here
  rw [beq_iff_eq.mp feed]
  decide

theorem templateText?_eq {html : String} {first second : List Char} {others : List (List Char)}
    (is : rawLines html = first :: second :: others) (template : Text.contains templateOpen second = true) :
    ∃ lead trail, second = lead ++ (templateOpen ++ trail) ∧ ¬ templateOpen <:+: lead ∧
      templateText? html = some (Text.join ['\n'] (trail :: others)) := by
  obtain ⟨⟨lead, trail⟩, cut⟩ := Option.isSome_iff_exists.mp template
  have first' := Text.not_infix_of_cutFirst? (by decide) cut
  have whole := Text.eq_append_of_cutFirst? cut
  have single : '\n' ∉ first := single_of_mem_rawLines (is ▸ List.mem_cons_self)
  refine ⟨lead, trail, whole, first', ?_⟩
  have begins : ¬ templateOpen <:+: '\n' :: lead := by
    rw [List.infix_cons_iff, not_or]
    refine ⟨?_, first'⟩
    rintro ⟨more, is⟩
    exact absurd (List.cons.inj is).1 (by decide)
  have text : afterLine (html.toList.dropWhile (· == '\n')) =
      ('\n' :: lead) ++ (templateOpen ++ Text.join ['\n'] (trail :: others)) := by
    rw [← join_rawLines, is, afterLine_join single, if_neg (by simp), whole, Text.join_head, Text.join_head]
    rfl
  have opens : Text.cutFirst? templateOpen ('\n' :: lead ++ (templateOpen ++ Text.join ['\n'] (trail :: others))) =
      some ('\n' :: lead, Text.join ['\n'] (trail :: others)) := Text.cutFirst?_first _ (by decide) begins
  rw [templateText?, text, opens]
  rfl

/-- A split that succeeds keeps all of the text between the tags, up to white space, exactly if no line of the text is
shared with one of them, or all of it is on one line with both; what shares a line with one tag only is lost. -/
theorem split_keeps {html tag : String} {serialization : Serialization} {markup : Markup}
    (ok : split html tag serialization = .ok markup) : Account html tag markup := by
  obtain ⟨first, others, rest, host, is, read, rfl, result⟩ := of_split_raw ok
  have single : ∀ line ∈ first :: others, '\n' ∉ line := fun line member => single_of_mem_rawLines (is ▸ member)
  have whole := read?_html is read
  rcases result with ⟨second, below, i, rfl, opens, found, -, rfl⟩ | ⟨i, found, rfl⟩
  · obtain ⟨lead, trail, template, opening, text⟩ := templateText?_eq is opens
    exact ⟨_, _, whole, text, fun content behind cut =>
      ⟨shadow_keeps single template found cut, shadow_keeps_iff single template opening found cut⟩⟩
  · exact ⟨_, whole, fun content behind cut last => scoped_keeps_iff (OpenTag.read?_named read).1 single read found cut last⟩

theorem split_keeps_framed :
    split "<x-a>\n  <template shadowrootmode=\"open\">\n    <b>x</b>\n  </template>\n  light\n</x-a>" "x-a" .declarative =
      .ok (.shadow ⟨"x-a", []⟩ "    <b>x</b>") ∧
    Account "<x-a>\n  <template shadowrootmode=\"open\">\n    <b>x</b>\n  </template>\n  light\n</x-a>" "x-a"
      (.shadow ⟨"x-a", []⟩ "    <b>x</b>") := by
  have ok : split "<x-a>\n  <template shadowrootmode=\"open\">\n    <b>x</b>\n  </template>\n  light\n</x-a>" "x-a" .declarative =
      .ok (.shadow ⟨"x-a", []⟩ "    <b>x</b>") := by decide +kernel
  exact ⟨ok, split_keeps ok⟩

theorem split_loses :
    ¬ ∀ (html tag : String) (serialization : Serialization) (host : OpenTag) (kept : String) (content behind : List Char),
      split html tag serialization = .ok (.shadow host kept) →
        templateText? html = some (content ++ (templateClose ++ behind)) →
          ¬ "<template".toList <:+: content → ¬ templateClose <:+: content → Keeps kept content := by
  intro keeps
  have kept := keeps "<x-a>\n<template shadowrootmode=\"open\">hello\n</template>\n</x-a>" "x-a" .declarative ⟨"x-a", []⟩ ""
    "hello\n".toList "\n</x-a>".toList (by decide +kernel) (by decide +kernel) (by decide) (by decide)
  have short := kept.length_le
  exact absurd short (by decide)

end Prerender.Markup
