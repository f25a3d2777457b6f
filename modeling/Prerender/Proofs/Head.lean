import Prerender.Proofs.Orphans
import Prerender.Proofs.Rewriting.ByTree

set_option autoImplicit false

namespace Prerender

open Script (Node Kind Span)
open Edit (stretch)

def Script.Node.isDirective : Node → Bool
  | .mk .expressionStatement _ [.mk (.string _) _ []] => true
  | _ => false

def Script.Node.prologue (tree : Node) : List Node := tree.parts.takeWhile Node.isDirective

def Script.Node.afterPrologue (tree : Node) : List Node := tree.parts.dropWhile Node.isDirective

def Script.Node.prologueStop (tree : Node) : Nat := tree.prologue.foldl (fun _ d => d.span.stop) 0

theorem Text.linesKept_ends {cs : List Char} (before : List (List Char)) {behind : List (List Char)}
    {line next : List Char} (lines : Text.linesKept cs = before ++ line :: next :: behind) : line.getLast? = some '\n' := by
  induction cs generalizing before line with
  | nil => simp [Text.linesKept] at lines
  | cons c cs ih =>
      rw [Text.linesKept] at lines
      split at lines
      · rename_i feed
        cases before with
        | nil =>
            obtain ⟨rfl, -⟩ := List.cons.inj lines
            rw [feed]
            rfl
        | cons first before => exact ih before (List.cons.inj lines).2
      · split at lines
        · cases before <;> simp at lines
        · rename_i l ls rest
          cases before with
          | nil =>
              obtain ⟨rfl, rfl⟩ := List.cons.inj lines
              have ends := ih [] rest
              rw [List.getLast?_cons, ends]
              rfl
          | cons first before =>
              obtain ⟨rfl, rfl⟩ := List.cons.inj lines
              exact ih (l :: before) rest

-- A run of lines comes to a place if and only if each line that begins before it belongs to the run.
theorem takeWhile_reaches (belongs : List Char → Bool) (lines : List (List Char)) (place : Nat)
    (fits : place ≤ lines.flatten.length) :
    place ≤ (lines.takeWhile belongs).flatten.length ↔ ∀ before line behind, lines = before ++ line :: behind →
      before.flatten.length < place → belongs line = true := by
  induction lines generalizing place with
  | nil => simpa using fits
  | cons l ls ih =>
      rw [List.flatten_cons, List.length_append] at fits
      by_cases is : belongs l = true
      · rw [List.takeWhile_cons_of_pos is, List.flatten_cons, List.length_append, ← Nat.sub_le_iff_le_add',
          ih (place - l.length) (by omega)]
        constructor
        · intro below before line behind same begins
          cases before with
          | nil => exact (List.cons.inj same).1 ▸ is
          | cons first before =>
              obtain ⟨rfl, rfl⟩ := List.cons.inj same
              rw [List.flatten_cons, List.length_append] at begins
              exact below before line behind rfl (by omega)
        · intro below before line behind same begins
          refine below (l :: before) line behind (congrArg _ same) ?_
          rw [List.flatten_cons, List.length_append]
          omega
      · rw [List.takeWhile_cons_of_neg is]
        constructor
        · intro none before line behind _ begins
          rw [Nat.le_zero.mp none] at begins
          exact absurd begins (Nat.not_lt_zero _)
        · intro below
          by_contra some_place
          exact is (below [] l ls rfl (Nat.pos_of_ne_zero fun none => some_place (by rw [none]; exact Nat.zero_le _)))

namespace Transform

def staysFirst (line : List Char) : Bool := (Text.trim line).isEmpty || isDirective line

theorem splitDirectives_eq (cs : List Char) : splitDirectives cs =
    (((Text.linesKept cs).takeWhile staysFirst).flatten, ((Text.linesKept cs).dropWhile staysFirst).flatten) := rfl

theorem split_at_line (cs : List Char) : (splitDirectives cs).1 = [] ∨ (splitDirectives cs).1.getLast? = some '\n' ∨
    (splitDirectives cs).2 = [] := by
  have whole := List.takeWhile_append_dropWhile (p := staysFirst) (l := Text.linesKept cs)
  rw [splitDirectives_eq]
  generalize (Text.linesKept cs).takeWhile staysFirst = front at whole ⊢
  cases back : (Text.linesKept cs).dropWhile staysFirst with
  | nil => exact .inr (.inr rfl)
  | cons next behind =>
      rcases List.eq_nil_or_concat' front with rfl | ⟨before, line, rfl⟩
      · exact .inl rfl
      · rw [back, List.append_assoc] at whole
        have ends : line.getLast? = some '\n' := Text.linesKept_ends before whole.symm
        refine .inr (.inl ?_)
        rw [List.flatten_append, List.flatten_singleton, List.getLast?_append, ends]
        rfl

theorem split_interpreter (cs : List Char) : (splitDirectives ('#' :: cs)).1 = [] := by
  obtain ⟨line, lines, first⟩ : ∃ line lines, Text.linesKept ('#' :: cs) = ('#' :: line) :: lines := by
    rw [Text.linesKept, if_neg (by decide)]
    split
    · exact ⟨_, _, rfl⟩
    · exact ⟨_, _, rfl⟩
  have trimmed : ∃ more, Text.trim ('#' :: line) = '#' :: more := by
    refine ⟨Text.dropEndWhile Text.isBlank line, ?_⟩
    rw [Text.trim, Text.trimStart, List.dropWhile_cons_of_neg (by decide), Text.trimEnd, Text.dropEndWhile_cons,
      if_neg (by simp [show Text.isBlank '#' = false by decide])]
  obtain ⟨more, trimmed⟩ := trimmed
  rw [splitDirectives_eq, first, List.takeWhile_cons_of_neg]
  · rfl
  · simp [staysFirst, isDirective, trimmed]

end Transform

namespace Script.Node

theorem isBare_of_isDirective {d : Node} (is : d.isDirective = true) : Rewriting.isBare d = false := by
  unfold isDirective at is
  split at is
  · rfl
  · cases is

theorem verbatim_of_isDirective {source : String} {tree d : Node} (r : Rewriting) (written : tree.Written source)
    (member : d ∈ tree.descendants) (room : d.span.start < d.span.stop) (is : d.isDirective = true) (k : Nat) :
    r.text k .plain d = stretch r.source d.span.start d.span.stop := by
  unfold isDirective at is
  split at is
  · rename_i span value inner
    have kinds : ∀ m ∈ (Node.mk .expressionStatement span [.mk (.string value) inner []]).descendants,
        m.kind = .expressionStatement ∨ m.kind = .string value := by
      simp [descendants, descendantsOf, Node.kind]
    refine Rewriting.text_verbatim written k member room (fun m below => ?_) fun m below => ?_
    · rcases kinds m below with same | same <;> simp [same]
    · exact Rewriting.ofNode?_of_kind (by rcases kinds m below with same | same <;> simp [same])
  · cases is

end Script.Node

namespace Rewriting

variable {source : String} {tree : Node}

theorem texts_prologue (r : Rewriting) (written : tree.Written source) :
    let total := source.toList.length
    tree.prologueStop ≤ total ∧ Lined tree.prologueStop total tree.afterPrologue ∧
      ∃ k, r.texts 0 [] 0 total tree.parts =
        stretch r.source 0 tree.prologueStop ++ r.texts k [] tree.prologueStop total tree.afterPrologue := by
  intro total
  have root : tree ∈ tree.descendants := (Node.mem_descendants tree tree).mpr ⟨[], rfl⟩
  have lined := lined_statements written
  have split : tree.prologue ++ tree.afterPrologue = tree.parts := List.takeWhile_append_dropWhile
  rw [← split] at lined ⊢
  have still : ∀ d ∈ tree.prologue, isBare d = false ∧
      ∀ k, r.text k .plain d = stretch r.source d.span.start d.span.stop := by
    intro d member
    have is : d.isDirective = true := List.all_eq_true.mp List.all_takeWhile d member
    have part_in : d ∈ tree.parts := split ▸ List.mem_append_left _ member
    have solid := Node.isBare_of_isDirective is
    have room := ((lined.within d (List.mem_append_left _ member)).resolve_left (by simp [solid])).1
    exact ⟨solid, Node.verbatim_of_isDirective r written (mem_part root part_in) room is⟩
  obtain ⟨-, fits, onward, k, same⟩ := texts_verbatim (r := r) 0 (Nat.zero_le _) lined still
  exact ⟨fits, onward, k, same⟩

end Rewriting

namespace Transform

/-- Where a block stands that is put between `head` and `rest`, the two parts of a rewritten module. -/
structure Headed (r : Rewriting) (tree : Node) (head rest : List Char) : Prop where
  line : head = [] ∨ head.getLast? = some '\n' ∨ rest = []
  -- The line of an interpreter is always behind the block.
  interpreter : ∀ cs, r.source = '#' :: '!' :: cs → head = []
  directives : (head ++ rest).take tree.prologueStop = r.source.take tree.prologueStop
  -- The directives are in front of it if and only if each line that begins before their end looks like one.
  behind_iff : tree.prologueStop ≤ head.length ↔
    ∀ before line behind, Text.linesKept (head ++ rest) = before ++ line :: behind →
      before.flatten.length < tree.prologueStop → staysFirst line = true
  -- It is between two statements if no other statement begins on a line of theirs.
  between : tree.prologueStop ≤ head.length → (∀ n ∈ tree.afterPrologue, head.length ≤ n.span.start) →
    head = r.source.take head.length ∧
      ∃ k, rest = r.texts k [] head.length r.source.length tree.afterPrologue

-- Nothing is edited in front of a program, so the line of an interpreter still begins the code.
theorem begins_with_interpreter {source : String} {tree : Node} {dialect : Script.Dialect} (r : Rewriting)
    (same : r.source = source.toList) (parsed : Script.parse? dialect source = some tree) {cs : List Char}
    (named : r.source = '#' :: '!' :: cs) : ∃ more, r.texts 0 [] 0 r.source.length tree.parts = '#' :: more := by
  have written := Script.parse?_written parsed
  have root : tree ∈ tree.descendants := (Node.mem_descendants tree tree).mpr ⟨[], rfl⟩
  have begins := Script.behind_interpreter parsed (same ▸ named)
  have behind : ∀ n ∈ tree.parts, Rewriting.isBare n = true ∨ 1 ≤ n.span.start := fun n member =>
    ((Rewriting.lined_parts written root).within n member).imp_right fun ⟨_, low, _⟩ => by omega
  have long : 1 ≤ r.source.length := by rw [named, List.length_cons]; omega
  refine ⟨r.texts 0 [] 1 r.source.length tree.parts, ?_⟩
  rw [Rewriting.texts_from 0 [] (Nat.zero_le 1) long behind, named]
  rfl

section
variable {source : String} {tree : Node} (r : Rewriting)

theorem between_statements (written : tree.Written source) (same : r.source = source.toList) {head rest : List Char}
    (whole : head ++ rest = r.texts 0 [] 0 r.source.length tree.parts) (reached : tree.prologueStop ≤ head.length)
    (clear : ∀ n ∈ tree.afterPrologue, head.length ≤ n.span.start) : head = r.source.take head.length ∧
      ∃ k, rest = r.texts k [] head.length r.source.length tree.afterPrologue := by
  obtain ⟨fits, lined, k, split⟩ := Rewriting.texts_prologue r written
  rw [← same] at fits lined split
  rw [split] at whole
  have low : head.length ≤ r.source.length := by
    by_cases bare : ∀ n ∈ tree.afterPrologue, Rewriting.isBare n = true
    · rw [Rewriting.texts_bare k [] _ _ bare, Edit.stretch_append r.source (Nat.zero_le _) fits] at whole
      have length := congrArg List.length whole
      rw [stretch, List.drop_zero, List.take_length, List.length_append] at length
      omega
    · push Not at bare
      obtain ⟨n, member, solid⟩ := bare
      have inside := (lined.within n member).resolve_left solid
      have begins := clear n member
      omega
  have front : (stretch r.source 0 head.length).length = head.length := by
    rw [stretch, List.drop_zero, List.length_take]
    exact Nat.min_eq_left low
  rw [Rewriting.texts_from k [] reached low fun n member => .inr (clear n member), ← List.append_assoc,
    Edit.stretch_append r.source (Nat.zero_le _) reached] at whole
  obtain ⟨first, second⟩ := List.append_inj whole front.symm
  exact ⟨first, k, second⟩

theorem headed {dialect : Script.Dialect} (same : r.source = source.toList)
    (parsed : Script.parse? dialect source = some tree) :
    let code := r.texts 0 [] 0 r.source.length tree.parts
    Headed r tree (splitDirectives code).1 (splitDirectives code).2 := by
  intro code
  have written := Script.parse?_written parsed
  obtain ⟨fits, -, k, split⟩ := Rewriting.texts_prologue r written
  rw [← same] at fits split
  have length : (stretch r.source 0 tree.prologueStop).length = tree.prologueStop := by
    rw [stretch, List.drop_zero, List.length_take]
    exact Nat.min_eq_left fits
  have whole : (splitDirectives code).1 ++ (splitDirectives code).2 = code := split_directives_append code
  have front : code = stretch r.source 0 tree.prologueStop ++ r.texts k [] tree.prologueStop r.source.length tree.afterPrologue :=
    split
  refine ⟨split_at_line code, fun cs named => ?_, ?_, ?_, between_statements r written same whole⟩
  · obtain ⟨more, begins⟩ := begins_with_interpreter r same parsed named
    rw [show code = '#' :: more from begins]
    exact split_interpreter more
  · rw [whole, front, List.take_append_of_le_length length.ge, List.take_of_length_le length.le]
    exact List.drop_zero
  · rw [whole]
    refine takeWhile_reaches staysFirst (Text.linesKept code) tree.prologueStop ?_
    rw [Text.lines_kept_flatten, front, List.length_append, length]
    exact Nat.le_add_right _ _

end

theorem code_of_texts (options : Options) (renderer : Renderer) (source path : String) (output : Output) (tree : Node)
    (ran : (run options renderer source path).result = .ok (some output))
    (parsed : Script.parse? (Script.Dialect.ofPage path) source = some tree) :
    let scan := Import.scan source options.library
    let r : Rewriting := ⟨source.toList, options.library, scan.factories, bindings options.registry scan.library⟩
    let code := r.texts 0 [] 0 source.toList.length tree.parts
    output.code.toList = (splitDirectives code).1 ++ (block output.declarations).toList ++ (splitDirectives code).2 := by
  intro scan r code
  have extracted : (Extraction.ofTree source options.library scan.factories (bindings options.registry scan.library)
      tree).code.toList = code := by
    rw [Extraction.code_toList]
    exact Rewriting.applyAll_edits (Script.parse?_written parsed) _ _ _
  rw [assembled_of_run options renderer source path output tree ran parsed, assemble]
  dsimp only
  rw [String.toList_append, String.toList_append, String.toList_ofList, String.toList_ofList, extracted]

/-- The block of a transformed module is put in one place of its rewritten code: behind the longest run of lines
that look like directives. -/
theorem run_headed (options : Options) (renderer : Renderer) (source path : String) (output : Output) (tree : Node)
    (ran : (run options renderer source path).result = .ok (some output))
    (parsed : Script.parse? (Script.Dialect.ofPage path) source = some tree) :
    let scan := Import.scan source options.library
    let r : Rewriting := ⟨source.toList, options.library, scan.factories, bindings options.registry scan.library⟩
    ∃ head rest, r.texts 0 [] 0 source.toList.length tree.parts = head ++ rest ∧
      output.code.toList = head ++ (block output.declarations).toList ++ rest ∧ Headed r tree head rest := by
  intro scan r
  have code := code_of_texts options renderer source path output tree ran parsed
  exact ⟨_, _, (split_directives_append _).symm, code, headed r rfl parsed⟩

def commentedPage : String :=
  "// page\n\"use client\"\nimport \x7bjsx\x7d from \"react/jsx-runtime\"\nimport \x7bA\x7d from \"lib\"\njsx(A,\x7b\x7d)"

def commentedRewriting : Rewriting :=
  let scan := Import.scan commentedPage sampleOptions.library
  ⟨commentedPage.toList, sampleOptions.library, scan.factories, bindings sampleOptions.registry scan.library⟩

theorem commented_runs :
    ∃ output, (run sampleOptions sampleRenderer commentedPage "page.js").result = .ok (some output) := by
  have succeeds : (run sampleOptions sampleRenderer commentedPage "page.js").result.toOption.join.isSome = true := by
    decide +kernel
  obtain ⟨output, made⟩ := Option.isSome_iff_exists.mp succeeds
  exact ⟨output, run_of_toOption made⟩

theorem commented_reads : ∃ tree, Script.parse? (Script.Dialect.ofPage "page.js") commentedPage = some tree ∧
    tree.prologue.length = 1 ∧ 0 < tree.prologueStop ∧ ∃ line behind, staysFirst line = false ∧
      Text.linesKept (commentedRewriting.texts 0 [] 0 commentedPage.toList.length tree.parts) = line :: behind := by
  have facts : (Script.parse? (Script.Dialect.ofPage "page.js") commentedPage).any (fun tree =>
      decide (tree.prologue.length = 1) && (decide (0 < tree.prologueStop) && (Text.linesKept (commentedRewriting.texts
        0 [] 0 commentedPage.toList.length tree.parts)).head?.any (!staysFirst ·))) = true := by
    decide +kernel
  obtain ⟨tree, parsed, facts⟩ := (Option.any_eq_true _ _).mp facts
  obtain ⟨one, facts⟩ := Bool.and_eq_true_iff.mp facts
  obtain ⟨some_directive, first⟩ := Bool.and_eq_true_iff.mp facts
  obtain ⟨line, found, other⟩ := (Option.any_eq_true _ _).mp first
  obtain ⟨behind, lines⟩ := List.head?_eq_some_iff.mp found
  exact ⟨tree, parsed, of_decide_eq_true one, of_decide_eq_true some_directive, line, behind, by simpa using other, lines⟩

theorem run_headed_commented :
    ∃ output tree head rest, (run sampleOptions sampleRenderer commentedPage "page.js").result = .ok (some output) ∧
      Script.parse? (Script.Dialect.ofPage "page.js") commentedPage = some tree ∧
      output.code.toList = head ++ (block output.declarations).toList ++ rest ∧
      Headed commentedRewriting tree head rest ∧ ¬ tree.prologueStop ≤ head.length := by
  obtain ⟨output, ran⟩ := commented_runs
  obtain ⟨tree, parsed, -, some_directive, line, behind, other, lines⟩ := commented_reads
  obtain ⟨head, rest, whole, code, headed⟩ :=
    run_headed sampleOptions sampleRenderer commentedPage "page.js" output tree ran parsed
  refine ⟨output, tree, head, rest, ran, parsed, code, headed, fun reached => ?_⟩
  have stays := headed.behind_iff.mp reached [] line behind (whole ▸ lines) some_directive
  rw [other] at stays
  cases stays

theorem run_loses_directive :
    ((Script.parse? (Script.Dialect.ofPage "page.js") commentedPage).map fun tree => tree.prologue.length) = some 1 ∧
      ((run sampleOptions sampleRenderer commentedPage "page.js").result.toOption.bind id).map (fun output =>
        creatorImport.toList.isPrefixOf output.code.toList) = some true := by
  obtain ⟨output, ran⟩ := commented_runs
  obtain ⟨tree, parsed, one, -, line, behind, other, lines⟩ := commented_reads
  have first : creatorImport.toList <+: output.code.toList := by
    have front : (splitDirectives (commentedRewriting.texts 0 [] 0 commentedPage.toList.length tree.parts)).1 = [] := by
      rw [splitDirectives_eq, lines, List.takeWhile_cons_of_neg (by rw [other]; exact Bool.false_ne_true)]
      rfl
    have code := code_of_texts sampleOptions sampleRenderer commentedPage "page.js" output tree ran parsed
    rw [code, ← commentedRewriting, front, List.nil_append, block, String.toList_append, String.toList_append]
    simp only [List.append_assoc, List.prefix_append]
  refine ⟨by rw [parsed, Option.map_some, one], ?_⟩
  rw [ran]
  exact congrArg some (List.isPrefixOf_iff_prefix.mpr first)

end Transform

end Prerender
