import Prerender.Proofs.Script.Grammar.Jsx
import Prerender.Proofs.Script.Grammar.Statement
import Prerender.Script.Parse

set_option autoImplicit false

namespace Prerender.Script

open Parse

variable {src : Source} {g : Grammar}

theorem Grammar.sound_step (sound : g.Sound src) : g.step.Sound src
  | .statement alone => StatementSyntax.reads_statement sound alone
  | .expression => Expression.reads_expression sound
  | .assignment returnType => Expression.reads_assignment sound returnType
  | .binary above => Expression.reads_binary sound above
  | .unary => Expression.reads_unary sound
  | .leftHand => Expression.reads_leftHand sound
  | .constructed => Expression.reads_constructed sound
  | .pattern => Pattern.reads_target sound
  | .type => TypeSyntax.reads_type sound
  | .typeOperand => TypeSyntax.reads_operand sound
  | .jsx inTags => Jsx.reads_element sound inTags

theorem Grammar.sound_ofDepth (n : Nat) : (Grammar.ofDepth n).Sound src := by
  induction n with
  | zero => exact fun _ _ _ => .failure
  | succ n ih => exact sound_step ih

theorem reads_statements (sound : g.Sound src) (n : Nat) : Reads src.loosely false (program.finish g n) := by
  induction n with
  | zero => exact fun _ _ => .failure
  | succ n ih =>
      intro s stands
      refine .begin stands (.look looks_token fun t => ?_)
      split
      · exact .pure fun _ reading => reading
      · exact (sound (.statement false)).then fun statement => ih.then fun statements => .pure fun _ reading => reading.forget

-- The program is whatever stands between its first token and the last one; that may be nothing.
theorem leads_program (sound : g.Sound src) {s : State} (stands : s.Stands src.loosely) : Leads (· = s) (program g)
    fun tree _ => tree.kind = .program ∧ tree.span.start = s.token.start ∧ tree.Sound src ∧
      tree.span.stop ≤ src.text.length := by
  refine .position (.begin stands (.look looks_get fun t => (reads_statements sound _).then fun statements => ?_))
  intro t tree s' reading run
  cases run
  exact ⟨rfl, rfl, Node.sound_node rfl reading.row, reading.stands.behind.trans reading.stands.token.begins⟩

theorem firstToken_of (html : Bool) (text : List Char) : (firstToken html text).Of text := by
  unfold firstToken
  split
  · rename_i line
    have fits := (List.takeWhile_sublist (l := line) fun c => !isLineEnd c).length_le
    refine (Token.of_first html ?_).1
    rw [List.length_cons, List.length_cons]
    omega
  · exact (Token.of_first html (Nat.zero_le _)).1

theorem parse?_sound {dialect : Dialect} {source : String} {tree : Node} (read : parse? dialect source = some tree) :
    tree.kind = .program ∧ tree.span.start = (firstToken (!dialect.isModule) source.toList).start ∧
      tree.Sound ⟨source.toList, dialect⟩ ∧ tree.span.stop ≤ source.toList.length := by
  unfold parse? at read
  extract_lets text t context start at read
  split at read
  · cases read
  · rename_i final ran known
    have stands : start.Stands (Source.loosely ⟨source.toList, dialect⟩) := ⟨firstToken_of _ _, known, Nat.zero_le _, rfl⟩
    obtain ⟨distinct, read⟩ := Option.ite_none_left_eq_some.mp read
    cases read
    exact leads_program (Grammar.sound_ofDepth _) stands start tree final rfl ran
  · cases read

-- A program does not begin in the line that names an interpreter.
theorem behind_interpreter {dialect : Dialect} {source : String} {tree : Node} {line : List Char}
    (read : parse? dialect source = some tree) (named : source.toList = '#' :: '!' :: line) : 2 ≤ tree.span.start := by
  have fits := (List.takeWhile_sublist (l := line) fun c => !isLineEnd c).length_le
  rw [(parse?_sound read).2.1, named, firstToken]
  refine Nat.le_trans (Nat.le_add_right 2 _) (Token.of_first _ ?_).2
  rw [List.length_cons, List.length_cons]
  omega

theorem parse?_written {dialect : Dialect} {source : String} {tree : Node}
    (read : parse? dialect source = some tree) : tree.Written source := by
  obtain ⟨program, -, sound, fits⟩ := parse?_sound read
  exact ⟨sound.order, program, String.length_toList ▸ fits,
    fun n member => (sound n member).braced, fun n member => (sound n member).clause⟩

-- An import in an object literal ends before the part of the literal that it stands in.
theorem snug_of_parse? {dialect : Dialect} {source : String} {tree n part : Node}
    (read : parse? dialect source = some tree) (member : n ∈ tree.descendants) (object : n.isObject = true)
    (part_in : part ∈ n.parts) : part.Snug := by
  refine ((parse?_sound read).2.2.1 n member).closed ?_ part part_in
  unfold Node.isObject at object
  split at object
  · rename_i is
    rw [is]
    rfl
  · cases object

theorem importDeclaration_of_parse? {dialect : Dialect} {source : String} {tree n : Node}
    (read : parse? dialect source = some tree) (member : n ∈ tree.descendants) (is : n.isImport = true) :
    ∃ s s', s.Stands (Source.mk source.toList dialect) ∧ s.token.start = n.span.start ∧
      ModuleSyntax.importDeclaration s = some (n, s') := ((parse?_sound read).2.2.1 n member).imported is

end Prerender.Script
