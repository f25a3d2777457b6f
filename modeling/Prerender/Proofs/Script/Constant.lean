import Prerender.Proofs.Script.Compound

set_option autoImplicit false

namespace Prerender.Script

open Parse

variable {g : Grammar} {m n : Nat} {cs rest text : List Char} {holds : Node → Prop}

theorem Parse.runs_semicolon : Runs n [';'] [] semicolon fun _ => True := by
  have begins : Begins [';'] (.symbol ";") [] := begins_lone (by decide) .nil nofun
  have ended : Runs n [';'] [';'] endsStatement (· = true) := by
    refine .token begins.lexed fun t lexeme _ => ?_
    rw [lexeme]
    refine .pure ?_
    simp [Token.isOneOf, Token.is_eq lexeme, Lexeme.spelling]
  exact .bind ended fun _ is => .yes is (runs_eat begins rfl (.pure trivial))

theorem Pattern.runs_target {name : String} (begins : Begins cs (.word name false) rest)
    (free : name ∉ "\x7b" :: "[" :: Expression.keywords) :
    Runs n cs rest (Pattern.target g) fun e => ∃ span, e = .mk (.binding name) span [] := by
  have other {text : String} (here : text ∈ "\x7b" :: "[" :: Expression.keywords) : name ≠ text :=
    fun is => free (is ▸ here)
  have plain : Runs n cs rest Pattern.bindingName fun e => ∃ span, e = .mk (.binding name) span [] := by
    refine .token begins.lexed fun t lexeme _ => ?_
    rw [lexeme]
    have reserved : name ∉ reservedWords := fun here =>
      free (List.mem_cons_of_mem _ (List.mem_cons_of_mem _ (List.mem_append_right _ here)))
    have await : name ≠ "await" := other (by decide)
    have yield : name ≠ "yield" := other (by decide)
    refine .no (by simpa using reserved) (.look (fun s => ⟨_, rfl⟩) fun c => ?_)
    refine .bind (runs_flawIf ?_) fun _ _ => runs_single begins _
    simp [Pattern.isTaken, await, yield]
  have bare {text : String} (here : text ∈ "\x7b" :: "[" :: Expression.keywords) :
      (Lexeme.word name false).spelling ≠ some text := fun is => other here (Option.some.inj is)
  exact .look (fun s => ⟨_, rfl⟩) fun start => runs_keep begins.lexed (bare (by decide)) (.no Bool.false_ne_true
    (runs_keep begins.lexed (bare (by decide)) (.no Bool.false_ne_true plain)))

namespace DeclarationSyntax

theorem runs_declarator {name : String} (named : Begins cs (.word name false) ('=' :: ' ' :: (text ++ rest)))
    (free : name ∉ "\x7b" :: "[" :: Expression.keywords) (written : Expression.Written (m + 1) n text holds)
    (ends : Ends rest) :
    Runs n cs rest (declarator (Grammar.ofDepth (m + 1))) fun d =>
      ∃ span target e, d = .mk .declarator span [target, e] ∧ holds e := by
  have opens := written.opens rest ends
  have equals : Begins ('=' :: ' ' :: (text ++ rest)) (.symbol "=") (text ++ rest) :=
    @begins_blank _ _ ['='] (Lexeme.read_equals _) opens.solid opens.known
  refine .look (fun s => ⟨_, rfl⟩) fun start => .bind (Pattern.runs_target named free) ?_
  rintro target ⟨at_, rfl⟩
  refine .look (fun s => ⟨_, rfl⟩) fun typed => .token equals.lexed fun t _ _ => ?_
  refine runs_pass equals.lexed (by decide) (.look (fun s => ⟨_, rfl⟩) fun typed => ?_)
  refine runs_keepIf equals.lexed (by decide) (.no nofun (.bind (.pure rfl) fun target _ => ?_))
  refine runs_eat equals rfl (.yes rfl ?_)
  refine .bind (written.runs rest ends) fun e is => ?_
  refine (runs_node _ start _).weaken ?_
  rintro _ ⟨span, rfl⟩
  exact ⟨span, _, e, rfl, is⟩

theorem lacksValue_present {span : Span} {target e : Node} (present : e.isAbsent = false) (constant : Bool) :
    lacksValue constant (.mk .declarator span [target, e]) = false := by
  unfold lacksValue
  split
  next value parts =>
    obtain ⟨-, rfl⟩ : _ ∧ e = value := by simpa [Node.parts] using parts
    rw [present, Bool.false_and]
  next value _ parts =>
    obtain ⟨-, rfl⟩ : _ ∧ e = value := by simpa [Node.parts] using parts
    rw [present, Bool.false_and]
  next => rfl

theorem runs_modifiers {β : Type} {holds : β → Prop} {l : Lexeme} {typed : Bool} {f : List String → Parse β}
    (lexed : (Lexeme.read cs).1 = l) (other : ∀ text ∈ modifiers, l.spelling ≠ some text)
    (then_ : Runs n cs rest (f []) holds) :
    Runs n cs rest (if typed = true then get >>= fun s => modifiersCounted s.limit >>= f else Pure.pure [] >>= f) holds := by
  refine .either (.state fun s enough => ?_) then_
  obtain ⟨k, is⟩ : ∃ k, s.limit = k + 1 := ⟨s.limit - 1, by omega⟩
  have none_of : (modifiers.any fun text => l.spelling == some text) = false :=
    List.any_eq_false.mpr fun text here => by simpa using other text here
  have none_here : Runs n cs cs seesModifier (· = false) := by
    refine runs_seesAny lexed (.look (fun s => ⟨_, rfl⟩) fun t => .look (fun s => ⟨_, rfl⟩) fun u => .pure ?_)
    simp [none_of]
  have none_read : Runs n cs cs (modifiersCounted (k + 1)) (· = []) :=
    .bind none_here fun seen none_seen => .no (by simp [none_seen]) (.pure rfl)
  rw [is]
  exact .bind none_read fun _ is => is ▸ then_

end DeclarationSyntax

def constant (text : List Char) : List Char :=
  "const".toList ++ ' ' :: ("value".toList ++ ' ' :: '=' :: ' ' :: (text ++ [';']))

theorem constant_toList (text : String) : ("const value = " ++ text ++ ";").toList = constant text.toList := by
  have head : "const value = ".toList = "const".toList ++ ' ' :: ("value".toList ++ [' ', '=', ' ']) := by decide
  have regroup (cs ds es : List Char) : cs ++ ' ' :: (ds ++ [' ', '=', ' ']) ++ es ++ [';'] =
      cs ++ ' ' :: (ds ++ ' ' :: '=' :: ' ' :: (es ++ [';'])) := by simp
  rw [String.toList_append, String.toList_append, head]
  exact regroup _ _ _

theorem length_constant (text : List Char) : text.length ≤ (constant text).length := by
  have inside (cs ds : List Char) : text.length ≤ (cs ++ ' ' :: (ds ++ ' ' :: '=' :: ' ' :: (text ++ [';']))).length := by
    simp only [List.length_append, List.length_cons]
    omega
  exact inside _ _

theorem begins_constant (text : List Char) :
    Begins (constant text) (.word "const" false) ("value".toList ++ ' ' :: '=' :: ' ' :: (text ++ [';'])) ∧
    Begins ("value".toList ++ ' ' :: '=' :: ' ' :: (text ++ [';'])) (.word "value" false)
      ('=' :: ' ' :: (text ++ [';'])) := by
  have equals : (Lexeme.read ('=' :: ' ' :: (text ++ [';']))).1 ≠ .unknown := by
    rw [Lexeme.read_equals]
    nofun
  have named : Begins ("value".toList ++ ' ' :: '=' :: ' ' :: (text ++ [';'])) (.word "value" false)
      ('=' :: ' ' :: (text ++ [';'])) :=
    begins_blank (Lexeme.read_name (by decide) rfl) (.visible (by decide) (by decide) _) equals
  have known : (Lexeme.read ("value".toList ++ ' ' :: '=' :: ' ' :: (text ++ [';']))).1 ≠ .unknown := by
    rw [named.lexed]
    nofun
  exact ⟨begins_blank (Lexeme.read_name (by decide) rfl) (Expression.solid_word (by decide) _) known, named⟩

section
variable (written : Expression.Written (m + 1) n text holds) (present : ∀ e, holds e → e.isAbsent = false)
include written present

namespace DeclarationSyntax

theorem runs_declarators (start : Nat) :
    Runs n ("value".toList ++ ' ' :: '=' :: ' ' :: (text ++ [';'])) [';']
      (declarators (Grammar.ofDepth (m + 1)) start false true true) fun d =>
      ∃ span at_ target e, d = .mk (.variableList false) span [.mk .declarator at_ [target, e]] ∧ holds e := by
  have ends : Ends [';'] := fun c here => Option.some.inj here ▸ by decide
  have alone : (Lexeme.read [';']).1.spelling ≠ some "," := by decide
  have named := (begins_constant text).2
  refine .bind (runs_separated_once (runs_declarator named (by decide) written ends) alone) ?_
  rintro _ ⟨_, rfl, at_, target, e, rfl, is⟩
  have listed : Runs n [';'] [';'] (node (.variableList false) start [.mk .declarator at_ [target, e]]) fun d =>
      ∃ span at_ target e, d = .mk (.variableList false) span [.mk .declarator at_ [target, e]] ∧ holds e := by
    refine (runs_node _ start _).weaken ?_
    rintro _ ⟨span, rfl⟩
    exact ⟨span, at_, target, e, rfl, is⟩
  refine .look (fun s => ⟨_, rfl⟩) fun c => .either (.bind (runs_flawIf ?_) fun _ _ => listed) listed
  simp [lacksValue_present (present e is)]

theorem runs_variable :
    Runs n (constant text) [] (variableList (Grammar.ofDepth (m + 1))) fun d =>
      ∃ span at_ target e, d = .mk (.variableList false) span [.mk .declarator at_ [target, e]] ∧ holds e := by
  obtain ⟨keyword, -⟩ := begins_constant text
  refine .look (fun s => ⟨_, rfl⟩) fun start => runs_sees keyword.lexed (runs_sees keyword.lexed ?_)
  refine .bind (runs_advance keyword) fun _ _ => .bind (runs_declarators written present start) fun d is => ?_
  exact .bind runs_semicolon fun _ _ => .pure is

theorem runs_constant :
    Runs n (constant text) [] (declaration (Grammar.ofDepth (m + 1))) fun d =>
      ∃ span at_ target e, d = .mk (.variableList false) span [.mk .declarator at_ [target, e]] ∧ holds e := by
  obtain ⟨keyword, named⟩ := begins_constant text
  refine .look (fun s => ⟨_, rfl⟩) fun start => .look (fun s => ⟨_, rfl⟩) fun typed => ?_
  refine runs_modifiers keyword.lexed (by decide) (runs_sees keyword.lexed (runs_sees keyword.lexed ?_))
  refine .bind (runs_flawIf rfl) fun _ _ => runs_within (runs_peek keyword fun next lexeme => ?_)
  refine runs_seesAny keyword.lexed (.no (by decide) (runs_sees keyword.lexed (.yes rfl (.no ?_ ?_))))
  · rw [named.lexed] at lexeme
    simp [Token.is_eq lexeme, Lexeme.spelling]
  · exact runs_variable written present

end DeclarationSyntax

theorem StatementSyntax.runs_statement :
    Runs n (constant text) [] (Grammar.ofDepth (m + 2) (.statement false)) fun d =>
      ∃ span at_ target e, d = .mk (.variableList false) span [.mk .declarator at_ [target, e]] ∧ holds e := by
  obtain ⟨keyword, -⟩ := begins_constant text
  refine .look (fun s => ⟨_, rfl⟩) fun start => .token keyword.lexed fun t lexeme _ => ?_
  rw [lexeme]
  refine .look (fun s => ⟨_, rfl⟩) fun start => .token keyword.lexed fun u same _ => ?_
  have is_eq (other : String) : u.is other = ("const" == other) := by
    rw [Token.is_eq same]
    exact Option.some_beq_some ..
  simp only [is_eq]
  iterate 15 refine .no (by decide) ?_
  exact .yes (by decide) (.bind (runs_flawIf rfl) fun _ _ => DeclarationSyntax.runs_constant written present)

theorem runs_program (room : 0 < n) :
    Runs n (constant text) [] (program (Grammar.ofDepth (m + 2))) fun tree => ∃ whole span at_ target e,
      tree = .mk .program whole [.mk (.variableList false) span [.mk .declarator at_ [target, e]]] ∧ holds e := by
  obtain ⟨keyword, -⟩ := begins_constant text
  refine .look (fun s => ⟨_, rfl⟩) fun start => .state fun s enough => ?_
  obtain ⟨k, is⟩ : ∃ k, s.limit = k + 2 := ⟨s.limit - 2, by omega⟩
  have none_left : Runs n [] [] (program.finish (Grammar.ofDepth (m + 2)) (k + 1)) (· = []) := by
    refine .token rfl fun t lexeme _ => ?_
    rw [lexeme]
    exact .pure rfl
  have statements : Runs n (constant text) [] (program.finish (Grammar.ofDepth (m + 2)) (k + 2)) fun found =>
      ∃ span at_ target e, found = [.mk (.variableList false) span [.mk .declarator at_ [target, e]]] ∧ holds e := by
    refine .token keyword.lexed fun t lexeme _ => ?_
    rw [lexeme]
    refine .bind (StatementSyntax.runs_statement written present) ?_
    rintro _ ⟨span, at_, target, e, rfl, held⟩
    refine .bind none_left ?_
    rintro _ rfl
    exact .pure ⟨span, at_, target, e, rfl, held⟩
  rw [is]
  refine .bind statements ?_
  rintro _ ⟨span, at_, target, e, rfl, held⟩
  refine (runs_node _ start _).weaken ?_
  rintro _ ⟨whole, rfl⟩
  exact ⟨whole, span, at_, target, e, rfl, held⟩

end

def initializer? : Node → Option Node
  | .mk .program _ [.mk (.variableList _) _ [.mk .declarator _ [_, e]]] => some e
  | _ => none

theorem parse?_constant (dialect : Dialect) {text : String} (expressed : Expression.Expressed text.toList holds)
    (present : ∀ e, holds e → e.isAbsent = false) :
    ∃ tree e, parse? dialect ("const value = " ++ text ++ ";") = some tree ∧ initializer? tree = some e ∧ holds e := by
  obtain ⟨keyword, -⟩ := begins_constant text.toList
  have long : text.toList.length ≤ (constant text.toList).length := length_constant _
  generalize size : (constant text.toList).length = length at long
  have written := expressed (16 * length + 63) (length + 1) (by omega) (by omega)
  have first (html : Bool) : firstToken html (constant text.toList) =
      Token.read (Lexeme.read (constant text.toList)) 0 false (constant text.toList) :=
    @Token.first_solid (constant text.toList) (Expression.solid_word (show Lexeme.isWord "const" = true by decide) _) html 0
  let context : Context := ⟨true, false, dialect.isModule, false, dialect.ambient, false, false⟩
  let start : State := ⟨firstToken (!dialect.isModule) (constant text.toList), 0, false, [], context, dialect, length + 2⟩
  obtain ⟨tree, start', last', run, whole, span, at_, target, e, rfl, held⟩ :=
    runs_program written present (Nat.succ_pos length) start 0 0 (Nat.lt_succ_self _)
  have read : program (Grammar.ofDepth (16 * length + 64))
      ⟨Token.read (Lexeme.read (constant text.toList)) 0 false (constant text.toList), 0, false, [], context, dialect,
        length + 2⟩ = some (_, _) := run
  have lexeme : (Token.read (Lexeme.read (constant text.toList)) 0 false (constant text.toList)).lexeme = .word "const" false :=
    keyword.lexed
  refine ⟨.mk .program whole [.mk (.variableList false) span [.mk .declarator at_ [target, e]]], e, ?_, rfl, held⟩
  rw [parse?, constant_toList]
  dsimp only
  rw [first, size, lexeme, read]
  have unnamed : (Node.mk .program whole [.mk (.variableList false) span [.mk .declarator at_ [target, e]]]).parts.flatMap
      exportedNames = [] := rfl
  have distinct : decide ([] : List String).Nodup = true := rfl
  refine if_neg ?_
  rw [unnamed, distinct, Bool.or_true]
  exact Bool.false_ne_true

end Prerender.Script
