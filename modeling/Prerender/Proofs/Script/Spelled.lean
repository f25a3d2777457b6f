import Prerender.Proofs.Script.Running
import Prerender.Proofs.Text.Words

set_option autoImplicit false

/-!
Readings of a text that is known. White space in front of a token is passed over, so what a rule comes to is told by
the words of the text in their order, however they are spaced. Nothing is said about whether a rule succeeds, only
what it has read if it does.
-/
namespace Prerender.Script

theorem blank_passed {c : Char} (blank : Text.isBlank c = true) :
    (isLineEnd c = true ∨ isBlank c = true) ∧ c ∉ ['/', '<', '-'] := by
  have all : ∀ n ∈ Text.blankCodes, (isLineEnd (Char.ofNat n) = true ∨ isBlank (Char.ofNat n) = true) ∧
      Char.ofNat n ∉ ['/', '<', '-'] := by decide
  rw [← Char.ofNat_toNat c]
  exact all c.toNat (Text.mem_blankCodes blank)

theorem gap_blanks {gap rest : List Char} (blank : ∀ c ∈ gap, Text.isBlank c = true) (solid : Solid rest)
    (html newline : Bool) (n : Nat) :
    ∃ ended, Script.gap html .blank newline n (gap ++ rest) = some (n + gap.length, ended) := by
  induction gap generalizing newline n with
  | nil => exact ⟨newline, solid html newline n⟩
  | cons c gap ih =>
      obtain ⟨here, blank⟩ := List.forall_mem_cons.mp blank
      obtain ⟨passed, other⟩ := blank_passed here
      simp only [List.mem_cons, List.not_mem_nil, or_false, not_or] at other
      rw [List.cons_append, Script.gap.eq_7 html newline n c (gap ++ rest) (fun _ is _ => other.1 is)
        (fun _ is _ => other.1 is) (fun _ is _ => other.2.1 is) (fun _ is _ => other.2.2 is), List.length_cons,
        Nat.add_comm gap.length 1, ← Nat.add_assoc]
      by_cases line : isLineEnd c = true
      · rw [if_pos line]
        exact ih blank true (n + 1)
      · rw [if_neg line, if_pos (passed.resolve_left line)]
        exact ih blank newline (n + 1)

-- The word that a text begins with behind white space, what it is read as, and what stands behind it.
structure Spells (cs word : List Char) (l : Lexeme) (rest : List Char) : Prop where
  cut : ∃ gap : List Char, (∀ c ∈ gap, Text.isBlank c = true) ∧ cs = gap ++ (word ++ rest)
  solid : Solid (word ++ rest)
  lexed : Lexeme.read (word ++ rest) = (l, word.length)

variable {cs word rest : List Char} {l : Lexeme}

theorem Spells.first (spells : Spells cs word l rest) (html : Bool) (at_ : Nat) :
    ∃ start newline, Token.first html at_ cs = Token.read (l, word.length) start newline (word ++ rest) := by
  obtain ⟨⟨gap, blank, rfl⟩, solid, lexed⟩ := spells
  obtain ⟨newline, passed⟩ := gap_blanks blank solid html false 0
  refine ⟨at_ + gap.length, newline, ?_⟩
  rw [Token.first, passed]
  simp only [Nat.zero_add, List.drop_left, lexed]

variable {src : Passage}

structure State.Before (src : Passage) (cs : List Char) (s : State) : Prop where
  stands : s.Stands src
  token : ∃ at_, s.token = Token.first (Parse.html s) at_ cs

namespace State.Before

variable {s : State} (before : s.Before src cs) (spells : Spells cs word l rest)
include before spells

theorem token_eq : ∃ start newline, s.token = Token.read (l, word.length) start newline (word ++ rest) := by
  obtain ⟨at_, is⟩ := before.token
  obtain ⟨start, newline, first⟩ := spells.first (Parse.html s) at_
  exact ⟨start, newline, is.trans first⟩

theorem lexeme : s.token.lexeme = l := by
  obtain ⟨start, newline, is⟩ := before.token_eq spells
  rw [is]
  rfl

theorem stop : s.token.stop = s.token.start + word.length := by
  obtain ⟨start, newline, is⟩ := before.token_eq spells
  rw [is]
  rfl

theorem here : src.text.drop s.token.start = word ++ rest := by
  obtain ⟨start, newline, is⟩ := before.token_eq spells
  rw [← before.stands.token.here, is]
  rfl

theorem first : src.text[s.token.start]? = (word ++ rest).head? := by
  rw [← before.here spells, List.head?_drop]

theorem next : s.token.next (Parse.html s) = Token.first (Parse.html s) s.token.stop rest := by
  obtain ⟨start, newline, is⟩ := before.token_eq spells
  have left : s.token.rest = rest := by
    rw [is, Token.rest, Token.read]
    simp
  rw [Token.next, left]

end State.Before

theorem Leads.given {α : Type} {known : Prop} {pre : State → Prop} {p : Parse α} {post : α → State → Prop}
    (then_ : known → Leads pre p post) : Leads (fun s => known ∧ pre s) p post :=
  fun s a s' ⟨known, before⟩ run => then_ known s a s' before run

theorem Leads.each {α ι : Type} {pre : ι → State → Prop} {p : Parse α} {post : α → State → Prop}
    (then_ : ∀ i, Leads (pre i) p post) : Leads (fun s => ∃ i, pre i s) p post :=
  fun s a s' ⟨i, before⟩ run => then_ i s a s' before run

theorem Leads.otherwise {α : Type} {pre : State → Prop} {p q : Parse α} {post : α → State → Prop}
    (then_ : Leads pre q post) : Leads pre (if false then p else q) post := by
  rwa [if_neg Bool.false_ne_true]

namespace Parse

section
variable {β : Type} {post : β → State → Prop}

theorem before_token {f : Token → Parse β} (spells : Spells cs word l rest)
    (then_ : ∀ t : Token, t.lexeme = l → Leads (State.Before src cs) (f t) post) :
    Leads (State.Before src cs) (token >>= f) post :=
  fun s b s' before run => then_ s.token (before.lexeme spells) s b s' before run

theorem before_sees {text : String} {f : Bool → Parse β} (spells : Spells cs word l rest)
    (then_ : Leads (State.Before src cs) (f (l.spelling == some text)) post) :
    Leads (State.Before src cs) (sees text >>= f) post := by
  intro s b s' before run
  refine then_ s b s' before ?_
  rw [← Token.is_eq (before.lexeme spells)]
  exact run

theorem before_peek {f : Token → Parse β} {word' rest' : List Char} {l' : Lexeme} (spells : Spells cs word l rest)
    (next : Spells rest word' l' rest') (then_ : ∀ t : Token, t.lexeme = l' → Leads (State.Before src cs) (f t) post) :
    Leads (State.Before src cs) (peek >>= f) post := by
  intro s b s' before run
  refine then_ (s.token.next (html s)) ?_ s b s' before run
  obtain ⟨start, newline, first⟩ := next.first (html s) s.token.stop
  rw [before.next spells, first]
  rfl

theorem before_advance (spells : Spells cs word l rest) :
    Leads (State.Before src cs) advance fun _ => State.Before src rest := by
  intro s u s' before run
  have stands := (reads_advance s before.stands s u s' rfl run).stands
  obtain ⟨rfl, -⟩ := eq_of_advance run
  exact ⟨stands, s.token.stop, before.next spells⟩

theorem before_expect {text : String} (spells : Spells cs word l rest) :
    Leads (State.Before src cs) (expect text) fun _ => State.Before src rest :=
  before_sees spells (.ite (fun _ => before_advance spells) fun _ => .failure)

theorem before_unexpected {text : String} {f : Unit → Parse β} (spells : Spells cs word l rest)
    (other : l.spelling ≠ some text) : Leads (State.Before src cs) (expect text >>= f) post := by
  have never : Leads (State.Before src cs) (expect text) fun _ _ => False :=
    before_sees spells (.ite (fun is => absurd (beq_iff_eq.mp is) other) fun _ => .failure)
  exact .bind never fun _ _ _ _ no => no.elim

theorem before_eat {text : String} {f : Bool → Parse β} (spells : Spells cs word l rest) (is : l.spelling = some text)
    (then_ : Leads (State.Before src rest) (f true) post) : Leads (State.Before src cs) (eat text >>= f) post := by
  have ate : Leads (State.Before src cs) (eat text) fun b s => b = true ∧ s.Before src rest :=
    before_sees spells (.ite (fun _ => .bind (before_advance spells) fun _ => .pure fun _ before => ⟨rfl, before⟩)
      fun other => absurd (beq_iff_eq.mpr is) other)
  exact .bind ate fun b => .here fun s ⟨yes, before⟩ => yes ▸ then_.weaken fun _ same => same ▸ before

theorem before_keep {text : String} {f : Bool → Parse β} (spells : Spells cs word l rest) (other : l.spelling ≠ some text)
    (then_ : Leads (State.Before src cs) (f false) post) : Leads (State.Before src cs) (eat text >>= f) post := by
  have kept : Leads (State.Before src cs) (eat text) fun b s => b = false ∧ s.Before src cs :=
    before_sees spells (.ite (fun is => absurd (beq_iff_eq.mp is) other) fun _ => .pure fun _ before => ⟨rfl, before⟩)
  exact .bind kept fun b => .here fun s ⟨no, before⟩ => no ▸ then_.weaken fun _ same => same ▸ before

end

theorem before_lookahead {p : Parse Bool} (never : Leads (State.Before src cs) p fun b _ => b = false) :
    Leads (State.Before src cs) (lookahead p) fun b s => b = false ∧ s.Before src cs := by
  intro s b s' before run
  unfold lookahead lookaheadOr at run
  split at run
  next answer after ran =>
    cases run
    exact ⟨never _ _ _ before ran, before⟩
  next =>
    cases run
    exact ⟨rfl, before⟩

theorem before_typed {p : Bool → Parse Bool} (untyped : src.dialect.typed = false) (skips : p false = pure false) :
    Leads (State.Before src cs) (isTyped >>= p) fun b _ => b = false := by
  intro s b s' before run
  have typed : s.dialect.typed = false := before.stands.dialect ▸ untyped
  have ran : (isTyped >>= p) s = p s.dialect.typed s := rfl
  rw [ran, typed, skips] at run
  cases run
  rfl

theorem before_single {kind : Kind} (spells : Spells cs word l rest) :
    Leads (State.Before src cs) (single kind) fun n s => (∃ span, n = .mk kind span []) ∧ s.Before src rest :=
  before_token spells fun _ _ => .bind (before_advance spells) fun _ => .pure fun _ before => ⟨⟨_, rfl⟩, before⟩

theorem before_node (kind : Kind) (start : Nat) (parts : List Node) :
    Leads (State.Before src cs) (node kind start parts) fun n s =>
      (∃ stop, n = .mk kind ⟨start, stop⟩ parts) ∧ s.Before src cs := by
  rintro s n s' before run
  cases run
  exact ⟨⟨s.lastStop, rfl⟩, before⟩

theorem before_flawIf (wrong : Bool) : Leads (State.Before src cs) (flawIf wrong) fun _ => State.Before src cs := by
  cases wrong with
  | true =>
      rintro s u s' ⟨⟨of, known, behind, dialect⟩, token⟩ run
      cases run
      exact ⟨⟨of, known, behind, dialect⟩, token⟩
  | false => exact .pure fun _ before => before

end Parse
end Prerender.Script
