import Prerender.Proofs.Script.Lexeme
import Prerender.Proofs.Script.Reading

set_option autoImplicit false

/-!
Readings that succeed. A rule runs from one text to another when, at any state that stands before the first, it
gives what it should and stands before the second, with nothing else of the state changed. Rules that do so are
put together as the grammar puts them together, so that what a printed text is read as is proved along the rules.
-/
namespace Prerender.Script

def State.moved (s : State) (start last : Nat) (cs : List Char) : State :=
  { s with token := Token.read (Lexeme.read cs) start false cs, lastStop := last }

-- What `p` makes of a text, with more than `n` repetitions in any list: something of which `holds` is true, and
-- the text `rest` behind it.
def Runs {α : Type} (n : Nat) (cs rest : List Char) (p : Parse α) (holds : α → Prop) : Prop :=
  ∀ (s : State) (start last : Nat), n < s.limit → ∃ a start' last',
    p (s.moved start last cs) = some (a, s.moved start' last' rest) ∧ holds a

-- Whether a text begins with a lexeme behind which another text stands, with a blank between them or not.
structure Begins (cs : List Char) (lexeme : Lexeme) (rest : List Char) : Prop where
  lexed : (Lexeme.read cs).1 = lexeme
  behind : cs.drop (Lexeme.read cs).2 = rest ∨ cs.drop (Lexeme.read cs).2 = ' ' :: rest
  solid : Solid rest
  known : (Lexeme.read rest).1 ≠ .unknown

def foreign : List String := [")", "]", "\x7d", ",", "...", "(", "<", "async", "yield"]

structure Opens (cs : List Char) : Prop where
  solid : Solid cs
  known : (Lexeme.read cs).1 ≠ .unknown
  shown : ∀ name, (Lexeme.read cs).1 ≠ .privateName name
  other : ∀ text ∈ foreign, (Lexeme.read cs).1.spelling ≠ some text

namespace Runs

variable {α β : Type} {n : Nat} {cs mid rest : List Char} {p : Parse α} {f : α → Parse β} {some_holds : α → Prop}
  {holds : β → Prop}

theorem bind (first : Runs n cs mid p some_holds) (then_ : ∀ a, some_holds a → Runs n mid rest (f a) holds) :
    Runs n cs rest (p >>= f) holds := by
  intro s start last enough
  obtain ⟨a, start', last', run, is⟩ := first s start last enough
  obtain ⟨b, start'', last'', next, done⟩ := then_ a is s start' last' enough
  exact ⟨b, start'', last'', (congrArg (·.bind fun x => f x.1 x.2) run).trans next, done⟩

theorem pure {b : β} (now : holds b) : Runs n cs cs (Pure.pure b) holds :=
  fun _ start last _ => ⟨b, start, last, rfl, now⟩

theorem weaken {q : Parse β} {wider : β → Prop} (runs : Runs n cs rest q holds) (widen : ∀ b, holds b → wider b) :
    Runs n cs rest q wider := by
  intro s start last enough
  obtain ⟨b, start', last', run, is⟩ := runs s start last enough
  exact ⟨b, start', last', run, widen b is⟩

theorem look (looks : ∀ s, ∃ a, p s = some (a, s)) (then_ : ∀ a, Runs n cs rest (f a) holds) :
    Runs n cs rest (p >>= f) holds := by
  intro s start last enough
  obtain ⟨a, run⟩ := looks (s.moved start last cs)
  obtain ⟨b, start', last', next, done⟩ := then_ a s start last enough
  exact ⟨b, start', last', (congrArg (·.bind fun x => f x.1 x.2) run).trans next, done⟩

theorem sure {a : α}
    (looks : ∀ (s : State) (start last : Nat), n < s.limit → p (s.moved start last cs) = some (a, s.moved start last cs))
    (then_ : Runs n cs rest (f a) holds) : Runs n cs rest (p >>= f) holds := by
  intro s start last enough
  obtain ⟨b, start', last', next, done⟩ := then_ s start last enough
  exact ⟨b, start', last', (congrArg (·.bind fun x => f x.1 x.2) (looks s start last enough)).trans next, done⟩

theorem token {f : Token → Parse β} {l : Lexeme} (lexed : (Lexeme.read cs).1 = l)
    (then_ : ∀ t : Token, t.lexeme = l → t.newline = false → Runs n cs rest (f t) holds) :
    Runs n cs rest (Parse.token >>= f) holds :=
  fun s start last enough => then_ (Token.read (Lexeme.read cs) start false cs) lexed rfl s start last enough

theorem yes {c : Prop} [Decidable c] {q r : Parse β} (is : c) (then_ : Runs n cs rest q holds) :
    Runs n cs rest (if c then q else r) holds := by
  rwa [if_pos is]

theorem no {c : Prop} [Decidable c] {q r : Parse β} (not : ¬ c) (then_ : Runs n cs rest r holds) :
    Runs n cs rest (if c then q else r) holds := by
  rwa [if_neg not]

theorem either {c : Prop} [Decidable c] {q r : Parse β} (first : Runs n cs rest q holds) (second : Runs n cs rest r holds) :
    Runs n cs rest (if c then q else r) holds := by
  split
  · exact first
  · exact second

theorem state {f : State → Parse β} (then_ : ∀ s, n < s.limit → Runs n cs rest (f s) holds) :
    Runs n cs rest (get >>= f) holds :=
  fun s start last enough => then_ (s.moved start last cs) enough s start last enough

end Runs

theorem Token.is_eq {t : Token} {l : Lexeme} (lexeme : t.lexeme = l) (text : String) :
    t.is text = (l.spelling == some text) := by
  subst lexeme
  rw [Token.is]
  cases t.lexeme with
  | word word escaped => cases escaped <;> simp [Lexeme.spelling]
  | symbol symbol => simp [Lexeme.spelling]
  | _ => rfl

namespace Parse

variable {β : Type} {n : Nat} {cs mid rest : List Char} {holds : β → Prop} {l : Lexeme}

theorem runs_sees {text : String} {f : Bool → Parse β} (lexed : (Lexeme.read cs).1 = l)
    (then_ : Runs n cs rest (f (l.spelling == some text)) holds) : Runs n cs rest (sees text >>= f) holds :=
  .sure (fun _ _ _ _ => congrArg (fun b => some (b, _)) (Token.is_eq lexed text)) then_

theorem runs_seesAny {texts : List String} {f : Bool → Parse β} (lexed : (Lexeme.read cs).1 = l)
    (then_ : Runs n cs rest (f (texts.any fun text => l.spelling == some text)) holds) :
    Runs n cs rest (seesAny texts >>= f) holds := by
  refine .sure (fun s start last _ => congrArg (fun b => some (b, _)) ?_) then_
  exact congrArg texts.any (funext (Token.is_eq lexed))

theorem moveTo_known {t : Token} (known : t.lexeme ≠ .unknown) :
    moveTo t = modify fun s => { s with token := t, lastStop := s.token.stop } := by
  unfold moveTo
  split
  next unknown => exact absurd unknown known
  next => rfl

theorem next_begins (begins : Begins cs l rest) (html : Bool) (start : Nat) :
    ∃ at_, (Token.read (Lexeme.read cs) start false cs).next html = Token.read (Lexeme.read rest) at_ false rest := by
  obtain ⟨-, behind, solid, -⟩ := begins
  have left : (Token.read (Lexeme.read cs) start false cs).rest = cs.drop (Lexeme.read cs).2 := by
    simp [Token.rest, Token.read]
  rw [Token.next, left]
  rcases behind with is | is
  · rw [is, Token.first_solid solid]
    exact ⟨_, rfl⟩
  · rw [is, Token.first_blank solid]
    exact ⟨_, rfl⟩

theorem runs_peek {f : Token → Parse β} (begins : Begins cs l mid)
    (then_ : ∀ t : Token, t.lexeme = (Lexeme.read mid).1 → Runs n cs rest (f t) holds) :
    Runs n cs rest (peek >>= f) holds := by
  intro s start last enough
  obtain ⟨at_, is⟩ := next_begins begins (html (s.moved start last cs)) start
  have peeked : peek (s.moved start last cs) = some (Token.read (Lexeme.read mid) at_ false mid, s.moved start last cs) :=
    congrArg (fun t => some (t, s.moved start last cs)) is
  obtain ⟨b, start', last', next, done⟩ :=
    then_ (Token.read (Lexeme.read mid) at_ false mid) rfl s start last enough
  exact ⟨b, start', last', (congrArg (·.bind fun x => f x.1 x.2) peeked).trans next, done⟩

theorem runs_advance (begins : Begins cs l rest) : Runs n cs rest advance fun _ => True := by
  intro s start last _
  obtain ⟨at_, is⟩ := next_begins begins (html (s.moved start last cs)) start
  refine ⟨(), at_, (s.moved start last cs).token.stop, ?_, trivial⟩
  have peeked : peek (s.moved start last cs) = some (Token.read (Lexeme.read rest) at_ false rest, s.moved start last cs) :=
    congrArg (fun t => some (t, s.moved start last cs)) is
  exact (congrArg (·.bind fun x => moveTo x.1 x.2) peeked).trans (congrFun (moveTo_known begins.known) _)

theorem runs_expect {text : String} (begins : Begins cs l rest) (is : l.spelling = some text) :
    Runs n cs rest (expect text) fun _ => True :=
  runs_sees begins.lexed (.yes (beq_iff_eq.mpr is) (runs_advance begins))

theorem runs_eat {text : String} {f : Bool → Parse β} (begins : Begins cs l mid) (is : l.spelling = some text)
    (then_ : Runs n mid rest (f true) holds) : Runs n cs rest (eat text >>= f) holds := by
  have ate : Runs n cs mid (eat text) (· = true) :=
    runs_sees begins.lexed (.yes (beq_iff_eq.mpr is) (.bind (runs_advance begins) fun _ _ => .pure rfl))
  exact .bind ate fun _ is => is ▸ then_

theorem runs_keep {text : String} {f : Bool → Parse β} (lexed : (Lexeme.read cs).1 = l) (other : l.spelling ≠ some text)
    (then_ : Runs n cs rest (f false) holds) : Runs n cs rest (eat text >>= f) holds := by
  have kept : Runs n cs cs (eat text) (· = false) :=
    runs_sees lexed (.no (by simpa using other) (.pure rfl))
  exact .bind kept fun _ is => is ▸ then_

theorem runs_keepIf {admitted : Bool} {text : String} {f : Bool → Parse β} (lexed : (Lexeme.read cs).1 = l)
    (other : l.spelling ≠ some text) (then_ : Runs n cs rest (f false) holds) :
    Runs n cs rest (eatIf admitted text >>= f) holds := by
  cases admitted with
  | false => exact then_
  | true => exact runs_keep lexed other then_

theorem runs_pass {c : Prop} [Decidable c] {text : String} {p : Parse β} (lexed : (Lexeme.read cs).1 = l)
    (other : l.spelling ≠ some text) (then_ : Runs n cs rest p holds) :
    Runs n cs rest (if c then eat text >>= fun _ => p else p) holds :=
  .either (runs_keep lexed other then_) then_

theorem lookahead_expect {text : String} {f : Unit → Parse Bool} (other : (Lexeme.read cs).1.spelling ≠ some text)
    (s : State) (start last : Nat) :
    lookahead (expect text >>= f) (s.moved start last cs) = some (false, s.moved start last cs) := by
  have missing : (s.moved start last cs).token.is text = false := by
    rw [Token.is_eq rfl]
    exact beq_eq_false_iff_ne.mpr other
  have fails : expect text (s.moved start last cs) = none := by
    change (if (s.moved start last cs).token.is text = true then advance else failure) _ = none
    rw [missing]
    rfl
  have stops : (expect text >>= f) (s.moved start last cs) = none := congrArg (·.bind fun x => f x.1 x.2) fails
  simp only [lookahead, lookaheadOr, stops]

theorem runs_flawIf {wrong : Bool} (right : wrong = false) : Runs n cs cs (flawIf wrong) fun _ => True := by
  subst right
  exact .pure trivial

theorem runs_node (kind : Kind) (start : Nat) (parts : List Node) :
    Runs n cs cs (node kind start parts) fun a => ∃ span, a = .mk kind span parts :=
  fun _ start' last _ => ⟨_, start', last, rfl, _, rfl⟩

theorem runs_absent : Runs n cs cs absent fun a => ∃ span, a = .mk .absent span [] :=
  fun _ start last _ => ⟨_, start, last, rfl, _, rfl⟩

theorem runs_single (begins : Begins cs l rest) (kind : Kind) :
    Runs n cs rest (single kind) fun a => ∃ span, a = .mk kind span [] :=
  .token begins.lexed fun _ _ _ => .bind (runs_advance begins) fun _ _ => .pure ⟨_, rfl⟩

theorem runs_within {change : Context → Context} {p : Parse β} (inner : Runs n cs rest p holds) :
    Runs n cs rest (within change p) holds := by
  intro s start last enough
  obtain ⟨b, start', last', run, is⟩ := inner { s with context := change s.context } start last enough
  refine ⟨b, start', last', ?_, is⟩
  exact congrArg (·.bind fun x => some (x.1, { x.2 with context := s.context })) run

theorem runs_extend {α : Type} {step : α → Parse (Option α)} {x : α}
    (stops : Runs n cs cs (step x) (· = none)) : Runs n cs cs (extend step x) (· = x) := by
  refine .state fun s enough => ?_
  obtain ⟨k, is⟩ : ∃ k, s.limit = k + 1 := ⟨s.limit - 1, by omega⟩
  rw [is]
  exact .bind stops fun _ is => is ▸ .pure rfl

theorem runs_extend_once {α : Type} {step : α → Parse (Option α)} {x : α} {some_holds : α → Prop} (room : 0 < n)
    (first : Runs n cs mid (step x) fun found => ∃ y, found = some y ∧ some_holds y)
    (stops : ∀ y, some_holds y → Runs n mid mid (step y) (· = none)) : Runs n cs mid (extend step x) some_holds := by
  refine .state fun s enough => ?_
  obtain ⟨k, is⟩ : ∃ k, s.limit = k + 2 := ⟨s.limit - 2, by omega⟩
  rw [is]
  refine .bind first ?_
  rintro _ ⟨y, rfl, held⟩
  exact .bind (stops y held) fun _ is => is ▸ .pure held

theorem runs_separated_once {separator : String} {item : Parse Node} {meets : Node → Prop} (first : Runs n cs rest item meets)
    (other : (Lexeme.read rest).1.spelling ≠ some separator) :
    Runs n cs rest (separated separator item) fun found => ∃ e, found = [e] ∧ meets e := by
  refine .state fun s enough => ?_
  obtain ⟨k, is⟩ : ∃ k, s.limit = k + 1 := ⟨s.limit - 1, by omega⟩
  rw [is]
  exact .bind first fun e met => runs_keep rfl other (.pure ⟨e, rfl, met⟩)

theorem begins_append {text : List Char} (lexed : Lexeme.read (text ++ rest) = (l, text.length)) (solid : Solid rest)
    (known : (Lexeme.read rest).1 ≠ .unknown) : Begins (text ++ rest) l rest := by
  refine ⟨by rw [lexed], .inl ?_, solid, known⟩
  rw [lexed]
  exact List.drop_left

theorem begins_blank {text : List Char} (lexed : Lexeme.read (text ++ ' ' :: rest) = (l, text.length))
    (solid : Solid rest) (known : (Lexeme.read rest).1 ≠ .unknown) : Begins (text ++ ' ' :: rest) l rest := by
  refine ⟨by rw [lexed], .inr ?_, solid, known⟩
  rw [lexed]
  exact List.drop_left

theorem begins_lone {c : Char} (lone : c ∈ Lexeme.lone) (solid : Solid rest) (known : (Lexeme.read rest).1 ≠ .unknown) :
    Begins (c :: rest) (.symbol (String.singleton c)) rest :=
  @begins_append _ _ [c] (Lexeme.read_lone lone rest) solid known

theorem begins_spaced {c : Char} (lone : c ∈ Lexeme.lone) (solid : Solid rest) (known : (Lexeme.read rest).1 ≠ .unknown) :
    Begins (c :: ' ' :: rest) (.symbol (String.singleton c)) rest :=
  @begins_blank _ _ [c] (Lexeme.read_lone lone _) solid known

section
variable {α : Type} {text : α → List Char} {meets : α → Node → Prop} {item : Parse Node} {close : Char}

def listed (close : Char) (texts : List (List Char)) (rest : List Char) : List Char :=
  Text.join [',', ' '] texts ++ close :: rest

theorem listed_cons (closes : close ∈ closers) (piece : List Char) (texts : List (List Char)) (rest : List Char) :
    ∃ behind, Ends behind ∧ listed close (piece :: texts) rest = piece ++ behind ∧
      behind = if texts = [] then close :: rest else ',' :: ' ' :: listed close texts rest := by
  cases texts with
  | nil => exact ⟨close :: rest, fun c here => Option.some.inj here ▸ closes, rfl, rfl⟩
  | cons next texts =>
      refine ⟨',' :: ' ' :: listed close (next :: texts) rest, fun c here => Option.some.inj here ▸ by decide, ?_, rfl⟩
      simp [listed, Text.join]

-- The induction is on what is listed; only the last is not followed by a comma.
theorem runs_commasCounted (closes : close ∈ [')', ']', '\x7d']) {xs : List α}
    (each : ∀ x ∈ xs, ∀ rest, Ends rest → Opens (text x ++ rest) ∧ Runs n (text x ++ rest) rest item (meets x))
    (rest : List Char) {k : Nat} (enough : xs.length < k) :
    Runs n (listed close (xs.map text) rest) (close :: rest) (commasCounted (String.singleton close) item k)
      fun found => List.Forall₂ meets xs found.1 ∧ found.2 = false := by
  have closer : close ∈ closers := by
    have all : ∀ c ∈ [')', ']', '\x7d'], c ∈ closers := by decide
    exact all close closes
  have lone : close ∈ Lexeme.lone := by
    have all : ∀ c ∈ [')', ']', '\x7d'], c ∈ Lexeme.lone := by decide
    exact all close closes
  have strange : String.singleton close ∈ foreign := by
    have all : ∀ c ∈ [')', ']', '\x7d'], String.singleton c ∈ foreign := by decide
    exact all close closes
  have comma : (Lexeme.symbol (String.singleton close)).spelling ≠ some "," := by
    have all : ∀ c ∈ [')', ']', '\x7d'], (Lexeme.symbol (String.singleton c)).spelling ≠ some "," := by decide
    exact all close closes
  have closed (rest : List Char) : (Lexeme.read (close :: rest)).1 = .symbol (String.singleton close) :=
    congrArg Prod.fst (Lexeme.read_lone lone rest)
  induction xs generalizing k with
  | nil =>
      obtain ⟨k, rfl⟩ : ∃ j, k = j + 1 := ⟨k - 1, by simp at enough; omega⟩
      exact runs_sees (closed rest) (.yes (beq_self_eq_true _) (.pure ⟨.nil, rfl⟩))
  | cons x xs ih =>
      obtain ⟨k, rfl⟩ : ∃ j, k = j + 1 := ⟨k - 1, by simp at enough; omega⟩
      obtain ⟨first, others⟩ := List.forall_mem_cons.mp each
      obtain ⟨behind, ends, whole, is⟩ := listed_cons closer (text x) (xs.map text) rest
      obtain ⟨opens, reads⟩ := first behind ends
      rw [List.map_cons, whole]
      refine runs_sees rfl (.no (by simpa using opens.other _ strange) (.bind reads fun node met => ?_))
      cases xs with
      | nil =>
          rw [is, List.map_nil, if_pos rfl]
          exact runs_keep (closed rest) comma (.pure ⟨.cons met .nil, rfl⟩)
      | cons y ys =>
          rw [is, if_neg (by simp)]
          obtain ⟨next, next_ends, next_whole, -⟩ := listed_cons closer (text y) (ys.map text) rest
          obtain ⟨next_opens, -⟩ := others y List.mem_cons_self next next_ends
          rw [List.map_cons] at *
          rw [← next_whole] at next_opens
          refine runs_eat (begins_spaced (by decide) next_opens.solid next_opens.known) rfl ?_
          refine runs_sees rfl (.no (by simpa using next_opens.other _ strange) ?_)
          refine .bind (ih others (by simpa using enough)) fun found met_all => .pure ?_
          exact ⟨.cons met met_all.1, met_all.2⟩

theorem runs_commas (closes : close ∈ [')', ']', '\x7d']) {xs : List α} (fits : xs.length ≤ n)
    (each : ∀ x ∈ xs, ∀ rest, Ends rest → Opens (text x ++ rest) ∧ Runs n (text x ++ rest) rest item (meets x))
    (rest : List Char) :
    Runs n (listed close (xs.map text) rest) (close :: rest) (commas (String.singleton close) item)
      fun found => List.Forall₂ meets xs found.1 ∧ found.2 = false :=
  fun s start last enough => runs_commasCounted closes each rest (Nat.lt_of_le_of_lt fits enough) s start last enough

end

end Parse
end Prerender.Script
