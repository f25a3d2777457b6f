import Prerender.Proofs.Script.Operand

set_option autoImplicit false

namespace Prerender.Script.Expression

open Parse

variable {m n : Nat} {cs mid rest : List Char} {α : Type} {text : α → List Char} {meets : α → Node → Prop}

structure Written (m n : Nat) (text : List Char) (holds : Node → Prop) : Prop where
  opens : ∀ rest, Ends rest → Opens (text ++ rest)
  runs : ∀ rest, Ends rest → Runs n (text ++ rest) rest (Grammar.ofDepth m (.assignment true)) holds

structure Operand (m n : Nat) (text : List Char) (holds : Node → Prop) : Prop where
  opens : ∀ rest, Ends rest → Opens (text ++ rest)
  other : ∀ rest, Ends rest → ∀ operator ∈ operators, (Lexeme.read (text ++ rest)).1.spelling ≠ some operator
  runs : ∀ rest, Ends rest → Runs n (text ++ rest) rest (leftHand (Grammar.ofDepth m)) holds

theorem Written.weaken {text : List Char} {holds wider : Node → Prop} (written : Written m n text holds)
    (widen : ∀ e, holds e → wider e) : Written m n text wider :=
  ⟨written.opens, fun rest ends => (written.runs rest ends).weaken widen⟩

theorem Operand.written {text : List Char} {holds : Node → Prop} (operand : Operand m n text holds) :
    Written (m + 3) n text holds :=
  ⟨operand.opens, fun rest ends =>
    runs_of_leftHand (operand.runs rest ends) (operand.opens rest ends) (operand.other rest ends) ends true⟩

theorem Written.argument {text : List Char} {holds : Node → Prop} (written : Written m n text holds) :
    ∀ rest, Ends rest → Opens (text ++ rest) ∧ Runs n (text ++ rest) rest (spreadOrArgument (Grammar.ofDepth m)) holds := by
  intro rest ends
  have opens := written.opens rest ends
  refine ⟨opens, runs_sees rfl (.no ?_ (runs_within (written.runs rest ends)))⟩
  simpa using opens.other "..." (by decide)

theorem Written.element {text : List Char} {holds : Node → Prop} (written : Written m n text holds) :
    ∀ rest, Ends rest → Opens (text ++ rest) ∧ Runs n (text ++ rest) rest (element (Grammar.ofDepth m)) holds := by
  intro rest ends
  obtain ⟨opens, runs⟩ := written.argument rest ends
  refine ⟨opens, runs_sees rfl (.no ?_ runs)⟩
  simpa using opens.other "," (by decide)

theorem solid_closer {c : Char} (closer : c ∈ closers) (rest : List Char) :
    Solid (c :: rest) ∧ (Lexeme.read (c :: rest)).1 ≠ .unknown := by
  have ends : Ends (c :: rest) := fun d here => Option.some.inj here ▸ closer
  exact ⟨ends.solid, ends.known⟩

theorem solid_listed (close : Char) (closer : close ∈ closers) {xs : List α}
    (opens : ∀ x ∈ xs, ∀ rest, Ends rest → Opens (text x ++ rest)) (rest : List Char) :
    Solid (listed close (xs.map text) rest) ∧ (Lexeme.read (listed close (xs.map text) rest)).1 ≠ .unknown := by
  cases xs with
  | nil => exact solid_closer closer rest
  | cons x xs =>
      obtain ⟨behind, ends, whole, -⟩ := listed_cons closer (text x) (xs.map text) rest
      have first := opens x List.mem_cons_self behind ends
      rw [List.map_cons, whole]
      exact ⟨first.solid, first.known⟩

theorem runs_arguments {xs : List α} (fits : xs.length ≤ n) (each : ∀ x ∈ xs, Written m n (text x) (meets x))
    (ends : Ends rest) :
    Runs n ('(' :: listed ')' (xs.map text) rest) rest (arguments (Grammar.ofDepth m)) (List.Forall₂ meets xs) := by
  obtain ⟨solid, known⟩ := solid_listed ')' (by decide) (fun x here => (each x here).opens) rest
  refine .bind (runs_expect (begins_lone (by decide) solid known) rfl) fun _ _ => ?_
  refine .bind (runs_commas (by decide) fits (fun x here => (each x here).argument) rest) fun found met => ?_
  refine .bind (runs_expect (begins_lone (by decide) ends.solid ends.known) rfl) fun _ _ => .pure met.1

theorem solid_word {name : String} (word : Lexeme.isWord name = true) (rest : List Char) :
    Solid (name.toList ++ rest) := by
  rw [Lexeme.isWord] at word
  cases is : name.toList with
  | nil =>
      rw [is] at word
      cases word
  | cons c cs =>
      rw [is] at word
      have letter := (Bool.and_eq_true_iff.mp word).1
      obtain ⟨low, high⟩ := Lexeme.letter_range letter
      refine .visible ⟨by omega, by omega⟩ (fun here => ?_) _
      have others : ∀ d ∈ ['/', '<', '-'], d.isAlpha = false := by decide
      rw [others c here] at letter
      cases letter

theorem opens_lone {c : Char} (bracket : c ∈ ['[', '\x7b']) :
    (∀ rest, Opens (c :: rest)) ∧ ∀ rest, ∀ text ∈ operators, (Lexeme.read (c :: rest)).1.spelling ≠ some text := by
  have lone : ∀ c ∈ ['[', '\x7b'], c ∈ Lexeme.lone := by decide
  have lexed (rest : List Char) : (Lexeme.read (c :: rest)).1 = .symbol (String.singleton c) :=
    congrArg Prod.fst (Lexeme.read_lone (lone c bracket) rest)
  have other : ∀ c ∈ ['[', '\x7b'], ∀ text ∈ foreign ++ operators,
      (Lexeme.symbol (String.singleton c)).spelling ≠ some text := by decide
  have solid : ∀ c ∈ ['[', '\x7b'], isLineEnd c = false ∧ isBlank c = false ∧ c ∉ ['/', '<', '-'] := by decide
  refine ⟨fun rest => ⟨.cons (solid c bracket) rest, ?_, fun name => ?_, fun text here => ?_⟩, fun rest text here => ?_⟩
  · rw [lexed]
    nofun
  · rw [lexed]
    nofun
  · rw [lexed]
    exact other c bracket text (List.mem_append_left _ here)
  · rw [lexed]
    exact other c bracket text (List.mem_append_right _ here)

theorem runs_bracket {c : Char} {g : Grammar} {p : Parse Node} {holds : Node → Prop}
    (is : (c, p) = ('[', array g) ∨ (c, p) = ('\x7b', object g)) (runs : Runs n (c :: cs) rest p holds) :
    Runs n (c :: cs) rest (primary g) holds := by
  have lone : c ∈ Lexeme.lone := by rcases is with same | same <;> cases same <;> decide
  have lexed : (Lexeme.read (c :: cs)).1 = .symbol (String.singleton c) := congrArg Prod.fst (Lexeme.read_lone lone cs)
  refine .token lexed fun t lexeme _ => ?_
  rw [lexeme]
  refine .token lexed fun u same _ => ?_
  have is_eq (text : String) : u.is text = (String.singleton c == text) := by
    rw [Token.is_eq same]
    exact Option.some_beq_some ..
  simp only [is_eq]
  rcases is with is | is
  · cases is
    exact .no (by decide) (.yes (by decide) runs)
  · cases is
    exact .no (by decide) (.no (by decide) (.yes (by decide) runs))

theorem operand_array {xs : List α} (fits : xs.length ≤ n) (each : ∀ x ∈ xs, Written m n (text x) (meets x)) :
    Operand m n ('[' :: Text.join [',', ' '] (xs.map text) ++ [']']) fun e =>
      ∃ span items, e = .mk (.array false) span items ∧ List.Forall₂ meets xs items := by
  have whole (rest : List Char) : '[' :: Text.join [',', ' '] (xs.map text) ++ [']'] ++ rest =
      '[' :: listed ']' (xs.map text) rest := by simp [listed]
  obtain ⟨opens, others⟩ := @opens_lone '[' (by decide)
  refine ⟨fun rest _ => whole rest ▸ opens _, fun rest _ => whole rest ▸ others _, fun rest ends => ?_⟩
  rw [whole]
  obtain ⟨solid, known⟩ := solid_listed ']' (by decide) (fun x here => (each x here).opens) rest
  have primary_runs : Runs n ('[' :: listed ']' (xs.map text) rest) rest (primary (Grammar.ofDepth m)) fun e =>
      ∃ span items, e = .mk (.array false) span items ∧ List.Forall₂ meets xs items := by
    refine runs_bracket (.inl rfl) (.look (fun s => ⟨_, rfl⟩) fun start => ?_)
    refine .bind (runs_expect (begins_lone (by decide) solid known) rfl) fun _ _ => ?_
    refine .bind (runs_commas (by decide) fits (fun x here => (each x here).element) rest) fun found met => ?_
    obtain ⟨items, comma⟩ := found
    obtain ⟨met, rfl⟩ := met
    refine .bind (runs_expect (begins_lone (by decide) ends.solid ends.known) rfl) fun _ _ => ?_
    refine (runs_node _ start items).weaken ?_
    rintro _ ⟨span, rfl⟩
    exact ⟨span, items, rfl, met⟩
  exact runs_leftHand_of_primary primary_runs ends

theorem begins_script {s : String} (solid : Solid rest) (known : (Lexeme.read rest).1 ≠ .unknown) :
    Begins ((Text.Quoted.script s).toList ++ rest) (.string s) rest :=
  begins_append (Lexeme.read_script s rest) solid known

theorem opens_script (s : String) (rest : List Char) : Opens ((Text.Quoted.script s).toList ++ rest) := by
  have lexed : (Lexeme.read ((Text.Quoted.script s).toList ++ rest)).1 = .string s :=
    congrArg Prod.fst (Lexeme.read_script s rest)
  refine ⟨?_, by rw [lexed]; nofun, fun name => by rw [lexed]; nofun, fun text _ => by rw [lexed]; nofun⟩
  rw [Lexeme.script_toList]
  exact .cons (by decide) _

-- What is not spelled like a word or a symbol begins a property of its own.
theorem runs_form {l : Lexeme} (lexed : (Lexeme.read cs).1 = l) (unspelled : l.spelling = none) :
    Runs n cs cs FunctionSyntax.form (· = ⟨false, false, none⟩) := by
  refine .look (fun s => ⟨_, rfl⟩) fun next => runs_sees lexed (.no ?_ ?_)
  · simp [unspelled]
  refine runs_seesAny lexed (.no ?_ ?_)
  · simp [unspelled]
  · exact runs_keep lexed (by simp [unspelled]) (.pure rfl)

theorem Written.property {text : List Char} {holds : Node → Prop} (written : Written m n text holds) (key : String) :
    ∀ rest, Ends rest → Opens ((Text.Quoted.script key).toList ++ ':' :: ' ' :: text ++ rest) ∧
      Runs n ((Text.Quoted.script key).toList ++ ':' :: ' ' :: text ++ rest) rest (property (Grammar.ofDepth m)) fun p =>
        ∃ span at_ value, p = .mk .property span [.mk (.string key) at_ [], value] ∧ holds value := by
  intro rest ends
  rw [List.append_assoc]
  refine ⟨opens_script key _, ?_⟩
  have value_opens := written.opens rest ends
  have colon : Begins (':' :: ' ' :: text ++ rest) (.symbol ":") (text ++ rest) :=
    begins_spaced (by decide) value_opens.solid value_opens.known
  have ends_key : Solid (':' :: ' ' :: text ++ rest) ∧ (Lexeme.read (':' :: ' ' :: text ++ rest)).1 ≠ .unknown :=
    solid_closer (by decide) _
  have named : Begins ((Text.Quoted.script key).toList ++ (':' :: ' ' :: text ++ rest)) (.string key)
      (':' :: ' ' :: text ++ rest) := begins_script ends_key.1 ends_key.2
  refine .look (fun s => ⟨_, rfl⟩) fun start => runs_sees named.lexed (.no (by simp [Lexeme.spelling]) ?_)
  refine .bind (runs_form named.lexed rfl) fun form plain => .token named.lexed fun t _ _ => ?_
  subst plain
  refine runs_sees named.lexed ?_
  have key_runs : Runs n ((Text.Quoted.script key).toList ++ (':' :: ' ' :: text ++ rest)) (':' :: ' ' :: text ++ rest)
      (Pattern.propertyName (Grammar.ofDepth m)) fun e => ∃ span, e = .mk (.string key) span [] := by
    refine .token named.lexed fun t lexeme _ => ?_
    rw [lexeme]
    exact runs_single named _
  refine .bind key_runs ?_
  rintro _ ⟨at_, rfl⟩
  refine runs_seesAny colon.lexed (.no (by decide) (runs_eat colon rfl (.yes rfl ?_)))
  refine .bind (runs_within (written.runs rest ends)) fun value is => ?_
  refine (runs_node _ start _).weaken ?_
  rintro _ ⟨span, rfl⟩
  exact ⟨span, at_, value, rfl, is⟩

def entry (key : String) (value : List Char) : List Char := (Text.Quoted.script key).toList ++ ':' :: ' ' :: value

theorem operand_object {key : α → String} {xs : List α} (fits : xs.length ≤ n)
    (each : ∀ x ∈ xs, Written m n (text x) (meets x)) :
    Operand m n ('\x7b' :: Text.join [',', ' '] (xs.map fun x => entry (key x) (text x)) ++ ['\x7d']) fun e =>
      ∃ span properties, e = .mk (.object false) span properties ∧ List.Forall₂ (fun x p =>
        ∃ span at_ value, p = .mk .property span [.mk (.string (key x)) at_ [], value] ∧ meets x value) xs properties := by
  have whole (rest : List Char) : '\x7b' :: Text.join [',', ' '] (xs.map fun x => entry (key x) (text x)) ++ ['\x7d'] ++ rest =
      '\x7b' :: listed '\x7d' (xs.map fun x => entry (key x) (text x)) rest := by simp [listed]
  have each (x : α) (here : x ∈ xs) := (each x here).property (key x)
  obtain ⟨opens, others⟩ := @opens_lone '\x7b' (by decide)
  refine ⟨fun rest _ => whole rest ▸ opens _, fun rest _ => whole rest ▸ others _, fun rest ends => ?_⟩
  rw [whole]
  obtain ⟨solid, known⟩ := solid_listed '\x7d' (by decide) (fun x here rest ends => (each x here rest ends).1) rest
  have primary_runs : Runs n ('\x7b' :: listed '\x7d' (xs.map fun x => entry (key x) (text x)) rest) rest
      (primary (Grammar.ofDepth m)) fun e => ∃ span properties, e = .mk (.object false) span properties ∧
        List.Forall₂ (fun x p => ∃ span at_ value, p = .mk .property span [.mk (.string (key x)) at_ [], value] ∧
          meets x value) xs properties := by
    refine runs_bracket (.inr rfl) (.look (fun s => ⟨_, rfl⟩) fun start => ?_)
    refine .bind (runs_expect (begins_lone (by decide) solid known) rfl) fun _ _ => ?_
    refine .bind (runs_commas (by decide) fits each rest) fun found met => ?_
    obtain ⟨properties, comma⟩ := found
    obtain ⟨met, rfl⟩ := met
    refine .bind (runs_expect (begins_lone (by decide) ends.solid ends.known) rfl) fun _ _ => ?_
    refine (runs_node _ start properties).weaken ?_
    rintro _ ⟨span, rfl⟩
    exact ⟨span, properties, rfl, met⟩
  exact runs_leftHand_of_primary primary_runs ends

theorem Operand.minus {c : Char} {text : List Char} {holds : Node → Prop} (operand : Operand m n (c :: text) holds)
    (other : c ≠ '-' ∧ c ≠ '=') :
    Written (m + 4) n ('-' :: c :: text) fun e => ∃ span a, e = .mk (.unary "-") span [a] ∧ holds a := by
  have lexed (rest : List Char) : Lexeme.read ('-' :: (c :: text ++ rest)) = (.symbol "-", 1) := Lexeme.read_minus other _
  have opens (rest : List Char) : Opens ('-' :: (c :: text ++ rest)) := by
    refine ⟨.minus other.1 _, ?_, fun name => ?_, ?_⟩
    · rw [lexed]
      nofun
    · rw [lexed]
      nofun
    · rw [lexed]
      decide
  refine ⟨fun rest _ => opens rest, fun rest ends => ?_⟩
  have operand_opens := operand.opens rest ends
  have begins : Begins ('-' :: (c :: text ++ rest)) (.symbol "-") (c :: text ++ rest) :=
    @begins_append _ _ ['-'] (lexed rest) operand_opens.solid operand_opens.known
  have inner : Runs n (c :: text ++ rest) rest (Grammar.ofDepth (m + 1) .unary) holds :=
    runs_unary (operand.runs rest ends) (operand.other rest ends) ends
  have signed : Runs n ('-' :: (c :: text ++ rest)) rest (Grammar.ofDepth (m + 2) .unary) fun e =>
      ∃ span a, e = .mk (.unary "-") span [a] ∧ holds a := by
    refine .look (fun s => ⟨_, rfl⟩) fun start => .token begins.lexed fun t lexeme _ => .yes ?_ ?_
    · simp [Token.isOneOf, prefixOperators, Token.is_eq lexeme, Lexeme.spelling]
    refine .bind (runs_advance begins) fun _ _ => .bind inner fun a is => ?_
    have sign : symbolText t = "-" := by rw [symbolText, lexeme]
    refine (runs_node _ start [a]).weaken ?_
    rintro _ ⟨span, rfl⟩
    exact ⟨span, a, by rw [sign], is⟩
  exact runs_of_unary signed (opens rest) ends true

theorem quiet_of_spelling {l : Lexeme} {text : String} (is : l = .symbol text)
    (other : text ∉ [".", "?.", "[", "!", "<", "<<"]) : Quiet l := by
  subst is
  refine ⟨nofun, fun operator here same => other ?_⟩
  exact Option.some.inj same ▸ here

theorem runs_split {name : String} {span : Span} :
    Runs n cs cs (split (.mk (.reference name) span [])) fun found =>
      ∃ at_, found = (.mk (.reference name) span [], .mk .absent at_ []) := by
  refine .bind runs_absent ?_
  rintro _ ⟨at_, rfl⟩
  exact .pure ⟨at_, rfl⟩

def applied (name : String) (pieces : List (List Char)) : List Char :=
  name.toList ++ '(' :: Text.join [',', ' '] pieces ++ [')']

theorem applied_append (name : String) (pieces : List (List Char)) (rest : List Char) :
    applied name pieces ++ rest = name.toList ++ '(' :: listed ')' pieces rest := by
  simp [applied, listed]

theorem opens_word {name : String} (word : Lexeme.isWord name = true) (plain : name ∉ foreign ++ operators)
    (parts : Lexeme.Parts rest) :
    Opens (name.toList ++ rest) ∧
    ∀ operator ∈ operators, (Lexeme.read (name.toList ++ rest)).1.spelling ≠ some operator := by
  have lexed : (Lexeme.read (name.toList ++ rest)).1 = .word name false :=
    congrArg Prod.fst (Lexeme.read_name word parts)
  rw [List.mem_append, not_or] at plain
  refine ⟨⟨solid_word word rest, by rw [lexed]; nofun, fun other => by rw [lexed]; nofun, ?_⟩, ?_⟩
  · rw [lexed]
    rintro text here same
    exact plain.1 (Option.some.inj same ▸ here)
  · rw [lexed]
    rintro text here same
    exact plain.2 (Option.some.inj same ▸ here)

theorem begins_called {name : String} (word : Lexeme.isWord name = true) (rest : List Char) :
    Begins (name.toList ++ '(' :: rest) (.word name false) ('(' :: rest) := by
  have lexed : (Lexeme.read ('(' :: rest)).1 = .symbol "(" := congrArg Prod.fst (Lexeme.read_lone (by decide) rest)
  exact begins_append (Lexeme.read_name word rfl) (.cons (by decide) rest) (by rw [lexed]; nofun)

theorem operand_call {name : String} (word : Lexeme.isWord name = true) (free : name ∉ keywords)
    (plain : name ∉ foreign ++ operators) {xs : List α} (room : 0 < n) (fits : xs.length ≤ n)
    (each : ∀ x ∈ xs, Written m n (text x) (meets x)) :
    Operand m n (applied name (xs.map text)) fun e => ∃ span at_ left arguments,
      e = .mk .call span (.mk (.reference name) at_ [] :: .mk .absent left [] :: arguments) ∧
        List.Forall₂ meets xs arguments := by
  have opens (rest : List Char) : Opens (name.toList ++ '(' :: rest) ∧ ∀ operator ∈ operators,
      (Lexeme.read (name.toList ++ '(' :: rest)).1.spelling ≠ some operator := opens_word word plain rfl
  refine ⟨fun rest _ => applied_append name _ rest ▸ (opens _).1, fun rest _ => applied_append name _ rest ▸ (opens _).2,
    fun rest ends => ?_⟩
  rw [applied_append]
  have called := begins_called word (listed ')' (xs.map text) rest)
  have lexed : (Lexeme.read ('(' :: listed ')' (xs.map text) rest)).1 = .symbol "(" :=
    congrArg Prod.fst (Lexeme.read_lone (by decide) _)
  have closing := ends.closing
  refine .look (fun s => ⟨_, rfl⟩) fun start => .bind (runs_reference called free) ?_
  rintro _ ⟨at_, rfl⟩
  have extended : Runs n ('(' :: listed ')' (xs.map text) rest) rest
      (extend (callStep (Grammar.ofDepth m) start) (.mk (.reference name) at_ [], false)) fun y =>
        ∃ span left arguments,
          y = (.mk .call span (.mk (.reference name) at_ [] :: .mk .absent left [] :: arguments), false) ∧
          List.Forall₂ meets xs arguments := by
    refine runs_extend_once room ?_ fun y _ =>
      runs_callStep rfl (quiet_of_closing closing) (closing.other (by decide)) start y
    refine .bind (runs_memberStep lexed (quiet_of_spelling rfl (by decide)) start _) fun found none_found => ?_
    subst none_found
    refine runs_keep lexed (by decide) (runs_sees lexed (.yes rfl (.bind runs_split ?_)))
    rintro _ ⟨left, rfl⟩
    refine .bind (runs_arguments fits each ends) fun arguments met => .bind (runs_node _ start _) ?_
    rintro _ ⟨span, rfl⟩
    exact .pure ⟨_, rfl, span, left, arguments, rfl, met⟩
  refine .bind extended ?_
  rintro _ ⟨span, left, arguments, rfl, met⟩
  exact .pure ⟨span, at_, left, arguments, rfl, met⟩

def constructing (name : String) (pieces : List (List Char)) : List Char := "new".toList ++ ' ' :: applied name pieces

theorem runs_constructed {name : String} (word : Lexeme.isWord name = true) (free : name ∉ keywords) (rest : List Char) :
    Runs n (name.toList ++ '(' :: rest) ('(' :: rest) (Grammar.ofDepth (m + 1) .constructed) fun e =>
      ∃ span, e = .mk (.reference name) span [] := by
  have lexed : (Lexeme.read ('(' :: rest)).1 = .symbol "(" := congrArg Prod.fst (Lexeme.read_lone (by decide) _)
  refine .look (fun s => ⟨_, rfl⟩) fun start => .bind (runs_reference (begins_called word rest) free) ?_
  rintro _ ⟨span, rfl⟩
  refine .bind (runs_extend (runs_memberStep lexed (quiet_of_spelling rfl (by decide)) start _)) ?_
  rintro _ rfl
  exact .pure ⟨span, rfl⟩

theorem operand_construct {name : String} (word : Lexeme.isWord name = true) (free : name ∉ keywords)
    (plain : name ∉ foreign ++ operators) {xs : List α} (fits : xs.length ≤ n)
    (each : ∀ x ∈ xs, Written (m + 1) n (text x) (meets x)) :
    Operand (m + 1) n (constructing name (xs.map text)) fun e => ∃ span at_ left arguments,
      e = .mk .construct span (.mk (.reference name) at_ [] :: .mk .absent left [] :: arguments) ∧
        List.Forall₂ meets xs arguments := by
  have whole (rest : List Char) : constructing name (xs.map text) ++ rest =
      "new".toList ++ ' ' :: (name.toList ++ '(' :: listed ')' (xs.map text) rest) := by
    rw [constructing, List.append_assoc, List.cons_append, applied_append]
  have opens (rest : List Char) : Opens ("new".toList ++ ' ' :: rest) ∧ ∀ operator ∈ operators,
      (Lexeme.read ("new".toList ++ ' ' :: rest)).1.spelling ≠ some operator :=
    opens_word (by decide) (by decide) rfl
  refine ⟨fun rest _ => whole rest ▸ (opens _).1, fun rest _ => whole rest ▸ (opens _).2, fun rest ends => ?_⟩
  rw [whole]
  have called := begins_called word (listed ')' (xs.map text) rest)
  have named := (@opens_word ('(' :: listed ')' (xs.map text) rest) name word plain rfl).1
  have new : Begins ("new".toList ++ ' ' :: (name.toList ++ '(' :: listed ')' (xs.map text) rest)) (.word "new" false)
      (name.toList ++ '(' :: listed ')' (xs.map text) rest) :=
    begins_blank (Lexeme.read_name (by decide) rfl) named.solid named.known
  have lexed : (Lexeme.read ('(' :: listed ')' (xs.map text) rest)).1 = .symbol "(" :=
    congrArg Prod.fst (Lexeme.read_lone (by decide) _)
  refine runs_leftHand_of_primary (runs_new new (.look (fun s => ⟨_, rfl⟩) fun start => ?_)) ends
  refine .bind (runs_expect new rfl) fun _ _ => runs_keep called.lexed ?_ (.no nofun ?_)
  · rintro same
    rw [Option.some.inj same] at word
    cases word
  refine .bind (runs_constructed word free _) ?_
  rintro _ ⟨at_, rfl⟩
  refine runs_sees lexed (.bind (runs_flawIf rfl) fun _ _ => .bind runs_split ?_)
  rintro _ ⟨left, rfl⟩
  refine runs_sees lexed (.yes rfl (.bind (runs_arguments fits each ends) fun arguments met => ?_))
  refine (runs_node _ start _).weaken ?_
  rintro _ ⟨span, rfl⟩
  exact ⟨span, at_, left, arguments, rfl, met⟩

def Expressed (text : List Char) (holds : Node → Prop) : Prop :=
  ∀ m n, 4 * text.length + 4 ≤ m → text.length ≤ n → Written m n text holds

theorem Expressed.weaken {text : List Char} {holds wider : Node → Prop} (expressed : Expressed text holds)
    (widen : ∀ e, holds e → wider e) : Expressed text wider :=
  fun m n deep wide => (expressed m n deep wide).weaken widen

theorem expressed_operand {text : List Char} {holds : Node → Prop} (operand : ∀ m n, Operand m n text holds) :
    Expressed text holds := by
  intro m n deep _
  obtain ⟨k, rfl⟩ : ∃ k, m = k + 3 := ⟨m - 3, by omega⟩
  exact (operand k n).written

theorem expressed_minus {c : Char} {text : List Char} {holds : Node → Prop}
    (operand : ∀ m n, Operand m n (c :: text) holds) (other : c ≠ '-' ∧ c ≠ '=') :
    Expressed ('-' :: c :: text) fun e => ∃ span a, e = .mk (.unary "-") span [a] ∧ holds a := by
  intro m n deep _
  obtain ⟨k, rfl⟩ : ∃ k, m = k + 4 := ⟨m - 4, by omega⟩
  exact (operand k n).minus other

theorem join_room (pieces : List (List Char)) :
    pieces.length ≤ (Text.join [',', ' '] pieces).length + 1 ∧
    ∀ piece ∈ pieces, piece.length ≤ (Text.join [',', ' '] pieces).length := by
  induction pieces with
  | nil => exact ⟨Nat.zero_le _, nofun⟩
  | cons piece pieces ih =>
      cases pieces with
      | nil => simp [Text.join]
      | cons next pieces =>
          obtain ⟨few, short⟩ := ih
          simp only [Text.join, List.length_append, List.length_cons, List.length_nil] at few short ⊢
          refine ⟨by omega, List.forall_mem_cons.mpr ⟨by omega, fun other here => ?_⟩⟩
          have fits := short other here
          omega

theorem expressed_array {xs : List α} (each : ∀ x ∈ xs, Expressed (text x) (meets x)) :
    Expressed ('[' :: Text.join [',', ' '] (xs.map text) ++ [']']) fun e =>
      ∃ span items, e = .mk (.array false) span items ∧ List.Forall₂ meets xs items := by
  intro m n deep wide
  obtain ⟨few, short⟩ := join_room (xs.map text)
  simp only [List.length_append, List.length_cons, List.length_nil, List.length_map,
    List.forall_mem_map] at deep wide few short
  obtain ⟨k, rfl⟩ : ∃ k, m = k + 3 := ⟨m - 3, by omega⟩
  refine (operand_array (by omega) fun x here => each x here k n ?_ ?_).written
  all_goals
    have fits := short x here
    omega

theorem expressed_object {key : α → String} {xs : List α} (each : ∀ x ∈ xs, Expressed (text x) (meets x)) :
    Expressed ('\x7b' :: Text.join [',', ' '] (xs.map fun x => entry (key x) (text x)) ++ ['\x7d']) fun e =>
      ∃ span properties, e = .mk (.object false) span properties ∧ List.Forall₂ (fun x p =>
        ∃ span at_ value, p = .mk .property span [.mk (.string (key x)) at_ [], value] ∧ meets x value) xs properties := by
  intro m n deep wide
  obtain ⟨few, short⟩ := join_room (xs.map fun x => entry (key x) (text x))
  simp only [List.length_append, List.length_cons, List.length_nil, List.length_map, List.forall_mem_map,
    entry] at deep wide few short
  obtain ⟨k, rfl⟩ : ∃ k, m = k + 3 := ⟨m - 3, by omega⟩
  refine (operand_object (by omega) fun x here => each x here k n ?_ ?_).written
  all_goals
    have fits := short x here
    omega

theorem expressed_call {name : String} {text : List Char} {holds : Node → Prop} (word : Lexeme.isWord name = true)
    (free : name ∉ keywords) (plain : name ∉ foreign ++ operators) (expressed : Expressed text holds) :
    Expressed (applied name [text]) fun e => ∃ span at_ left a,
      e = .mk .call span [.mk (.reference name) at_ [], .mk .absent left [], a] ∧ holds a := by
  intro m n deep wide
  simp only [applied, Text.join, List.length_append, List.length_cons, List.length_nil] at deep wide
  obtain ⟨k, rfl⟩ : ∃ k, m = k + 3 := ⟨m - 3, by omega⟩
  have each : ∀ x ∈ [()], Written k n text holds := fun _ _ => expressed k n (by omega) (by omega)
  refine (operand_call word free plain (by omega) (by simp; omega) each).written.weaken ?_
  rintro _ ⟨span, at_, left, arguments, rfl, met⟩
  cases met with
  | cons is rest =>
      cases rest
      exact ⟨span, at_, left, _, rfl, is⟩

theorem expressed_construct {name : String} {text : List Char} {holds : Node → Prop} (word : Lexeme.isWord name = true)
    (free : name ∉ keywords) (plain : name ∉ foreign ++ operators) (expressed : Expressed text holds) :
    Expressed (constructing name [text]) fun e => ∃ span at_ left a,
      e = .mk .construct span [.mk (.reference name) at_ [], .mk .absent left [], a] ∧ holds a := by
  intro m n deep wide
  simp only [constructing, applied, Text.join, List.length_append, List.length_cons, List.length_nil] at deep wide
  obtain ⟨k, rfl⟩ : ∃ k, m = k + 1 + 3 := ⟨m - 4, by omega⟩
  have each : ∀ x ∈ [()], Written (k + 1) n text holds := fun _ _ => expressed (k + 1) n (by omega) (by omega)
  refine (operand_construct word free plain (by simp; omega) each).written.weaken ?_
  rintro _ ⟨span, at_, left, arguments, rfl, met⟩
  cases met with
  | cons is rest =>
      cases rest
      exact ⟨span, at_, left, _, rfl, is⟩

end Prerender.Script.Expression
