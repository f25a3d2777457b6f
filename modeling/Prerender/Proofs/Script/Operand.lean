import Prerender.Proofs.Script.Running
import Prerender.Script.Parse

set_option autoImplicit false

/-!
Expressions that end with their operand. Behind an operand that nothing goes on from, each level of the grammar
gives it as it is, so what a primary expression is read as is what the whole expression is.
-/
namespace Prerender.Script

def Closing (l : Lexeme) : Prop := l = .finish ∨ ∃ c ∈ closers, l = .symbol (String.singleton c)

theorem Ends.closing {rest : List Char} (ends : Ends rest) : Closing (Lexeme.read rest).1 := by
  cases rest with
  | nil => exact .inl rfl
  | cons c rest =>
      have lone : ∀ c ∈ closers, c ∈ Lexeme.lone := by decide
      exact .inr ⟨c, ends c rfl, congrArg Prod.fst (Lexeme.read_lone (lone c (ends c rfl)) rest)⟩

theorem Ends.known {rest : List Char} (ends : Ends rest) : (Lexeme.read rest).1 ≠ .unknown := by
  rcases ends.closing with is | ⟨c, -, is⟩ <;> rw [is] <;> nofun

theorem Closing.other {l : Lexeme} (closing : Closing l) {texts : List String}
    (others : ∀ c ∈ closers, String.singleton c ∉ texts) : ∀ text ∈ texts, l.spelling ≠ some text := by
  rintro text here is
  rcases closing with rfl | ⟨c, closer, rfl⟩
  · cases is
  · obtain rfl := Option.some.inj is
    exact others c closer here

namespace Token

variable {t : Token} {l : Lexeme} {texts : List String}

theorem is_other (lexeme : t.lexeme = l) (other : ∀ text ∈ texts, l.spelling ≠ some text) :
    ∀ text ∈ texts, t.is text = false := fun text here => by
  rw [Token.is_eq lexeme]
  exact beq_eq_false_iff_ne.mpr (other text here)

theorem isOneOf_other (lexeme : t.lexeme = l) (other : ∀ text ∈ texts, l.spelling ≠ some text) :
    t.isOneOf texts = false :=
  List.any_eq_false.mpr fun text here => by simp [is_other lexeme other text here]

end Token

namespace Expression

open Parse

variable {g : Grammar} {n : Nat} {cs mid rest : List Char} {l : Lexeme}

-- What no member follows: a symbol that is none of a member, an index or an instantiation, and no template.
structure Quiet (l : Lexeme) : Prop where
  plain : ∀ text whole, l ≠ .template text whole
  other : ∀ text ∈ [".", "?.", "[", "!", "<", "<<"], l.spelling ≠ some text

theorem quiet_of_closing (closing : Closing l) : Quiet l := by
  refine ⟨fun text whole is => ?_, closing.other (by decide)⟩
  rcases closing with rfl | ⟨c, -, rfl⟩ <;> cases is

theorem runs_memberStep (lexed : (Lexeme.read cs).1 = l) (quiet : Quiet l) (start : Nat) (x : Chained) :
    Runs n cs cs (memberStep g start x) (· = none) := by
  refine .token lexed fun t lexeme _ => .look (fun s => ⟨_, rfl⟩) fun c => ?_
  have other := Token.is_other lexeme quiet.other
  have plain : t.isTemplate = false := by
    unfold Token.isTemplate
    split
    next text whole is => exact absurd (lexeme.symm.trans is) (quiet.plain text whole)
    next => rfl
  refine .no (by simp [other]) (.no (by simp [other]) (.no (by simp [other]) (.no (by simp [plain]) ?_)))
  refine .look (fun s => ⟨_, rfl⟩) fun typed => ?_
  cases typed with
  | false => exact .yes rfl (.pure rfl)
  | true =>
      refine .no (by simp) (.no (by simp [other]) (.no ?_ (.pure rfl)))
      simp [Token.isOneOf, other]

theorem runs_callStep (lexed : (Lexeme.read cs).1 = l) (quiet : Quiet l)
    (other : ∀ text ∈ ["?.", "("], l.spelling ≠ some text) (start : Nat) (x : Chained) :
    Runs n cs cs (callStep g start x) (· = none) := by
  refine .bind (runs_memberStep lexed quiet start x) fun found none_found => ?_
  subst none_found
  refine runs_keep lexed (other "?." (by decide)) (runs_sees lexed (.no ?_ (.pure rfl)))
  simpa using other "(" (by decide)

theorem runs_leftHand_of_primary {holds : Node → Prop} (primary : Runs n cs rest (primary g) holds) (ends : Ends rest) :
    Runs n cs rest (leftHand g) holds := by
  refine .look (fun s => ⟨_, rfl⟩) fun start => .bind primary fun e is => ?_
  have closing := ends.closing
  refine .bind (runs_extend (runs_callStep rfl (quiet_of_closing closing) (closing.other (by decide)) start (e, false)))
    fun x same => ?_
  subst same
  exact .pure is

theorem runs_suffixed {holds : Node → Prop} (left : Runs n cs rest (leftHand g) holds) (ends : Ends rest) :
    Runs n cs rest (suffixed g) holds := by
  refine .look (fun s => ⟨_, rfl⟩) fun start => .bind left fun e is => ?_
  refine .token rfl fun t lexeme _ => runs_seesAny rfl (.no ?_ (.pure is))
  have other : ∀ text ∈ ["++", "--"], (Lexeme.read rest).1.spelling ≠ some text := ends.closing.other (by decide)
  simp [other]

def operators : List String := prefixOperators ++ ["++", "--", "<", "<<", "await"]

theorem runs_unary {holds : Node → Prop} (left : Runs n cs rest (leftHand g) holds)
    (other : ∀ text ∈ operators, (Lexeme.read cs).1.spelling ≠ some text) (ends : Ends rest) :
    Runs n cs rest (unary g) holds := by
  refine .look (fun s => ⟨_, rfl⟩) fun start => .token rfl fun t lexeme _ => ?_
  have none_of := Token.is_other lexeme other
  have not_one {texts : List String} (within : ∀ text ∈ texts, text ∈ operators) : ¬ t.isOneOf texts = true := by
    rw [Token.isOneOf_other lexeme fun text here => other text (within text here)]
    nofun
  refine .no (not_one (by decide)) (.no (not_one (by decide)) (.no (not_one (by decide)) ?_))
  refine .look (fun s => ⟨_, rfl⟩) fun c => .no ?_ (runs_suffixed left ends)
  simp [none_of "await" (by decide)]

def infixes : List String :=
  [">", "??", "||", "&&", "|", "^", "&", "==", "!=", "===", "!==", "<", "<=", ">=", "instanceof", "in", "as",
    "satisfies", "<<", ">>", ">>>", "+", "-", "*", "/", "%", "**"]

theorem widened_closing {t : Token} (lexeme : t.lexeme = l) (closing : Closing l) : t.widened = t := by
  have other : ∀ text ∈ [">"], t.is text = false := Token.is_other lexeme (closing.other (by decide))
  rw [Token.widened, other ">" (by decide), if_neg Bool.false_ne_true]

theorem precedence?_closing {t : Token} (lexeme : t.lexeme = l) (closing : Closing l) : precedence? t = none := by
  have other : ∀ text ∈ infixes, t.is text = false := Token.is_other lexeme (closing.other (by decide))
  simp only [infixes, List.forall_mem_cons] at other
  simp [precedence?, Token.isOneOf, List.findIdx?_cons, other]

theorem runs_binaryStep (ends : Ends rest) (start above : Nat) (left : Node) :
    Runs n rest rest (binaryStep g start above left) (· = none) := by
  refine .token rfl fun t lexeme _ => ?_
  dsimp only
  rw [widened_closing lexeme ends.closing, precedence?_closing lexeme ends.closing]
  exact .pure rfl

theorem runs_binary {holds : Node → Prop} (unary : Runs n cs rest (g .unary) holds) (opens : Opens cs)
    (ends : Ends rest) (above : Nat) :
    Runs n cs rest (binary g above) holds := by
  have operand_runs : Runs n cs rest (operand g) holds := by
    refine .token rfl fun t lexeme _ => .look (fun s => ⟨_, rfl⟩) fun c => ?_
    split
    next name private_name _ => exact absurd (lexeme.symm.trans private_name) (opens.shown name)
    next => exact unary
  refine .look (fun s => ⟨_, rfl⟩) fun start => .bind operand_runs fun e is => ?_
  exact (runs_extend (runs_binaryStep ends start above e)).weaken fun _ same => same ▸ is

theorem runs_assignment {holds : Node → Prop} (left : Runs n cs rest (g (.binary 0)) holds) (opens : Opens cs)
    (ends : Ends rest) (returnType : Bool) : Runs n cs rest (assignment g returnType) holds := by
  refine .look (fun s => ⟨_, rfl⟩) fun start => .look (fun s => ⟨_, rfl⟩) fun c => runs_sees rfl (.no ?_ ?_)
  · have other := opens.other "yield" (by decide)
    simp [other]
  have no_arrow : Runs n cs cs (arrow? g returnType) (· = none) := by
    refine runs_seesAny rfl (.no ?_ (.pure rfl))
    have other (text : String) (here : text ∈ foreign) := opens.other text here
    simp [other "(" (by decide), other "<" (by decide), other "async" (by decide)]
  refine .bind no_arrow fun found none_found => ?_
  subst none_found
  refine .sure (fun s start last _ => lookahead_expect (opens.other "async" (by decide)) s start last) (.no nofun ?_)
  refine .bind left fun e is => .token rfl fun t lexeme _ => ?_
  dsimp only
  rw [widened_closing lexeme ends.closing]
  have other : ∀ text ∈ "=>" :: "=" :: "?" :: compoundOperators, t.is text = false :=
    Token.is_other lexeme (ends.closing.other (by decide))
  have no_compound : t.isOneOf compoundOperators = false := List.any_eq_false.mpr fun text here => by
    simp [other text (by simp [here])]
  split
  next arrow => simp [other "=>" (by decide)] at arrow
  next =>
    refine .no (by simp [other "=" (by decide)]) (.no (by simp [no_compound]) (.no ?_ (.pure is)))
    simp [other "?" (by decide)]

theorem runs_of_unary {m : Nat} {holds : Node → Prop} (unary : Runs n cs rest (Grammar.ofDepth m .unary) holds)
    (opens : Opens cs) (ends : Ends rest) (returnType : Bool) :
    Runs n cs rest (Grammar.ofDepth (m + 2) (.assignment returnType)) holds := by
  have binary_runs : Runs n cs rest (Grammar.ofDepth (m + 1) (.binary 0)) holds := runs_binary unary opens ends 0
  exact runs_assignment binary_runs opens ends returnType

theorem runs_of_leftHand {m : Nat} {holds : Node → Prop} (left : Runs n cs rest (leftHand (Grammar.ofDepth m)) holds)
    (opens : Opens cs) (other : ∀ text ∈ operators, (Lexeme.read cs).1.spelling ≠ some text) (ends : Ends rest)
    (returnType : Bool) : Runs n cs rest (Grammar.ofDepth (m + 3) (.assignment returnType)) holds := by
  have unary_runs : Runs n cs rest (Grammar.ofDepth (m + 1) .unary) holds := runs_unary left other ends
  exact runs_of_unary unary_runs opens ends returnType

def keywords : List String :=
  ["function", "async", "class", "new", "import", "this", "null", "true", "false", "super", "await", "yield"] ++
    reservedWords

theorem starts_looks (s : State) : ∃ a, FunctionSyntax.starts s = some (a, s) := by
  change ∃ a, (if s.token.is "function" = true then (pure true : Parse Bool) else _) s = some (a, s)
  split
  · exact ⟨_, rfl⟩
  · exact ⟨_, rfl⟩

theorem runs_reference {name : String} (begins : Begins cs (.word name false) rest) (free : name ∉ keywords) :
    Runs n cs rest (primary g) fun e => ∃ span, e = .mk (.reference name) span [] := by
  have other {text : String} (here : text ∈ keywords) : name ≠ text := fun is => free (is ▸ here)
  have plain : Runs n cs rest variableName fun e => ∃ span, e = .mk (.reference name) span [] := by
    refine .token begins.lexed fun t lexeme _ => ?_
    rw [lexeme]
    refine .look (fun s => ⟨_, rfl⟩) fun c => .no ?_ (runs_single begins _)
    have reserved : name ∉ reservedWords := fun here => free (List.mem_append_right _ here)
    have await : name ≠ "await" := other (by decide)
    have yield : name ≠ "yield" := other (by decide)
    simp [reserved, Pattern.isTaken, await, yield]
  refine .token begins.lexed fun t lexeme _ => ?_
  rw [lexeme]
  refine .look (fun s => ⟨_, rfl⟩) fun start => .token begins.lexed fun u same _ => ?_
  have is_other (text : String) (here : text ∈ keywords) : ¬ u.is text = true := by
    rw [Token.is_eq same]
    simpa [Lexeme.spelling] using other here
  refine .no (is_other _ (by decide)) (.look starts_looks fun b => .no ?_ ?_)
  · simp [is_other "async" (by decide)]
  refine .no (is_other _ (by decide)) (.no (is_other _ (by decide)) (.no (is_other _ (by decide)) ?_))
  refine .no (is_other _ (by decide)) (.no (is_other _ (by decide)) (.no (is_other _ (by decide)) ?_))
  exact .no (is_other _ (by decide)) (.no (is_other _ (by decide)) plain)

theorem runs_word_value {text : String} {kind : Kind} (begins : Begins cs (.word text false) rest)
    (is : (text, kind) ∈ [("null", Kind.null), ("true", .boolean true), ("false", .boolean false)]) :
    Runs n cs rest (primary g) fun e => ∃ span, e = .mk kind span [] := by
  refine .token begins.lexed fun t lexeme _ => ?_
  rw [lexeme]
  refine .look (fun s => ⟨_, rfl⟩) fun start => .token begins.lexed fun u same _ => ?_
  have is_eq (other : String) : u.is other = (text == other) := by
    rw [Token.is_eq same]
    exact Option.some_beq_some ..
  simp only [List.mem_cons, Prod.mk.injEq, List.not_mem_nil, or_false] at is
  simp only [is_eq]
  rcases is with ⟨rfl, rfl⟩ | ⟨rfl, rfl⟩ | ⟨rfl, rfl⟩
  all_goals
    refine .no (by decide) (.look starts_looks fun b => .no (by simp) ?_)
    refine .no (by decide) (.no (by decide) (.no (by decide) (.no (by decide) ?_)))
  · exact .yes (by decide) (runs_single begins _)
  · exact .no (by decide) (.yes (by decide) (runs_single begins _))
  · exact .no (by decide) (.no (by decide) (.yes (by decide) (runs_single begins _)))

theorem runs_new {holds : Node → Prop} (begins : Begins cs (.word "new" false) mid)
    (runs : Runs n cs rest (construct g) holds) : Runs n cs rest (primary g) holds := by
  refine .token begins.lexed fun t lexeme _ => ?_
  rw [lexeme]
  refine .look (fun s => ⟨_, rfl⟩) fun start => .token begins.lexed fun u same _ => ?_
  have is_eq (other : String) : u.is other = ("new" == other) := by
    rw [Token.is_eq same]
    exact Option.some_beq_some ..
  simp only [is_eq]
  refine .no (by decide) (.look starts_looks fun b => .no (by simp) ?_)
  exact .no (by decide) (.yes (by decide) runs)

theorem runs_string {value : String} (begins : Begins cs (.string value) rest) :
    Runs n cs rest (primary g) fun e => ∃ span, e = .mk (.string value) span [] := by
  refine .token begins.lexed fun t lexeme _ => ?_
  rw [lexeme]
  exact runs_single begins _

theorem runs_number {value : Float} (begins : Begins cs (.number (some value)) rest) :
    Runs n cs rest (primary g) fun e => ∃ span, e = .mk (.number value) span [] := by
  refine .token begins.lexed fun t lexeme _ => ?_
  rw [lexeme]
  exact runs_single begins _

end Expression
end Prerender.Script
