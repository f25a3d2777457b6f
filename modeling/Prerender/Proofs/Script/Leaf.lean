import Prerender.Proofs.Json.Numbers
import Prerender.Proofs.Script.Compound

set_option autoImplicit false

namespace Prerender.Script

theorem Ends.parts {rest : List Char} (ends : Ends rest) : Lexeme.Parts rest := ends.never (by decide)

namespace Number

def magnitude? (text : List Char) : Option Float :=
  match read? text with
  | some (some x, n) => if n = text.length then some x else none
  | _ => none

def signed? : List Char → Option Float
  | '-' :: text => (magnitude? text).map fun x => -x
  | text => magnitude? text

theorem read?_of_magnitude? {text : List Char} {x : Float} (value : magnitude? text = some x) :
    read? text = some (some x, text.length) := by
  unfold magnitude? at value
  split at value
  next y n read =>
    split at value
    next whole =>
      rw [read, whole, Option.some.inj value]
    next => cases value
  next => cases value

inductive Signed : List Char → Prop where
  | plain (text : List Char) (is : Plain text) : Signed text
  | minus (text : List Char) (is : Plain text) : Signed ('-' :: text)

theorem Plain.not_minus {text : List Char} (plain : Plain text) (other : List Char) : text ≠ '-' :: other := by
  rintro rfl
  obtain ⟨c, cs, is, digit⟩ := plain.digit
  rw [← (List.cons.inj is).1] at digit
  cases digit

theorem signed?_plain {text : List Char} (plain : Plain text) : signed? text = magnitude? text := by
  unfold signed?
  split
  next other => exact absurd rfl (plain.not_minus other)
  next => rfl

theorem plain_of_digits {ds : List Char} (some_digit : ds ≠ []) (all : ∀ d ∈ ds, d.isDigit = true) : Plain ds := by
  cases ds with
  | nil => exact absurd rfl some_digit
  | cons c ds => exact .whole c ds all

theorem isDigit_toDigits {n : Nat} : ∀ c ∈ Nat.toDigits 10 n, c.isDigit = true :=
  fun _ here => Nat.isDigit_of_mem_toDigits (by decide) (by decide) here

theorem plain_toDigits (n : Nat) : Plain (Nat.toDigits 10 n) := plain_of_digits Nat.toDigits_ne_nil isDigit_toDigits

theorem plain_body (s : Decimal.Scientific) : Plain (Decimal.plain.body s) := by
  have all : ∀ d ∈ Decimal.digits s.coefficient, d.isDigit = true := isDigit_toDigits
  have zeros (k : Nat) : ∀ d ∈ Decimal.zeros k, d.isDigit = true := fun d here => by
    rw [List.eq_of_mem_replicate here]
    rfl
  have append {ds es : List Char} (first : ∀ d ∈ ds, d.isDigit = true) (second : ∀ d ∈ es, d.isDigit = true) :
      ∀ d ∈ ds ++ es, d.isDigit = true := fun d here => (List.mem_append.mp here).elim (first d) (second d)
  have body : Decimal.plain.body s =
      if 0 ≤ s.exponent then Decimal.digits s.coefficient ++ Decimal.zeros s.exponent.toNat ++ []
      else
        let first := s.exponent + ((Decimal.digits s.coefficient).length : Int) - 1
        if 0 ≤ first then
          (Decimal.digits s.coefficient).take (first.toNat + 1) ++ '.' :: (Decimal.digits s.coefficient).drop (first.toNat + 1)
        else '0' :: '.' :: Decimal.zeros (-first - 1).toNat ++ Decimal.digits s.coefficient := rfl
  rw [body]
  have some_digit : Decimal.digits s.coefficient ≠ [] := Nat.toDigits_ne_nil
  generalize Decimal.digits s.coefficient = ds at all some_digit
  obtain ⟨c, ds, rfl⟩ := List.exists_cons_of_ne_nil some_digit
  dsimp only
  split
  · rw [List.append_nil]
    exact .whole c _ (append all (zeros _))
  · split
    · rw [List.take_succ_cons, List.drop_succ_cons]
      refine .point c _ _ (fun d here => all d ?_) fun d here => all d (List.mem_cons_of_mem c (List.mem_of_mem_drop here))
      exact List.mem_cons.mpr ((List.mem_cons.mp here).imp_right List.mem_of_mem_take)
    · exact .point '0' [] _ (by decide) (append (zeros _) all)

theorem foldl_digits {ds : List Char} (all : ∀ d ∈ ds, d.isDigit = true) (n : Nat) :
    ds.foldl (fun n c => n * 10 + (Text.hexValue? c).getD 0) n = Nat.ofDigitChars 10 ds n := by
  induction ds generalizing n with
  | nil => rfl
  | cons d ds ih =>
      obtain ⟨digit, all⟩ := List.forall_mem_cons.mp all
      have value : Text.hexValue? d = some (d.toNat - 48) :=
        if_pos ((Json.isDigit_iff d).mp (Json.isDigit_of_isDigit digit))
      rw [List.foldl_cons, ih all, Nat.ofDigitChars_cons, value, Nat.mul_comm]
      rfl

theorem magnitude?_toDigits (n : Nat) : magnitude? (Nat.toDigits 10 n) = some (Float.ofNat n) := by
  have all := @isDigit_toDigits n
  have value : Text.ofDigits 10 (Nat.toDigits 10 n) = n :=
    (foldl_digits all 0).trans Nat.ofDigitChars_ten_toDigits
  have unpadded := Json.isPadded_toDigits n
  cases is : Nat.toDigits 10 n with
  | nil => exact absurd is Nat.toDigits_ne_nil
  | cons c ds =>
      rw [is] at all value unpadded
      have single : ¬ (c = '0' ∧ ds ≠ []) := by
        rintro ⟨rfl, more⟩
        simp [Json.isPadded, List.length_pos_iff, more] at unpadded
      have none_left : ∀ d ∈ ([] : List Char), d.isDigit = true := List.forall_mem_nil _
      have read := @read?_digits [] c ds all (Tail.whole.head Ends.nil)
      rw [if_neg single, List.append_nil, (afterWhole?_ends Ends.nil _ _ _ none_left).1, whole, if_pos (.inl rfl), value] at read
      rw [magnitude?, read]
      exact if_pos rfl

theorem signed?_int (n : Int) : Signed (toString n).toList ∧ signed? (toString n).toList = some (Float.ofInt n) := by
  rw [Int.toString_eq_repr]
  cases n with
  | ofNat n =>
      have text : (Int.ofNat n).repr.toList = Nat.toDigits 10 n := Nat.toList_repr
      have plain := plain_toDigits n
      rw [text, signed?_plain plain, magnitude?_toDigits]
      exact ⟨.plain _ plain, rfl⟩
  | negSucc n =>
      have text : (Int.negSucc n).repr.toList = '-' :: Nat.toDigits 10 (n + 1) := by
        rw [← Nat.toList_repr, Int.repr_eq_if, if_neg (by omega), String.toList_append]
        rfl
      have value : signed? ('-' :: Nat.toDigits 10 (n + 1)) = (magnitude? (Nat.toDigits 10 (n + 1))).map fun x => -x := rfl
      rw [text, value, magnitude?_toDigits]
      exact ⟨.minus _ (plain_toDigits (n + 1)), rfl⟩

end Number

namespace Expression

variable {m n : Nat}

theorem operand_word {name : String} {kind : Kind} (word : Lexeme.isWord name = true) (plain : name ∉ foreign ++ operators)
    (runs : ∀ {cs rest : List Char} {g : Grammar}, Begins cs (.word name false) rest →
      Runs n cs rest (primary g) fun e => ∃ span, e = .mk kind span []) :
    Operand m n name.toList fun e => ∃ span, e = .mk kind span [] := by
  refine ⟨fun rest ends => (opens_word word plain ends.parts).1, fun rest ends => (opens_word word plain ends.parts).2,
    fun rest ends => runs_leftHand_of_primary (runs ?_) ends⟩
  exact Parse.begins_append (Lexeme.read_name word ends.parts) ends.solid ends.known

theorem operand_name {name : String} (word : Lexeme.isWord name = true) (plain : name ∉ foreign ++ operators)
    (free : name ∉ keywords) : Operand m n name.toList fun e => ∃ span, e = .mk (.reference name) span [] :=
  operand_word word plain fun begins => runs_reference begins free

theorem operand_string (s : String) :
    Operand m n (Text.Quoted.script s).toList fun e => ∃ span, e = .mk (.string s) span [] := by
  refine ⟨fun rest _ => opens_script s rest, fun rest _ operator _ => ?_, fun rest ends =>
    runs_leftHand_of_primary (runs_string (begins_script ends.solid ends.known)) ends⟩
  rw [Lexeme.read_script]
  nofun

theorem operand_number {text : List Char} {x : Float} (plain : Number.Plain text) (value : Number.magnitude? text = some x) :
    Operand m n text fun e => ∃ span, e = .mk (.number x) span [] := by
  have lexed {rest : List Char} (ends : Ends rest) : Lexeme.read (text ++ rest) = (.number (some x), text.length) :=
    Lexeme.read_number plain ends (Number.read?_of_magnitude? value)
  refine ⟨fun rest ends => ?_, fun rest ends operator _ => ?_, fun rest ends =>
    runs_leftHand_of_primary (runs_number (Parse.begins_append (lexed ends) ends.solid ends.known)) ends⟩
  · refine ⟨?_, by rw [lexed ends]; nofun, fun name => by rw [lexed ends]; nofun, fun _ _ => by rw [lexed ends]; nofun⟩
    obtain ⟨c, cs, rfl, digit⟩ := plain.digit
    have range : 48 ≤ c.toNat ∧ c.toNat ≤ 57 := Char.isDigit_iff_toNat.mp digit
    refine .visible ⟨by omega, by omega⟩ (fun here => ?_) _
    have others : ∀ d ∈ ['/', '<', '-'], d.isDigit = false := by decide
    rw [others c here] at digit
    cases digit
  · rw [lexed ends]
    nofun

theorem expressed_signed {text : List Char} {x : Float} (signed : Number.Signed text) (value : Number.signed? text = some x) :
    Expressed text fun e => (∃ span, e = .mk (.number x) span []) ∨
      ∃ span at_ y, e = .mk (.unary "-") span [.mk (.number y) at_ []] ∧ x = -y := by
  cases signed with
  | plain text is =>
      rw [Number.signed?_plain is] at value
      exact (expressed_operand fun _ _ => operand_number is value).weaken fun _ => .inl
  | minus text is =>
      obtain ⟨y, magnitude, rfl⟩ := Option.map_eq_some_iff.mp value
      obtain ⟨c, cs, rfl, digit⟩ := is.digit
      have others : ∀ d ∈ ['-', '='], d.isDigit = false := by decide
      have other {d : Char} (here : d ∈ ['-', '=']) : c ≠ d := by
        rintro rfl
        rw [others c here] at digit
        cases digit
      refine (expressed_minus (fun _ _ => operand_number is magnitude) ⟨other (by decide), other (by decide)⟩).weaken ?_
      rintro _ ⟨span, _, rfl, at_, rfl⟩
      exact .inr ⟨span, at_, y, rfl, rfl⟩

end Expression
end Prerender.Script
