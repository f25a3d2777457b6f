import Prerender.Json.Printer
import Prerender.Json.Reader

set_option autoImplicit false

namespace Prerender.Json

def Ends (rest : List Char) : Prop := ∀ c ∈ rest.head?, c = ',' ∨ c = ']' ∨ c = '\x7d'

def Digits (ds : List Char) : Prop := ∀ c ∈ ds, isDigit c = true

theorem isDigit_iff (c : Char) : isDigit c = true ↔ '0' ≤ c ∧ c ≤ '9' := by
  unfold isDigit Decimal.digitValue?
  split
  next is => exact iff_of_true rfl is
  next no => exact iff_of_false Bool.false_ne_true no

theorem isDigit_of_isDigit {c : Char} (digit : c.isDigit = true) : isDigit c = true := by
  rw [isDigit_iff, Char.le_def, Char.le_def, UInt32.le_iff_toNat_le, UInt32.le_iff_toNat_le]
  exact Char.isDigit_iff_toNat.mp digit

theorem digits_toDigits (n : Nat) : Digits (Decimal.digits n) :=
  fun _ here => isDigit_of_isDigit (Nat.isDigit_of_mem_toDigits (by decide) (by decide) here)

theorem digits_zeros (n : Nat) : Digits (Decimal.zeros n) := by
  intro c here
  rw [List.eq_of_mem_replicate here]
  rfl

theorem Digits.append {ds es : List Char} (first : Digits ds) (second : Digits es) : Digits (ds ++ es) :=
  fun c here => (List.mem_append.mp here).elim (first c) (second c)

theorem takeWhile_digits {ds rest : List Char} (digits : Digits ds) (stop : ∀ c ∈ rest.head?, isDigit c = false) :
    (ds ++ rest).takeWhile isDigit = ds := by
  rw [List.takeWhile_append_of_pos digits]
  cases rest with
  | nil => simp
  | cons c rest => simp [stop c rfl]

theorem dropWhile_digits {ds rest : List Char} (digits : Digits ds) (stop : ∀ c ∈ rest.head?, isDigit c = false) :
    (ds ++ rest).dropWhile isDigit = rest := by
  rw [List.dropWhile_append_of_pos digits]
  cases rest with
  | nil => rfl
  | cons c rest => simp [stop c rfl]

theorem Ends.stop {rest : List Char} (ends : Ends rest) : ∀ c ∈ rest.head?, isDigit c = false := by
  intro c head
  rcases ends c head with rfl | rfl | rfl <;> rfl

inductive Fraction : List Char → Prop where
  | absent : Fraction []
  | digits (digits : List Char) (all : Digits digits) : Fraction ('.' :: digits)

inductive Exponent : List Char → Prop where
  | absent : Exponent []
  | power (sign digits : List Char) (signs : sign = [] ∨ sign = ['-'] ∨ sign = ['+']) (all : Digits digits) :
      Exponent ('e' :: (sign ++ digits))

inductive Numeral : List Char → Prop where
  | of (c : Char) (whole fraction exponent : List Char) (all : Digits (c :: whole)) (point : Fraction fraction)
      (power : Exponent exponent) : Numeral (c :: whole ++ (fraction ++ exponent))

theorem Ends.nil : Ends [] := by
  intro c head
  cases head

theorem exponent?_signed {sign digits rest : List Char} (signs : sign = [] ∨ sign = ['-'] ∨ sign = ['+'])
    (all : Digits digits) (ends : Ends rest) :
    exponent? ('e' :: (sign ++ digits ++ rest)) =
      if digits.isEmpty then none
      else some (if sign = ['-'] then -(Decimal.natural digits : Int) else Decimal.natural digits, rest) := by
  have here := takeWhile_digits all ends.stop
  have after := dropWhile_digits all ends.stop
  rcases signs with rfl | rfl | rfl
  · have unsigned (r : List Char) : digits ++ rest ≠ '-' :: r ∧ digits ++ rest ≠ '+' :: r := by
      cases digits with
      | nil =>
          cases rest with
          | nil => exact ⟨nofun, nofun⟩
          | cons c rest =>
              have head := ends c rfl
              constructor <;> rintro ⟨⟩ <;> simp at head
      | cons d digits =>
          have digit := all d List.mem_cons_self
          constructor <;> rintro ⟨⟩ <;> exact absurd digit (by decide)
    simp only [exponent?, List.nil_append, true_or, if_true]
    split
    next r is => exact absurd is (unsigned r).1
    next r is => exact absurd is (unsigned r).2
    next => simp [here, after]
  · simp [exponent?, here, after]
  · simp [exponent?, here, after]

theorem exponent?_append {exponent rest : List Char} (power : Exponent exponent) (ends : Ends rest) :
    exponent? (exponent ++ rest) = (exponent? exponent).map fun (n, _) => (n, rest) := by
  cases power with
  | absent =>
      cases rest with
      | nil => rfl
      | cons c rest =>
          have other : ¬(c = 'e' ∨ c = 'E') := by
            rcases ends c rfl with rfl | rfl | rfl <;> decide
          simp [exponent?, other]
  | power sign digits signs all =>
      have alone := exponent?_signed signs all Ends.nil
      rw [List.append_nil] at alone
      rw [List.cons_append, exponent?_signed signs all ends, alone]
      split <;> rfl

theorem Exponent.stop {exponent rest : List Char} (power : Exponent exponent) (ends : Ends rest) :
    ∀ c ∈ (exponent ++ rest).head?, isDigit c = false := by
  cases power with
  | absent => exact ends.stop
  | power sign digits signs all =>
      rintro c ⟨⟩
      rfl

theorem Exponent.not_point {exponent rest : List Char} (power : Exponent exponent) (ends : Ends rest) (r : List Char) :
    exponent ++ rest ≠ '.' :: r := by
  cases power with
  | absent =>
      rintro rfl
      have head := ends '.' rfl
      simp at head
  | power sign digits signs all => nofun

theorem Exponent.marked {exponent rest : List Char} (power : Exponent exponent) (ends : Ends rest) {letter : Char}
    (is : letter = 'e' ∨ letter = 'E') : (exponent ++ rest).head? = some letter ↔ exponent.head? = some letter := by
  cases power with
  | absent =>
      refine iff_of_false (fun head => ?_) nofun
      have ending := ends letter head
      rcases is with rfl | rfl <;> simp at ending
  | power sign digits signs all => rfl

def ending? (whole fraction : List Char) (pointed : Bool) (rest : List Char) :
    Option ((Nat ⊕ Float) × List Char) := do
  let (m, excess) := takeWord 0 whole
  let (m', left) := takeWord m fraction
  let hasExponent := rest.head? = some 'e' || rest.head? = some 'E'
  let (e, rest) ← exponent? rest
  if excess.isEmpty && !pointed && !hasExponent then return (.inl m, rest)
  let x ← scale? m' (e + excess.length - (fraction.length - left.length : Nat))
  return (.inr x, rest)

theorem ending?_append (whole fraction : List Char) (pointed : Bool) {exponent rest : List Char}
    (power : Exponent exponent) (ends : Ends rest) :
    ending? whole fraction pointed (exponent ++ rest) =
      (ending? whole fraction pointed exponent).map fun (n, _) => (n, rest) := by
  simp only [ending?, exponent?_append power ends, power.marked ends (.inl rfl), power.marked ends (.inr rfl)]
  cases exponent? exponent with
  | none => rfl
  | some read =>
      simp only [Option.map_some, Option.bind_eq_bind, Option.bind_some]
      split
      next => rfl
      next => rw [Option.map_bind]; rfl

def isPadded (whole : List Char) : Bool := whole.head? = some '0' && 1 < whole.length

theorem magnitude?_whole {c : Char} {whole rest : List Char} (all : Digits (c :: whole))
    (stop : ∀ c ∈ rest.head?, isDigit c = false) (plain : ∀ r, rest ≠ '.' :: r) :
    magnitude? (c :: whole ++ rest) = if isPadded (c :: whole) then none else ending? (c :: whole) [] false rest := by
  unfold magnitude?
  rw [takeWhile_digits all stop, dropWhile_digits all stop]
  by_cases padded : isPadded (c :: whole) = true
  · rw [if_pos padded]
    exact if_pos padded
  · rw [if_neg padded]
    refine (if_neg padded).trans ?_
    dsimp only
    split
    next _ r => exact absurd rfl (plain r)
    next => rfl

theorem magnitude?_point {c : Char} {whole digits rest : List Char} (all : Digits (c :: whole)) (more : Digits digits)
    (stop : ∀ c ∈ rest.head?, isDigit c = false) :
    magnitude? (c :: whole ++ '.' :: (digits ++ rest)) =
      if isPadded (c :: whole) then none
      else if digits.isEmpty then none
      else ending? (c :: whole) digits true rest := by
  have point : ∀ c ∈ ('.' :: (digits ++ rest)).head?, isDigit c = false := by
    rintro c ⟨⟩
    rfl
  unfold magnitude?
  rw [takeWhile_digits all point, dropWhile_digits all point]
  by_cases padded : isPadded (c :: whole) = true
  · rw [if_pos padded]
    exact if_pos padded
  · rw [if_neg padded]
    refine (if_neg padded).trans ?_
    simp only [takeWhile_digits more stop, dropWhile_digits more stop]
    split <;> rfl

theorem magnitude?_append {text rest : List Char} (numeral : Numeral text) (ends : Ends rest) :
    magnitude? (text ++ rest) = (magnitude? text).map fun (n, _) => (n, rest) := by
  cases numeral with
  | of c whole fraction exponent all point power =>
      cases point with
      | absent =>
          have alone := magnitude?_whole all (power.stop Ends.nil) (power.not_point Ends.nil)
          rw [List.append_nil] at alone
          rw [List.nil_append, alone, List.append_assoc, magnitude?_whole all (power.stop ends) (power.not_point ends),
            ending?_append _ _ _ power ends]
          split <;> rfl
      | digits digits more =>
          have alone := magnitude?_point all more (power.stop Ends.nil)
          have joined : c :: whole ++ '.' :: (digits ++ exponent) ++ rest =
              c :: whole ++ '.' :: (digits ++ (exponent ++ rest)) := by simp
          rw [List.append_nil] at alone
          change magnitude? (c :: whole ++ '.' :: (digits ++ exponent) ++ rest) =
            (magnitude? (c :: whole ++ '.' :: (digits ++ exponent))).map _
          rw [joined, alone, magnitude?_point all more (power.stop ends), ending?_append _ _ _ power ends]
          split
          next => rfl
          next => split <;> rfl

theorem Numeral.digit {text : List Char} (numeral : Numeral text) :
    ∃ c cs, text = c :: cs ∧ isDigit c = true := by
  cases numeral with
  | of c whole fraction exponent all point power => exact ⟨c, _, rfl, all c List.mem_cons_self⟩

theorem isDigit_ne {c d : Char} (digit : isDigit c = true) (other : isDigit d = false) : c ≠ d := by
  rintro rfl
  rw [digit] at other
  cases other

def unsigned : Nat ⊕ Float → Number
  | .inl n => .int n
  | .inr x => .float x

def negated : Nat ⊕ Float → Number
  | .inl n =>
      if n = 0 then .float (-0.0)
      else if n ≤ word / 2 then .int (-n)
      else .float (-(UInt64.ofNat n).toFloat)
  | .inr x => .float (-x)

theorem number?_unsigned {text : List Char} (numeral : Numeral text) (rest : List Char) :
    number? (text ++ rest) = (magnitude? (text ++ rest)).map fun (n, rest) => (unsigned n, rest) := by
  obtain ⟨c, cs, rfl, digit⟩ := numeral.digit
  rw [List.cons_append, number?.eq_def]
  split
  next r is => exact absurd (List.cons.inj is).1 (isDigit_ne digit (by decide))
  next =>
    cases magnitude? (c :: (cs ++ rest)) with
    | none => rfl
    | some read => obtain ⟨n | x, rest⟩ := read <;> rfl

theorem number?_negated (cs : List Char) :
    number? ('-' :: cs) = (magnitude? cs).map fun (n, rest) => (negated n, rest) := by
  rw [number?]
  cases magnitude? cs with
  | none => rfl
  | some read =>
      obtain ⟨n | x, rest⟩ := read
      · simp only [Option.map_some, negated]
        split
        next => rfl
        next => split <;> rfl
      · rfl

theorem scalar?_numeral {text : List Char} (numeral : Numeral text) (rest : List Char) :
    scalar? (text ++ rest) = (magnitude? (text ++ rest)).map fun (n, r) => (.number (unsigned n), r) := by
  have read := number?_unsigned numeral rest
  obtain ⟨c, cs, rfl, digit⟩ := numeral.digit
  have unquoted : c ≠ '"' := isDigit_ne digit (by decide)
  rw [List.cons_append] at read ⊢
  rw [scalar?, if_neg unquoted, digit, Bool.or_true, if_pos rfl, read, Option.map_map]
  rfl

theorem scalar?_minus (cs : List Char) :
    scalar? ('-' :: cs) = (magnitude? cs).map fun (n, r) => (.number (negated n), r) := by
  have number : scalar? ('-' :: cs) = (number? ('-' :: cs)).map fun read => (.number read.1, read.2) := rfl
  rw [number, number?_negated, Option.map_map]
  rfl

theorem numeral_of {text whole fraction exponent : List Char} (some_digit : whole ≠ []) (all : Digits whole)
    (point : Fraction fraction) (power : Exponent exponent) (is : text = whole ++ (fraction ++ exponent)) :
    Numeral text := by
  cases whole with
  | nil => exact absurd rfl some_digit
  | cons c whole =>
      rw [is]
      exact .of c whole fraction exponent all point power

theorem numeral_digits (n : Nat) : Numeral (Decimal.digits n) :=
  numeral_of Nat.toDigits_ne_nil (digits_toDigits n) .absent .absent (List.append_nil _).symm

theorem Digits.take {ds : List Char} (all : Digits ds) (n : Nat) : Digits (ds.take n) :=
  fun c here => all c (List.mem_of_mem_take here)

theorem Digits.drop {ds : List Char} (all : Digits ds) (n : Nat) : Digits (ds.drop n) :=
  fun c here => all c (List.mem_of_mem_drop here)

theorem take_ne_nil {ds : List Char} (some_digit : ds ≠ []) (n : Nat) : ds.take (n + 1) ≠ [] := by
  cases ds with
  | nil => exact absurd rfl some_digit
  | cons c ds => nofun

theorem numeral_body (layout : Decimal.Layout) (s : Decimal.Scientific) : Numeral (layout.body s) := by
  have all := digits_toDigits s.coefficient
  have some_digit : Decimal.digits s.coefficient ≠ [] := Nat.toDigits_ne_nil
  unfold Decimal.Layout.body
  dsimp only
  split
  · split
    · have point : Fraction (if layout.fraction then ['.', '0'] else []) := by
        split
        · exact .digits ['0'] (by simp [Digits]; rfl)
        · exact .absent
      exact numeral_of (List.append_ne_nil_of_left_ne_nil some_digit _)
        (all.append (digits_zeros s.exponent.toNat)) point .absent (by rw [List.append_nil])
    · split
      · exact numeral_of (take_ne_nil some_digit _) (all.take _) (.digits _ (all.drop _)) .absent
          (by rw [List.append_nil])
      · exact numeral_of (List.cons_ne_nil '0' []) (by simp [Digits]; rfl)
          (.digits _ ((digits_zeros _).append all)) .absent (by rw [List.append_nil]; rfl)
  · have point : Fraction (if (Decimal.digits s.coefficient).length ≤ 1 then []
        else '.' :: (Decimal.digits s.coefficient).drop 1) := by
      split
      · exact .absent
      · exact .digits _ (all.drop 1)
    simp only [List.append_assoc, List.cons_append]
    refine numeral_of (take_ne_nil some_digit 0) (all.take 1) point (.power _ _ ?_ (digits_toDigits _)) rfl
    split
    · exact .inr (.inl rfl)
    · split
      · exact .inr (.inr rfl)
      · exact .inl rfl

-- The texts that numbers are written as. None of the last three is a number of JSON.
inductive Written : List Char → Prop where
  | numeral (text : List Char) (is : Numeral text) : Written text
  | minus (text : List Char) (is : Numeral text) : Written ('-' :: text)
  | nan : Written ['N', 'a', 'N']
  | inf : Written ['i', 'n', 'f']
  | minus_inf : Written ['-', 'i', 'n', 'f']

theorem written_sign {text : List Char} (is : Numeral text) (s : Float.Model.UnpackedFloat.Sign) :
    Written (Decimal.sign s ++ text) := by
  cases s with
  | positive => exact .numeral text is
  | negative => exact .minus text is

theorem written_layout (layout : Decimal.Layout) (x : Float) : Written (layout.write x).toList := by
  rw [Decimal.Layout.write, String.toList_ofList]
  cases x.toModel.unpack with
  | notANumber => exact .nan
  | infinity s =>
      cases s with
      | positive => exact .inf
      | negative => exact .minus_inf
  | zero s => exact written_sign (numeral_body _ _) s
  | finite s m q pos => exact written_sign (numeral_body _ _) s

theorem written_write (n : Number) : Written n.write.toList := by
  cases n with
  | int n =>
      rw [Number.write, Int.toString_eq_repr, Int.repr_eq_if]
      split
      · rw [Nat.toList_repr]
        exact .numeral _ (numeral_digits n.toNat)
      · rw [String.toList_append, Nat.toList_repr]
        exact .minus _ (numeral_digits (-n).toNat)
  | float x => exact written_layout Number.layout x

theorem Written.head {text : List Char} (written : Written text) :
    ∃ c cs, text = c :: cs ∧ (isDigit c = true ∨ c = '-' ∨ c = 'N' ∨ c = 'i') := by
  cases written with
  | numeral text is =>
      obtain ⟨c, cs, head, digit⟩ := is.digit
      exact ⟨c, cs, head, .inl digit⟩
  | minus text is => exact ⟨'-', text, rfl, .inr (.inl rfl)⟩
  | nan => exact ⟨'N', _, rfl, .inr (.inr (.inl rfl))⟩
  | inf => exact ⟨'i', _, rfl, .inr (.inr (.inr rfl))⟩
  | minus_inf => exact ⟨'-', _, rfl, .inr (.inl rfl)⟩

def Number.reading (n : Number) : Option Json := (scalar? n.write.toList).map Prod.fst

theorem scalar?_write (n : Number) {rest : List Char} (ends : Ends rest) :
    scalar? (n.write.toList ++ rest) = n.reading.map fun j => (j, rest) := by
  have written := written_write n
  rw [Number.reading]
  generalize n.write.toList = text at written ⊢
  cases written with
  | numeral text is =>
      have alone := scalar?_numeral is []
      rw [List.append_nil] at alone
      rw [scalar?_numeral is, alone, magnitude?_append is ends]
      simp only [Option.map_map]
      rfl
  | minus text is =>
      rw [List.cons_append, scalar?_minus, scalar?_minus, magnitude?_append is ends]
      simp only [Option.map_map]
      rfl
  | nan => rfl
  | inf => rfl
  | minus_inf => rfl

theorem le_ofDigitChars (ds : List Char) (m : Nat) : m ≤ Nat.ofDigitChars 10 ds m := by
  rw [Nat.ofDigitChars_eq_ofDigitChars_zero]
  have grown := Nat.le_mul_of_pos_left m (Nat.pow_pos (n := ds.length) (show 0 < 10 by decide))
  omega

theorem takeWord_small (ds : List Char) (m : Nat) (small : Nat.ofDigitChars 10 ds m < word) :
    takeWord m ds = (Nat.ofDigitChars 10 ds m, []) := by
  induction ds generalizing m with
  | nil => rw [Nat.ofDigitChars_nil, takeWord]
  | cons c ds ih =>
      have step : 10 * m + (c.toNat - '0'.toNat) = m * 10 + (c.toNat - 48) := by
        rw [Nat.mul_comm]
        rfl
      rw [Nat.ofDigitChars_cons, step] at small ⊢
      have within := Nat.lt_of_le_of_lt (le_ofDigitChars ds _) small
      rw [takeWord, if_pos within, ih _ small]

theorem head_toDigits (n : Nat) (pos : 0 < n) : (Nat.toDigits 10 n).head? ≠ some '0' := by
  induction n using Nat.strongRecOn with
  | ind n ih =>
      by_cases single : n < 10
      · rw [Nat.toDigits_of_lt_base single]
        have all : ∀ n < 10, 0 < n → [n.digitChar].head? ≠ some '0' := by decide
        exact all n single pos
      · rw [Nat.toDigits_of_base_le (by decide) (by omega), List.head?_append, List.head?_eq_some_head Nat.toDigits_ne_nil, Option.some_or,
          ← List.head?_eq_some_head]
        exact ih (n / 10) (by omega) (by omega)

theorem isPadded_toDigits (n : Nat) : isPadded (Nat.toDigits 10 n) = false := by
  cases n with
  | zero => decide
  | succ n => simp [isPadded, head_toDigits (n + 1) n.succ_pos]

theorem magnitude?_digits (n : Nat) (small : n < word) : magnitude? (Nat.toDigits 10 n) = some (.inl n, []) := by
  have all := digits_toDigits n
  have value := Nat.ofDigitChars_ten_toDigits (n := n)
  have plain := isPadded_toDigits n
  cases is : Nat.toDigits 10 n with
  | nil => exact absurd is Nat.toDigits_ne_nil
  | cons c whole =>
      rw [Decimal.digits, is] at all
      rw [is] at value plain
      have read := magnitude?_whole all Ends.nil.stop nofun
      rw [List.append_nil, plain] at read
      rw [read]
      have taken := takeWord_small (c :: whole) 0 (by rw [value]; exact small)
      rw [value] at taken
      simp only [ending?, taken]
      rfl

theorem reading_int (n : Int) (small : n.natAbs ≤ word / 2) : (Number.int n).reading = some (.number (.int n)) := by
  have half : word / 2 < word := by decide
  rw [Number.reading, Number.write, Int.toString_eq_repr, Int.repr_eq_if]
  split
  next positive =>
    have within : n.toNat < word := by omega
    have read := scalar?_numeral (numeral_digits n.toNat) []
    rw [List.append_nil, Decimal.digits, magnitude?_digits n.toNat within] at read
    rw [Nat.toList_repr, read]
    simp only [Option.map_some, unsigned, Int.toNat_of_nonneg positive]
  next negative =>
    have within : (-n).toNat < word := by omega
    have read := scalar?_minus (Nat.toDigits 10 (-n).toNat)
    rw [magnitude?_digits (-n).toNat within] at read
    have some_unit : (-n).toNat ≠ 0 := by omega
    have low : (-n).toNat ≤ word / 2 := by omega
    rw [String.toList_append, Nat.toList_repr]
    change (scalar? ('-' :: Nat.toDigits 10 (-n).toNat)).map Prod.fst = _
    rw [read]
    simp only [Option.map_some, negated, if_neg some_unit, if_pos low]
    rw [Int.toNat_of_nonneg (by omega), Int.neg_neg]

end Prerender.Json
