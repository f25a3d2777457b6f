import Prerender.Proofs.Json.Strings
import Prerender.Proofs.Script.Token

set_option autoImplicit false

namespace Prerender.Script

def closers : List Char := [',', ';', ':', ')', ']', '\x7d']

def Ends (rest : List Char) : Prop := ∀ c ∈ rest.head?, c ∈ closers

theorem Ends.nil : Ends [] := by
  intro c here
  cases here

theorem Ends.never {rest : List Char} {p : Char → Bool} (ends : Ends rest) (none_of : ∀ c ∈ closers, p c = false) :
    rest.head?.any p = false := by
  cases rest with
  | nil => rfl
  | cons c rest => exact none_of c (ends c rfl)

namespace Number

inductive Plain : List Char → Prop where
  | whole (c : Char) (ds : List Char) (all : ∀ d ∈ c :: ds, d.isDigit = true) : Plain (c :: ds)
  | point (c : Char) (ds es : List Char) (all : ∀ d ∈ c :: ds, d.isDigit = true) (more : ∀ d ∈ es, d.isDigit = true) :
      Plain (c :: ds ++ '.' :: es)

theorem Plain.digit {text : List Char} (plain : Plain text) : ∃ c cs, text = c :: cs ∧ c.isDigit = true := by
  cases plain with
  | whole c ds all => exact ⟨c, ds, rfl, all c List.mem_cons_self⟩
  | point c ds es all more => exact ⟨c, _, rfl, all c List.mem_cons_self⟩

inductive Tail (rest : List Char) : List Char → Prop where
  | whole : Tail rest rest
  | point (es : List Char) (more : ∀ d ∈ es, d.isDigit = true) : Tail rest ('.' :: es ++ rest)

variable {rest tail : List Char}

theorem Tail.head (ends : Ends rest) (is : Tail rest tail) : ∀ c ∈ tail.head?, c ∈ '.' :: closers := by
  cases is with
  | whole => exact fun c here => List.mem_cons_of_mem _ (ends c here)
  | point es more =>
      intro c here
      obtain rfl := Option.some.inj here
      exact List.mem_cons_self

theorem digitRun_stop {ds : List Char} (all : ∀ d ∈ ds, d.isDigit = true)
    (stops : ∀ c ∈ tail.head?, c ∈ '.' :: closers) :
    Text.digitRun Char.isDigit (ds ++ tail) = (ds, ds.length) := by
  induction ds with
  | nil =>
      cases tail with
      | nil => rfl
      | cons c tail =>
          have others : ∀ c ∈ '.' :: closers, c.isDigit = false ∧ c ≠ '_' := by decide
          obtain ⟨digit, underscore⟩ := others c (stops c rfl)
          simp [Text.digitRun, digit, underscore]
  | cons d ds ih =>
      obtain ⟨digit, all⟩ := List.forall_mem_cons.mp all
      simp [Text.digitRun, digit, ih all]

theorem close_ends (ends : Ends rest) (value : Option Float) (length : Nat) :
    close value rest length = some (value, length) := by
  have stop : (rest.head?.any fun c => Text.isIdentifierPart c || c == '\\') = false := ends.never (by decide)
  rw [close, stop, if_neg Bool.false_ne_true]

theorem closeWhole_ends (ends : Ends rest) (value : Float) (length : Nat) :
    closeWhole value rest length = some (some value, length) := by
  cases rest with
  | nil => rfl
  | cons c rest =>
      have other : c ≠ 'n' := fun is => absurd (ends c rfl) (by rw [is]; decide)
      rw [closeWhole.eq_2 _ _ _ fun _ same => other (List.cons.inj same).1]
      exact close_ends ends (some value) length

theorem scaled?_ends (ends : Ends rest) (digits : List Char) (places length : Nat) :
    scaled? digits places rest length =
      some (some (Decimal.nearest (Decimal.natural digits) (0 - places)), length) := by
  cases rest with
  | nil => rfl
  | cons c rest =>
      have others : ∀ c ∈ closers, c ≠ 'e' ∧ c ≠ 'E' := by decide
      obtain ⟨small, big⟩ := others c (ends c rfl)
      unfold scaled?
      simp only [beq_eq_false_iff_ne.mpr small, beq_eq_false_iff_ne.mpr big, Bool.or_self, Bool.false_eq_true, if_false]
      exact close_ends ends _ length

theorem fraction_ends (ends : Ends rest) {es : List Char} (all : ∀ d ∈ es, d.isDigit = true) :
    fraction (es ++ rest) = (es, es.length) := by
  have run := digitRun_stop all (Tail.whole.head ends)
  cases es with
  | nil =>
      have stop : startsDigit rest = false := ends.never (by decide)
      rw [List.nil_append, fraction, stop, if_neg Bool.false_ne_true]
      rfl
  | cons e es =>
      have starts : startsDigit (e :: es ++ rest) = true := (List.forall_mem_cons.mp all).1
      rw [fraction, starts, if_pos rfl, run]

theorem afterWhole?_ends (ends : Ends rest) (digits : List Char) (length : Nat) (octal : Bool) {es : List Char}
    (more : ∀ d ∈ es, d.isDigit = true) :
    afterWhole? digits rest length octal = some (some (whole 10 digits), length) ∧
    afterWhole? digits ('.' :: es ++ rest) length octal =
      some (some (Decimal.nearest (Decimal.natural (digits ++ es)) (0 - es.length)), length + 1 + es.length) := by
  constructor
  · unfold afterWhole?
    split
    next => exact absurd (ends '.' rfl) (by decide)
    next => exact absurd (ends 'e' rfl) (by decide)
    next => exact absurd (ends 'E' rfl) (by decide)
    next =>
      split
      · exact close_ends ends _ length
      · exact closeWhole_ends ends _ length
  · have behind : (es ++ rest).drop es.length = rest := List.drop_left
    rw [List.cons_append, afterWhole?, fraction_ends ends more]
    dsimp only
    rw [behind, scaled?_ends ends]

theorem radix?_none {c : Char} (other : c ∉ ['x', 'X', 'o', 'O', 'b', 'B']) : radix? c = none := by
  simp only [List.mem_cons, List.not_mem_nil, or_false, not_or] at other
  simp [radix?, other]

theorem read?_digits {c : Char} {ds : List Char} (all : ∀ d ∈ c :: ds, d.isDigit = true)
    (stops : ∀ c ∈ tail.head?, c ∈ '.' :: closers) :
    read? (c :: ds ++ tail) =
      if c = '0' ∧ ds ≠ [] then
        if ds.all (Text.isDigitOf 8) then close (some (whole 8 ds)) tail (ds.length + 1)
        else afterWhole? ds tail (ds.length + 1) true
      else afterWhole? (c :: ds) tail (ds.length + 1) false := by
  have unmarked : ∀ d ∈ ['x', 'X', 'o', 'O', 'b', 'B'], d.isDigit = false := by decide
  have digit := (List.forall_mem_cons.mp all).1
  by_cases zero : c = '0'
  · subst zero
    cases ds with
    | nil =>
        rw [if_neg (by simp)]
        cases tail with
        | nil => rfl
        | cons e tail =>
            have others : ∀ e ∈ '.' :: closers, e ∉ ['x', 'X', 'o', 'O', 'b', 'B'] ∧ e.isDigit = false := by decide
            obtain ⟨other, nondigit⟩ := others e (stops e rfl)
            rw [List.cons_append, List.nil_append, read?, radix?_none other]
            simp only [nondigit, Bool.false_eq_true, if_false, List.length_nil]
    | cons d ds =>
        have more := (List.forall_mem_cons.mp all).2
        have second := (List.forall_mem_cons.mp more).1
        have other : d ∉ ['x', 'X', 'o', 'O', 'b', 'B'] := fun is => by simp [unmarked d is] at second
        have run : ((d :: ds) ++ tail).takeWhile Char.isDigit = d :: ds := by
          rw [List.takeWhile_append_of_pos more]
          cases tail with
          | nil => simp
          | cons e tail =>
              have others : ∀ e ∈ '.' :: closers, e.isDigit = false := by decide
              simp [others e (stops e rfl)]
        have behind : ((d :: ds) ++ tail).drop (d :: ds).length = tail := List.drop_left
        rw [if_pos ⟨rfl, List.cons_ne_nil d ds⟩, List.cons_append, List.cons_append, read?, radix?_none other]
        simp only [second, if_true]
        rw [← List.cons_append, run, behind]
  · have pointless : c ≠ '.' := fun is => by simp [is] at digit
    have starts : startsDigit (c :: ds ++ tail) = true := digit
    have behind : (c :: ds ++ tail).drop (c :: ds).length = tail := List.drop_left
    rw [if_neg fun both => zero both.1, read?.eq_3 (c :: ds ++ tail) (fun _ _ same => zero (List.cons.inj same).1)
      (fun _ same => pointless (List.cons.inj same).1), digitRun_stop all stops]
    dsimp only
    rw [starts, if_pos rfl, behind, List.length_cons]

theorem read?_plain {text : List Char} (plain : Plain text) (ends : Ends rest) : read? (text ++ rest) = read? text := by
  have alike : ∃ r, ∀ rest, Ends rest → read? (text ++ rest) = r := by
    cases plain with
    | whole c ds all =>
        apply Exists.intro
        intro rest ends
        have none_left : ∀ d ∈ ([] : List Char), d.isDigit = true := nofun
        rw [read?_digits all (Tail.whole.head ends), close_ends ends, (afterWhole?_ends ends _ _ _ none_left).1,
          (afterWhole?_ends ends _ _ _ none_left).1]
    | point c ds es all more =>
        apply Exists.intro
        intro rest ends
        have pointed (value : Option Float) (length : Nat) :
            close value ('.' :: es ++ rest) length = some (value, length) := rfl
        rw [List.append_assoc, read?_digits all ((Tail.point es more).head ends), pointed,
          (afterWhole?_ends ends _ _ _ more).2, (afterWhole?_ends ends _ _ _ more).2]
  obtain ⟨r, each⟩ := alike
  have alone := each [] Ends.nil
  rw [List.append_nil] at alone
  rw [each rest ends, alone]

end Number

namespace Escape

open Text.Quoted (hexDigit hex4)

theorem unicode?_hex4 {n : Nat} (low : n < 0x10000) (single : isHigh n = false) (rest : List Char) :
    unicode? (hex4 n ++ rest) = some (n, 4) := by
  have digit (k : Nat) : Text.hexValue? (hexDigit (k % 16)) = some (k % 16) :=
    Json.hexValue_hexDigit (k % 16) (Nat.mod_lt k (by decide))
  have brace : hexDigit (n / 4096 % 16) ≠ '\x7b' := fun is => by
    have value := digit (n / 4096)
    rw [is] at value
    cases value
  have sum : ((n / 4096 % 16 * 16 + n / 256 % 16) * 16 + n / 16 % 16) * 16 + n % 16 = n := by omega
  have value : hex? 4 (hex4 n ++ rest) = some n := by
    simp [hex?, hex4, Text.hexNumber?, digit, sum]
  rw [unicode?.eq_2 (hex4 n ++ rest) fun _ same => brace (List.cons.inj same).1, value]
  simp only [single]

theorem isHalf_char (c : Char) : isHigh c.toNat = false ∧ isLow c.toNat = false := by
  have valid : c.toNat < 0xD800 ∨ 0xDFFF < c.toNat ∧ c.toNat < 0x110000 := c.valid
  simp only [isHigh, isLow, Bool.and_eq_false_iff, decide_eq_false_iff_not]
  omega

theorem text_chars (cs : List Char) : text (cs.map Char.toNat) = String.ofList cs := by
  have halves : (cs.map Char.toNat).any (fun n => isHigh n || isLow n) = false := by
    simp [isHalf_char]
  rw [text]
  simp only [halves, Bool.and_false, Bool.or_false, List.flatMap_map, isHalf_char, Bool.or_self, Bool.false_eq_true, if_false,
    Char.ofNat_toNat]
  rw [List.flatMap_singleton']

end Escape

namespace Lexeme

open Text.Quoted (hex4 jsonChar)

-- A character in a quoted text: as in JSON, but for the two separators that end a line here.
def scriptChar (c : Char) : List Char :=
  if c = '\u2028' ∨ c = '\u2029' then '\\' :: 'u' :: hex4 c.toNat else jsonChar c

theorem jsonChar_ascii {c d : Char} (here : d ∈ jsonChar c) : d = c ∨ d.toNat < 0x80 := by
  have hex (n : Nat) : ∀ d ∈ hex4 n, d.toNat < 0x80 := by
    have digit : ∀ k < 16, (Text.Quoted.hexDigit k).toNat < 0x80 := by decide
    have all (k : Nat) := digit (k % 16) (Nat.mod_lt k (by decide))
    simp [hex4, all]
  unfold jsonChar at here
  split at here
  · exact .inr (by rcases List.mem_pair.mp here with rfl | rfl <;> decide)
  split at here
  · exact .inr (by rcases List.mem_pair.mp here with rfl | rfl <;> decide)
  split at here
  · right
    repeat' split at here
    all_goals first
      | (rcases List.mem_pair.mp here with rfl | rfl <;> decide)
      | skip
    rcases List.mem_cons.mp here with rfl | here
    · decide
    rcases List.mem_cons.mp here with rfl | here
    · decide
    · exact hex _ d here
  · exact .inl (List.mem_singleton.mp here)

theorem replaceAll_absent {c : Char} {cs : List Char} (absent : c ∉ cs) (new : List Char) :
    Text.replaceAll [c] new cs = cs := by
  rw [Text.replaceAll_char]
  conv_rhs => rw [← List.flatMap_singleton' cs]
  refine List.flatMap_congr fun d here => if_neg ?_
  rintro rfl
  exact absent here

theorem scriptChar_eq (c : Char) :
    Text.replaceAll ['\u2029'] ('\\' :: 'u' :: hex4 0x2029)
      (Text.replaceAll ['\u2028'] ('\\' :: 'u' :: hex4 0x2028) (jsonChar c)) = scriptChar c := by
  by_cases first : c = '\u2028'
  · subst first
    rfl
  by_cases second : c = '\u2029'
  · subst second
    rfl
  have absent {e : Char} (other : c ≠ e) (wide : 0x80 ≤ e.toNat) : e ∉ jsonChar c := by
    intro here
    rcases jsonChar_ascii here with is | ascii
    · exact other is.symm
    · exact absurd ascii (Nat.not_lt.mpr wide)
  rw [replaceAll_absent (absent first (by decide)), replaceAll_absent (absent second (by decide)), scriptChar,
    if_neg (not_or.mpr ⟨first, second⟩)]

theorem script_toList (s : String) : (Text.Quoted.script s).toList = '"' :: (s.toList.flatMap scriptChar ++ ['"']) := by
  have chars : s.toList.flatMap scriptChar = Text.replaceAll ['\u2029'] ('\\' :: 'u' :: hex4 0x2029)
      (Text.replaceAll ['\u2028'] ('\\' :: 'u' :: hex4 0x2028) (s.toList.flatMap jsonChar)) := by
    simp only [Text.replaceAll_char, List.flatMap_assoc]
    refine List.flatMap_congr fun c _ => ?_
    rw [← scriptChar_eq c]
    simp only [Text.replaceAll_char, List.flatMap_assoc]
  rw [chars, Text.Quoted.script, String.toList_ofList, Text.Quoted.json, String.toList_ofList]
  simp only [Text.replaceAll_char, List.flatMap_append, List.flatMap_cons]
  rfl

theorem stringFrom_skip (quote : Char) (cs rest : List Char) :
    stringFrom quote cs.length (cs ++ rest) =
      (stringFrom quote 0 rest).map fun (points, n) => (points, n + cs.length) := by
  induction cs with
  | nil => simp
  | cons c cs ih =>
      rw [List.length_cons, List.cons_append, stringFrom, ih, Option.map_map]
      rfl

theorem stringFrom_escape {cs rest : List Char} {point : Nat}
    (read : Escape.read true (cs ++ rest) = .codePoint point cs.length) :
    stringFrom '"' 0 ('\\' :: cs ++ rest) =
      (stringFrom '"' 0 rest).map fun (points, n) => (point :: points, n + (cs.length + 1)) := by
  have other : ('\\' == '"') = false ∧ ('\\' == '\n' || '\\' == '\r') = false := by decide
  rw [List.cons_append, stringFrom]
  simp only [other, Bool.false_eq_true, if_false, beq_self_eq_true, if_true, read, stringFrom_skip, Option.map_map]
  rfl

theorem stringFrom_unit {n : Nat} (low : n < 0x10000) (single : Escape.isHigh n = false) (rest : List Char) :
    stringFrom '"' 0 ('\\' :: 'u' :: hex4 n ++ rest) =
      (stringFrom '"' 0 rest).map fun (points, m) => (n :: points, m + 6) := by
  refine @stringFrom_escape ('u' :: hex4 n) rest n ?_
  rw [List.cons_append, Escape.read, Escape.unicode?_hex4 low single]
  rfl

theorem stringFrom_control (c : Char) (control : c.toNat < 0x20) (rest : List Char) :
    stringFrom '"' 0 (jsonChar c ++ rest) =
      (stringFrom '"' 0 rest).map fun (points, n) => (c.toNat :: points, n + (jsonChar c).length) := by
  have quote : c ≠ '"' := fun is => absurd control (by rw [is]; decide)
  have slash : c ≠ '\\' := fun is => absurd control (by rw [is]; decide)
  have letter (e : Char) (n : Nat) (read : Escape.read true (e :: rest) = .codePoint n 1) :=
    @stringFrom_escape [e] rest n read
  rw [jsonChar, if_neg quote, if_neg slash, if_pos control]
  split
  next is => rw [is]; exact letter 'b' 8 rfl
  next =>
  split
  next is => rw [is]; exact letter 't' 9 rfl
  next =>
  split
  next is => rw [is]; exact letter 'n' 10 rfl
  next =>
  split
  next is => rw [is]; exact letter 'f' 12 rfl
  next =>
  split
  next is => rw [is]; exact letter 'r' 13 rfl
  next => exact stringFrom_unit (by omega) (by simp [Escape.isHigh]; omega) rest

theorem stringFrom_char (c : Char) (rest : List Char) :
    stringFrom '"' 0 (scriptChar c ++ rest) =
      (stringFrom '"' 0 rest).map fun (points, n) => (c.toNat :: points, n + (scriptChar c).length) := by
  rw [scriptChar]
  split
  next separator =>
    refine stringFrom_unit ?_ (Escape.isHalf_char c).1 rest
    rcases separator with rfl | rfl <;> decide
  next =>
    by_cases control : c.toNat < 0x20
    · exact stringFrom_control c control rest
    by_cases quote : c = '"'
    · subst quote
      exact @stringFrom_escape ['"'] rest _ rfl
    by_cases slash : c = '\\'
    · subst slash
      exact @stringFrom_escape ['\\'] rest _ rfl
    · have feed : (c == '\n' || c == '\r') = false := by
        rw [Bool.or_eq_false_iff, beq_eq_false_iff_ne, beq_eq_false_iff_ne]
        constructor <;> rintro rfl <;> exact control (by decide)
      rw [jsonChar, if_neg quote, if_neg slash, if_neg control, List.singleton_append, stringFrom]
      simp only [beq_eq_false_iff_ne.mpr quote, feed, beq_eq_false_iff_ne.mpr slash, Bool.false_eq_true, if_false,
        List.length_singleton]

theorem stringFrom_script (cs rest : List Char) :
    stringFrom '"' 0 (cs.flatMap scriptChar ++ '"' :: rest) =
      some (cs.map Char.toNat, (cs.flatMap scriptChar).length + 1) := by
  induction cs with
  | nil => rfl
  | cons c cs ih =>
      rw [List.flatMap_cons, List.append_assoc, stringFrom_char, ih, List.length_append]
      simp only [Option.map_some, List.map_cons, Option.some.injEq, Prod.mk.injEq, true_and]
      omega

theorem read_script (s : String) (rest : List Char) :
    read ((Text.Quoted.script s).toList ++ rest) = (.string s, (Text.Quoted.script s).toList.length) := by
  have body := stringFrom_script s.toList rest
  have whole : s.toList.flatMap scriptChar ++ ['"'] ++ rest = s.toList.flatMap scriptChar ++ '"' :: rest := by simp
  rw [script_toList, List.cons_append, whole, read]
  simp only [beq_self_eq_true, Bool.true_or, if_true, body, Escape.text_chars, String.ofList_toList]
  simp

theorem stringFrom_plain {quote : Char} {cs : List Char} (plain : ∀ c ∈ cs, c ∉ [quote, '\\', '\n', '\r'])
    (rest : List Char) : stringFrom quote 0 (cs ++ quote :: rest) = some (cs.map Char.toNat, cs.length + 1) := by
  induction cs with
  | nil => simp [stringFrom]
  | cons c cs ih =>
      obtain ⟨other, plain⟩ := List.forall_mem_cons.mp plain
      simp only [List.mem_cons, List.not_mem_nil, or_false, not_or] at other
      rw [List.cons_append, stringFrom]
      simp [other, ih plain]

theorem read_string {quote : Char} (mark : quote ∈ ['"', '\'']) {cs : List Char}
    (plain : ∀ c ∈ cs, c ∉ [quote, '\\', '\n', '\r']) (rest : List Char) :
    read (quote :: (cs ++ quote :: rest)) = (.string (String.ofList cs), cs.length + 2) := by
  have quoted : (quote == '"' || quote == '\'') = true := by simpa using mark
  rw [read]
  simp only [quoted, if_true, stringFrom_plain plain, Escape.text_chars]

-- Whether no character of a name comes next.
def Parts (rest : List Char) : Prop := (rest.head?.any fun c => Text.isIdentifierPart c || c == '\\') = false

theorem nameFrom_plain (first : Bool) {c : Char} (plain : (c == '\\') = false) (cs : List Char) :
    nameFrom first 0 (c :: cs) =
      if (if first then Text.isIdentifierStart c else Text.isIdentifierPart c) then
        (nameFrom false 0 cs).map fun (name, n, escaped) => (c :: name, n + 1, escaped)
      else some ([], 0, false) := by
  rw [nameFrom.eq_def]
  simp only [plain, Bool.false_eq_true, if_false]

theorem nameFrom_word {cs rest : List Char} (all : ∀ c ∈ cs, Text.isIdentifierPart c = true) (parts : Parts rest) :
    nameFrom false 0 (cs ++ rest) = some (cs, cs.length, false) := by
  induction cs with
  | nil =>
      cases rest with
      | nil => rfl
      | cons c rest =>
          obtain ⟨part, slash⟩ := Bool.or_eq_false_iff.mp parts
          rw [List.nil_append, nameFrom_plain false slash]
          simp [part]
  | cons c cs ih =>
      obtain ⟨part, all⟩ := List.forall_mem_cons.mp all
      have slash : (c == '\\') = false := by
        rw [beq_eq_false_iff_ne]
        rintro rfl
        exact absurd part (by decide)
      rw [List.cons_append, nameFrom_plain false slash, ih all]
      simp [part]

theorem letter_range {c : Char} (letter : c.isAlpha = true) : 65 ≤ c.toNat ∧ c.toNat ≤ 122 := by
  have between {low high : UInt32} (above : low ≤ c.val) (below : c.val ≤ high) :
      low.toNat ≤ c.toNat ∧ c.toNat ≤ high.toNat :=
    ⟨UInt32.le_iff_toNat_le.mp above, UInt32.le_iff_toNat_le.mp below⟩
  rcases Bool.or_eq_true_iff.mp letter with upper | lower
  · obtain ⟨above, below⟩ := of_decide_eq_true upper
    have range : 65 ≤ c.toNat ∧ c.toNat ≤ 90 := between above below
    omega
  · obtain ⟨above, below⟩ := Bool.and_eq_true_iff.mp lower
    have range : 97 ≤ c.toNat ∧ c.toNat ≤ 122 := between (of_decide_eq_true above) (of_decide_eq_true below)
    omega

theorem start_of_letter {c : Char} (letter : c.isAlpha = true) : Text.isIdentifierStart c = true := by
  obtain ⟨low, high⟩ := letter_range letter
  simp [Text.isIdentifierStart, letter, show c.toNat < 0x80 by omega]

theorem not_digit_of_start {c : Char} (start : Text.isIdentifierStart c = true) : c.isDigit = false := by
  rw [← Bool.not_eq_true, Char.isDigit_iff_toNat]
  intro digit
  have none : ∀ n ∈ List.range' 48 10, Text.isIdentifierStart (Char.ofNat n) = false := by decide
  have range : 48 ≤ c.toNat ∧ c.toNat ≤ 57 := digit
  rw [← Char.ofNat_toNat c, none c.toNat (List.mem_range'_1.mpr (by omega))] at start
  cases start

theorem read_identifier {c : Char} {cs rest : List Char} (start : Text.isIdentifierStart c = true)
    (all : ∀ d ∈ cs, Text.isIdentifierPart d = true) (parts : Parts rest) :
    read (c :: cs ++ rest) = (.word (String.ofList (c :: cs)) false, cs.length + 1) := by
  have others : ∀ d ∈ ['"', '\'', '.', '\x60', '#', '\\'], Text.isIdentifierStart d = false := by decide
  have other {d : Char} (here : d ∈ ['"', '\'', '.', '\x60', '#', '\\']) : (c == d) = false := by
    rw [beq_eq_false_iff_ne]
    rintro rfl
    rw [others c here] at start
    cases start
  have name : name? (c :: cs ++ rest) = some (String.ofList (c :: cs), cs.length + 1, false) := by
    rw [name?, List.cons_append, nameFrom_plain true (other (by decide)), nameFrom_word all parts]
    simp [start]
  rw [List.cons_append, read]
  simp only [other, not_digit_of_start start, start, ← List.cons_append, name, List.mem_cons, List.not_mem_nil, true_or,
    or_true, Bool.or_self, Bool.false_eq_true, if_false, Bool.false_and, Bool.or_true, if_true]

def isWord (name : String) : Bool :=
  match name.toList with
  | c :: cs => c.isAlpha && cs.all Text.isIdentifierPart
  | [] => false

theorem read_name {name : String} (word : isWord name = true) {rest : List Char} (parts : Parts rest) :
    read (name.toList ++ rest) = (.word name false, name.toList.length) := by
  have whole := String.ofList_toList (s := name)
  rw [isWord] at word
  cases is : name.toList with
  | nil =>
      rw [is] at word
      cases word
  | cons c cs =>
      rw [is, Bool.and_eq_true, List.all_eq_true] at word
      rw [read_identifier (start_of_letter word.1) word.2 parts, ← is, whole, is]
      rfl

theorem read_number {text rest : List Char} (plain : Number.Plain text) (ends : Ends rest) {value : Option Float}
    (known : Number.read? text = some (value, text.length)) : read (text ++ rest) = (.number value, text.length) := by
  obtain ⟨c, cs, is, digit⟩ := plain.digit
  have quotes : ∀ d ∈ ['"', '\''], d.isDigit = false := by decide
  have other {d : Char} (here : d ∈ ['"', '\'']) : (c == d) = false := by
    rw [beq_eq_false_iff_ne]
    rintro rfl
    rw [quotes c here] at digit
    cases digit
  have whole := Number.read?_plain plain ends
  rw [known, is, List.cons_append] at whole
  rw [is, List.cons_append, read]
  simp only [other, List.mem_cons, List.not_mem_nil, true_or, or_true, or_false, Bool.or_self, Bool.false_eq_true, if_false,
    digit, Bool.true_or, if_true, whole]

def lone : List Char := ['[', ']', '(', ')', '\x7b', '\x7d', ',', ';', ':']

theorem read_lone {c : Char} (is : c ∈ lone) (rest : List Char) :
    read (c :: rest) = (.symbol (String.singleton c), 1) := by
  simp only [lone, List.mem_cons, List.not_mem_nil, or_false] at is
  rcases is with rfl | rfl | rfl | rfl | rfl | rfl | rfl | rfl | rfl <;> rfl

theorem read_minus {c : Char} (other : c ≠ '-' ∧ c ≠ '=') (rest : List Char) :
    read ('-' :: c :: rest) = (.symbol "-", 1) := by
  have lexed : read ('-' :: c :: rest) = symbolOf symbols ('-' :: c :: rest) := rfl
  have found : symbols.find? (fun s => Text.startsWith s.toList ('-' :: c :: rest)) = some "-" := by
    simp [symbols, Text.startsWith, Text.after?, other.1.symm, other.2.symm]
  rw [lexed, symbolOf]
  · rw [found]
    rfl
  · rintro d ds same
    cases same

theorem read_equals (rest : List Char) : read ('=' :: ' ' :: rest) = (.symbol "=", 1) := rfl

end Lexeme

def Solid (cs : List Char) : Prop := ∀ (html newline : Bool) (n : Nat), gap html .blank newline n cs = some (n, newline)

theorem Solid.nil : Solid [] := fun _ _ _ => rfl

theorem Solid.cons {c : Char} (solid : isLineEnd c = false ∧ isBlank c = false ∧ c ∉ ['/', '<', '-']) (cs : List Char) :
    Solid (c :: cs) := by
  obtain ⟨line, blank, other⟩ := solid
  simp only [List.mem_cons, List.not_mem_nil, or_false, not_or] at other
  intro html newline n
  rw [gap.eq_7 html newline n c cs (fun _ is _ => other.1 is) (fun _ is _ => other.1 is) (fun _ is _ => other.2.1 is)
    (fun _ is _ => other.2.2 is), line, blank]
  rfl

theorem Solid.visible {c : Char} (ascii : 0x20 < c.toNat ∧ c.toNat < 0x7F) (other : c ∉ ['/', '<', '-']) (cs : List Char) :
    Solid (c :: cs) := by
  obtain ⟨low, high⟩ := ascii
  refine .cons ⟨?_, ?_, other⟩ cs
  · have ends : ∀ d ∈ ['\n', '\r', '\u2028', '\u2029'], c ≠ d := by
      rintro d here rfl
      have out : ∀ d ∈ ['\n', '\r', '\u2028', '\u2029'], ¬ (0x20 < d.toNat ∧ d.toNat < 0x7F) := by decide
      exact out c here ⟨low, high⟩
    simp [isLineEnd, ends]
  · simp only [isBlank, Bool.or_eq_false_iff, beq_eq_false_iff_ne, Bool.and_eq_false_iff, decide_eq_false_iff_not]
    omega

theorem Solid.minus {c : Char} (other : c ≠ '-') (cs : List Char) : Solid ('-' :: c :: cs) := by
  intro html newline n
  rw [gap.eq_7 html newline n '-' (c :: cs) nofun nofun nofun fun _ _ same => other (List.cons.inj same).1]
  rfl

theorem Ends.solid {rest : List Char} (ends : Ends rest) : Solid rest := by
  cases rest with
  | nil => exact .nil
  | cons c rest =>
      have all : ∀ c ∈ closers, isLineEnd c = false ∧ isBlank c = false ∧ c ∉ ['/', '<', '-'] := by decide
      exact .cons (all c (ends c rfl)) rest

theorem Token.first_solid {cs : List Char} (solid : Solid cs) (html : Bool) (start : Nat) :
    Token.first html start cs = Token.read (Lexeme.read cs) start false cs := by
  rw [Token.first, solid]
  rfl

theorem Token.first_blank {cs : List Char} (solid : Solid cs) (html : Bool) (start : Nat) :
    Token.first html start (' ' :: cs) = Token.read (Lexeme.read cs) (start + 1) false cs := by
  have blank : gap html .blank false 0 (' ' :: cs) = some (1, false) := solid html false 1
  rw [Token.first, blank]
  rfl

end Prerender.Script
