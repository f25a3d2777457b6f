import Prerender.Proofs.Text.Search
import Prerender.Script.Token

set_option autoImplicit false

namespace Prerender.Script

theorem Text.digitRun_size (isDigit : Char → Bool) (cs : List Char) :
    (Text.digitRun isDigit cs).2 ≤ cs.length := by
  induction cs with
  | nil => exact Nat.le_refl 0
  | cons c cs ih =>
      rw [Text.digitRun, List.length_cons]
      split
      · exact Nat.succ_le_succ ih
      · split
        · exact Nat.succ_le_succ ih
        · exact Nat.zero_le _

namespace Number

theorem startsDigit_size {cs : List Char} (starts : startsDigit cs = true) : 0 < cs.length := by
  cases cs with
  | nil => cases starts
  | cons c cs => exact Nat.succ_pos _

theorem digitRun_pos (cs : List Char) (starts : startsDigit cs = true) :
    0 < (Text.digitRun Char.isDigit cs).2 := by
  cases cs with
  | nil => cases starts
  | cons c cs =>
      rw [Text.digitRun, if_pos (by simpa [startsDigit] using starts)]
      exact Nat.succ_pos _

theorem fraction_size (cs : List Char) : (fraction cs).2 ≤ cs.length := by
  unfold fraction
  split
  · exact Text.digitRun_size Char.isDigit cs
  · exact Nat.zero_le _

section
variable {value v : Option Float} {whole : Float} {digits rest : List Char} {places length n : Nat} (total : Nat)
  (fits : rest.length + length ≤ total)
include fits

theorem close_size (read : close value rest length = some (v, n)) : length ≤ n ∧ n ≤ total := by
  unfold close at read
  split at read
  · cases read
  · cases read
    omega

theorem closeWhole_size (read : closeWhole whole rest length = some (v, n)) : length ≤ n ∧ n ≤ total := by
  unfold closeWhole at read
  split at read
  · rw [List.length_cons] at fits
    have := close_size total (by omega) read
    omega
  · exact close_size total fits read

theorem scaled?_size (read : scaled? digits places rest length = some (v, n)) : length ≤ n ∧ n ≤ total := by
  unfold scaled? at read
  split at read
  · rename_i c cs
    rw [List.length_cons] at fits
    split at read
    · split at read
      split at read
      · rename_i signs _ starts
        have exponent := Text.digitRun_size Char.isDigit (cs.drop signs)
        have room := startsDigit_size starts
        rw [List.length_drop] at exponent room
        have := close_size total (by rw [List.length_drop]; omega) read
        omega
      · cases read
    · exact close_size total (by rw [List.length_cons]; omega) read
  · exact close_size total fits read

theorem afterWhole?_size {octal : Bool} (read : afterWhole? digits rest length octal = some (v, n)) :
    length ≤ n ∧ n ≤ total := by
  unfold afterWhole? at read
  split at read
  · rename_i cs
    have room := fraction_size cs
    rw [List.length_cons] at fits
    generalize fraction cs = run at read room
    obtain ⟨places, taken⟩ := run
    dsimp only at read room
    have := scaled?_size total (by rw [List.length_drop]; omega) read
    omega
  · exact scaled?_size total fits read
  · exact scaled?_size total fits read
  · split at read
    · exact close_size total fits read
    · exact closeWhole_size total fits read

end

theorem read?_size {cs : List Char} {v : Option Float} {n : Nat} (read : read? cs = some (v, n)) :
    0 < n ∧ n ≤ cs.length := by
  unfold read? at read
  split at read
  · rename_i c cs
    rw [List.length_cons, List.length_cons]
    split at read
    · rename_i radix _
      have room := Text.digitRun_size (Text.isDigitOf radix) cs
      generalize Text.digitRun (Text.isDigitOf radix) cs = run at read room
      obtain ⟨digits, taken⟩ := run
      dsimp only at read room
      split at read
      · have := closeWhole_size (cs.length + 2) (by rw [List.length_drop]; omega) read
        omega
      · cases read
    · split at read
      · have digits := (List.takeWhile_sublist (l := c :: cs) Char.isDigit).length_le
        rw [List.length_cons] at digits
        dsimp only at read
        split at read
        · have := close_size (cs.length + 2) (by rw [List.length_drop, List.length_cons]; omega) read
          omega
        · have := afterWhole?_size (cs.length + 2) (by rw [List.length_drop, List.length_cons]; omega) read
          omega
      · have := afterWhole?_size _ (Nat.le_refl _) read
        rw [List.length_cons] at this
        omega
  · rename_i cs
    have room := fraction_size cs
    generalize fraction cs = run at read room
    obtain ⟨places, taken⟩ := run
    dsimp only at read room
    split at read
    · cases read
    · have := scaled?_size (cs.length + 1) (by rw [List.length_drop]; omega) read
      rw [List.length_cons]
      omega
  · have room := Text.digitRun_size Char.isDigit cs
    have some_digit := digitRun_pos cs
    generalize Text.digitRun Char.isDigit cs = run at read room some_digit
    obtain ⟨digits, taken⟩ := run
    dsimp only at read room some_digit
    split at read
    · rename_i starts
      have := afterWhole?_size cs.length (by rw [List.length_drop]; omega) read
      have := some_digit starts
      omega
    · cases read

end Number

namespace Lexeme

theorem nameFrom_size (first : Bool) (skip : Nat) (cs : List Char) :
    ∀ r, nameFrom first skip cs = some r → r.2.1 ≤ cs.length ∧ (r.1 ≠ [] → 0 < r.2.1) := by
  fun_induction nameFrom first skip cs <;> grind [Option.map_eq_some_iff]

theorem name?_size {cs : List Char} {name : String} {n : Nat} {escaped : Bool}
    (read : name? cs = some (name, n, escaped)) : 0 < n ∧ n ≤ cs.length := by
  unfold name? at read
  split at read
  · rename_i c name m escaped found
    cases read
    obtain ⟨fits, solid⟩ := nameFrom_size true 0 cs _ found
    exact ⟨solid (List.cons_ne_nil c name), fits⟩
  · cases read

theorem nameFrom_length (first : Bool) (skip : Nat) (cs : List Char) :
    ∀ r, nameFrom first skip cs = some r → r.2.2 = false → r.2.1 = r.1.length + min skip cs.length := by
  fun_induction nameFrom first skip cs <;> grind [Option.map_eq_some_iff]

theorem name?_length {cs : List Char} {name : String} {n : Nat} (read : name? cs = some (name, n, false)) :
    n = name.length := by
  unfold name? at read
  split at read
  · rename_i c name m escaped found
    cases read
    have length := nameFrom_length true 0 cs _ found rfl
    rw [Nat.zero_min, Nat.add_zero] at length
    rw [String.length_ofList]
    exact length
  · cases read

theorem stringFrom_size (quote : Char) (skip : Nat) (cs : List Char) :
    ∀ r, stringFrom quote skip cs = some r → r.2 ≤ cs.length := by
  fun_induction stringFrom quote skip cs <;> grind [Option.map_eq_some_iff]

theorem pieceFrom_size (skip : Nat) (cs : List Char) :
    ∀ p, pieceFrom skip cs = some p → p.length ≤ cs.length := by
  fun_induction pieceFrom skip cs <;> grind [Piece.push, Option.map_eq_some_iff, List.head?_eq_some_iff]

-- What stands where a symbol or a word without escapes is read.
def spelling : Lexeme → Option String
  | .symbol text => some text
  | .word text false => some text
  | _ => none

structure Sized (cs : List Char) (l : Lexeme) (n : Nat) : Prop where
  fits : n ≤ cs.length
  solid : l ≠ .unknown → l ≠ .finish → 0 < n
  ends : l = .finish → cs = []
  spelled : ∀ text, l.spelling = some text → n = text.length

theorem Sized.unknown (cs : List Char) : Sized cs .unknown 0 :=
  ⟨Nat.zero_le _, fun known => absurd rfl known, nofun, nofun⟩

theorem Sized.of_pos {cs : List Char} {l : Lexeme} {n : Nat} (fits : n ≤ cs.length) (solid : 0 < n)
    (more : l ≠ .finish) (spelled : ∀ text, l.spelling = some text → n = text.length) : Sized cs l n :=
  ⟨fits, fun _ _ => solid, fun is => absurd is more, spelled⟩

theorem Sized.of_name {cs : List Char} {name : String} {n : Nat} {escaped : Bool}
    (read : name? cs = some (name, n, escaped)) : Sized cs (.word name escaped) n := by
  refine .of_pos (name?_size read).2 (name?_size read).1 nofun fun text is => ?_
  cases escaped with
  | true => cases is
  | false =>
      cases is
      exact name?_length read

theorem symbolOf_sized {candidates : List String} (solid : ∀ s ∈ candidates, 0 < s.length) (cs : List Char) :
    Sized cs (symbolOf candidates cs).1 (symbolOf candidates cs).2 := by
  unfold symbolOf
  split
  · split <;> exact .of_pos (by simp) (by simp) nofun (by rintro text ⟨⟩; rfl)
  · split
    · rename_i s found
      have starts : Text.startsWith s.toList cs = true := by simpa using List.find?_some found
      have fits := (Text.startsWith_iff.mp starts).length_le
      rw [String.length_toList] at fits
      exact .of_pos fits (solid s (List.mem_of_find?_eq_some found)) nofun (by rintro text ⟨⟩; rfl)
    · exact .unknown cs

theorem read_sized (cs : List Char) : Sized cs (Lexeme.read cs).1 (Lexeme.read cs).2 := by
  cases cs with
  | nil => exact ⟨Nat.le_refl 0, fun _ more => absurd rfl more, fun _ => rfl, nofun⟩
  | cons c rest =>
      rw [Lexeme.read]
      split
      · split
        · rename_i points n found
          exact .of_pos (Nat.succ_le_succ (stringFrom_size c 0 rest _ found)) (Nat.succ_pos n) nofun nofun
        · exact .unknown _
      split
      · split
        · rename_i value n found
          exact .of_pos (Number.read?_size found).2 (Number.read?_size found).1 nofun nofun
        · exact .unknown _
      split
      · split
        · rename_i p found
          exact .of_pos (Nat.succ_le_succ (pieceFrom_size 0 rest _ found)) (Nat.succ_pos _) nofun nofun
        · exact .unknown _
      split
      · split
        · rename_i name n escaped found
          exact .of_pos (Nat.succ_le_succ (name?_size found).2) (Nat.succ_pos _) nofun nofun
        · exact .unknown _
      split
      · split
        · rename_i name n escaped found
          exact .of_name found
        · exact .unknown _
      have solid : ∀ s ∈ symbols, 0 < s.length := by decide
      exact symbolOf_sized solid _

theorem regexFrom_size (bracket : Bool) (n : Nat) (cs : List Char) :
    ∀ m, regexFrom bracket n cs = some m → n < m ∧ m ≤ n + cs.length := by
  fun_induction regexFrom bracket n cs <;> grind

theorem regex?_size {cs : List Char} {n : Nat} (read : regex? cs = some n) : 0 < n ∧ n ≤ cs.length := by
  unfold regex? at read
  split at read
  · rename_i cs
    split at read
    · cases read
    · rename_i m found
      have body := regexFrom_size false 0 cs m found
      have flags := (List.takeWhile_sublist (l := cs.drop m) Text.isIdentifierPart).length_le
      rw [List.length_drop] at flags
      dsimp only at read
      split at read
      · cases read
        rw [List.length_cons]
        omega
      · cases read
  · cases read

end Lexeme

theorem gap_size (html : Bool) (mode : Gap) (newline : Bool) (n : Nat) (cs : List Char) :
    ∀ r, gap html mode newline n cs = some r → n ≤ r.1 ∧ r.1 ≤ n + cs.length := by
  fun_induction gap html mode newline n cs <;> grind

namespace Token

structure Of (text : List Char) (t : Token) : Prop where
  here : t.text = text.drop t.start
  ordered : t.start ≤ t.stop
  fits : t.stop ≤ text.length
  solid : t.lexeme ≠ .unknown → t.lexeme ≠ .finish → t.start < t.stop
  ends : t.lexeme = .finish → t.start = text.length
  spelled : ∀ word, t.lexeme.spelling = some word → t.stop = t.start + word.length

theorem of_sized {text : List Char} {l : Lexeme} {n start : Nat} (newline : Bool) (fits : start ≤ text.length)
    (sized : Lexeme.Sized (text.drop start) l n) : Of text ⟨l, start, start + n, newline, text.drop start⟩ := by
  obtain ⟨room, solid, ends, spelled⟩ := sized
  rw [List.length_drop] at room
  refine ⟨rfl, Nat.le_add_right start n, by dsimp only; omega, fun known more => ?_, fun finish => ?_,
    fun word is => congrArg (start + ·) (spelled word is)⟩
  · exact Nat.lt_add_of_pos_right (solid known more)
  · exact Nat.le_antisymm fits (List.drop_eq_nil_iff.mp (ends finish))

theorem of_first {text : List Char} {start : Nat} (html : Bool) (fits : start ≤ text.length) :
    (first html start (text.drop start)).Of text ∧ start ≤ (first html start (text.drop start)).start := by
  unfold first
  split
  · rename_i n newline found
    have passed := (gap_size html .blank false 0 (text.drop start) _ found).2
    rw [List.length_drop] at passed
    rw [List.drop_drop]
    exact ⟨of_sized newline (by omega) (Lexeme.read_sized _), Nat.le_add_right start n⟩
  · exact ⟨of_sized false fits (.unknown _), Nat.le_refl start⟩

theorem widened_start (t : Token) : t.widened.start = t.start := by
  unfold widened
  split <;> rfl

theorem narrowed_start (t : Token) : t.narrowed.start = t.start := by
  unfold narrowed
  split <;> rfl

section
variable {t : Token}

theorem more_of_is {word : String} (is : t.is word = true) : t.lexeme ≠ .finish :=
  fun finish => by simp [Token.is, finish] at is

theorem more_of_isOneOf {words : List String} (is : t.isOneOf words = true) : t.lexeme ≠ .finish :=
  fun finish => by simp [isOneOf, Token.is, finish] at is

theorem more_of_isWord (word : t.isWord = true) : t.lexeme ≠ .finish :=
  fun finish => by simp [isWord, finish] at word

end

namespace Of

variable {text : List Char} {t : Token} (of : t.Of text)
include of

theorem rest : t.rest = text.drop t.stop := by
  rw [Token.rest, of.here, List.drop_drop, Nat.add_sub_cancel' of.ordered]

theorem next (html : Bool) : (t.next html).Of text ∧ t.stop ≤ (t.next html).start := by
  rw [Token.next, of.rest]
  exact of_first html of.fits

theorem begins : t.start ≤ text.length := Nat.le_trans of.ordered of.fits

theorem again {l : Lexeme} {n : Nat} (sized : Lexeme.Sized t.text l n) : (t.again l n).Of text := by
  have standing := of_sized t.newline of.begins (of.here ▸ sized)
  rwa [← of.here] at standing

theorem widened : t.widened.Of text := by
  unfold Token.widened
  split
  · exact of.again (Lexeme.symbolOf_sized (by decide) t.text)
  · exact of

theorem solid_of_is {word : String} (is : t.is word = true) : t.start < t.stop :=
  of.solid (fun unknown => by simp [Token.is, unknown] at is) (more_of_is is)

theorem solid_of_isOneOf {words : List String} (is : t.isOneOf words = true) : t.start < t.stop := by
  obtain ⟨word, -, is⟩ := List.any_eq_true.mp is
  exact of.solid_of_is is

theorem room (solid : t.start < t.stop) : 0 < t.text.length := by
  have fits := of.fits
  rw [of.here, List.length_drop]
  omega

theorem narrowed : t.narrowed.Of text := by
  unfold Token.narrowed
  split
  · rename_i is
    exact of.again (.of_pos (of.room (of.solid_of_isOneOf is)) Nat.one_pos nofun (by rintro text ⟨⟩; rfl))
  · exact of

theorem asRegex? {u : Token} (read : t.asRegex? = some u) : u.Of text ∧ u.start = t.start := by
  obtain ⟨n, found, rfl⟩ := Option.map_eq_some_iff.mp read
  have size := Lexeme.regex?_size found
  exact ⟨of.again (.of_pos size.2 size.1 nofun nofun), rfl⟩

theorem asPiece? {u : Token} (solid : t.start < t.stop) (read : t.asPiece? = some u) :
    u.Of text ∧ u.start = t.start := by
  obtain ⟨p, found, rfl⟩ := Option.map_eq_some_iff.mp read
  have size := Lexeme.pieceFrom_size 0 _ p found
  have room := of.room solid
  rw [List.length_drop] at size
  exact ⟨of.again (.of_pos (by omega) (Nat.succ_pos _) nofun nofun), rfl⟩

theorem asJsxName : t.asJsxName.Of text ∧ t.asJsxName.start = t.start := by
  unfold Token.asJsxName
  split
  · rename_i s escaped is
    have tail := (List.takeWhile_sublist (l := t.rest) fun c => c == '-' || Text.isIdentifierPart c).length_le
    have solid := of.solid (by simp [is]) (by simp [is])
    rw [of.rest, List.length_drop] at tail
    have fits := of.fits
    refine ⟨of.again (.of_pos ?_ (by omega) nofun fun word spelled => ?_), rfl⟩
    · rw [of.here, List.length_drop, of.rest]
      omega
    · cases escaped with
      | true => cases spelled
      | false =>
          cases spelled
          have stop := of.spelled s (by rw [is]; rfl)
          rw [String.length_append, String.length_ofList]
          omega
  · exact ⟨of, rfl⟩

theorem nextInTags : t.nextInTags.Of text ∧ t.stop ≤ t.nextInTags.start := by
  have rest := of.rest
  unfold Token.nextInTags
  split
  · rename_i none
    rw [none] at rest
    rw [rest]
    exact ⟨of_sized false of.fits ⟨Nat.zero_le _, fun _ more => absurd rfl more, fun _ => rest.symm, nofun⟩, Nat.le_refl _⟩
  · rename_i c cs found
    rw [found] at rest
    dsimp only
    split
    · rename_i is_text
      have taken := (List.takeWhile_sublist (l := c :: cs) fun c => c != '\x7b' && c != '<').length_le
      have some_text : 0 < ((c :: cs).takeWhile fun c => c != '\x7b' && c != '<').length := by
        simp [is_text]
      rw [rest] at taken some_text ⊢
      exact ⟨of_sized false of.fits (.of_pos taken some_text nofun nofun), Nat.le_refl _⟩
    · rw [rest]
      refine ⟨of_sized false of.fits (.of_pos ?_ Nat.one_pos nofun ?_), Nat.le_refl _⟩
      · rw [← rest]
        exact Nat.succ_pos _
      · rintro text ⟨⟩
        exact (String.length_singleton).symm

theorem nextInAttribute (html : Bool) :
    (t.nextInAttribute html).Of text ∧ t.stop ≤ (t.nextInAttribute html).start := by
  obtain ⟨next, behind⟩ := of.next html
  unfold Token.nextInAttribute
  dsimp only
  split
  · rename_i c cs is
    split
    · split
      · rename_i closed
        exact ⟨next.again (.of_pos (by rw [is, List.length_cons]; omega) (Nat.succ_pos _) nofun nofun), behind⟩
      · exact ⟨next.again (.unknown _), behind⟩
    · exact ⟨next, behind⟩
  · exact ⟨next, behind⟩

end Of
end Token
end Prerender.Script
