import Mathlib.Algebra.Order.BigOperators.Group.List
import Mathlib.Algebra.Order.Group.Nat
import Mathlib.Data.List.Flatten
import Prerender.Element.Source
import Prerender.Proofs.Element.Outline
import Prerender.Script.Token
import Prerender.Text.Digits
import Prerender.Text.Identifier

set_option autoImplicit false

/-!
JSX read and lowered. What stands between quotes and between tags is read as it is written; only then are
character references decoded and lines put together. How an expression in braces is read, and which names
characters have, is left open.
-/
namespace Prerender.Jsx

open Element (Tag AttrValue Attr Child)
open Markup (Outline closeTag)
open Markup.Outline (prepend prepend_empty prepend_prepend)

-- Of elements and of attributes; where a `:` or a `.` may stand in them is left open.
def isNamePart (c : Char) : Bool := Text.isIdentifierPart c || c == '-' || c == ':' || c == '.'

def isName (name : String) : Bool :=
  match name.toList with
  | [] => false
  | c :: cs => Text.isIdentifierStart c && cs.all isNamePart

def tagOf (name : String) : Tag :=
  let cs := name.toList
  if !cs.contains '.' && (cs.head?.any Char.isLower || cs.contains '-' || cs.contains ':') then .intrinsic name
  else .component name

theorem isNamePart_of_start {c : Char} (start : Text.isIdentifierStart c = true) : isNamePart c = true := by
  rw [Text.isIdentifierStart] at start
  have part : Text.isIdentifierPart c = true := by
    rw [Text.isIdentifierPart]
    split at start
    next ascii =>
      rw [if_pos ascii, Char.isAlphanum]
      simp only [Bool.or_eq_true] at start ⊢
      tauto
    next wide => simp [wide, start]
  simp [isNamePart, part]

theorem isNamePart_space {c : Char} (part : isNamePart c = true) : c.isWhitespace = false := by
  by_contra space
  simp only [Bool.not_eq_false, Char.isWhitespace, Bool.or_eq_true, decide_eq_true_eq] at space
  have none_of : ∀ c ∈ [' ', '\t', '\r', '\n'], isNamePart c = false := by decide
  rw [none_of c (by simpa [or_assoc] using space)] at part
  cases part

theorem isName_cons {name : String} (is : isName name = true) :
    ∃ c cs, name.toList = c :: cs ∧ ∀ d ∈ name.toList, isNamePart d = true := by
  rw [isName] at is
  split at is
  next => cases is
  next c cs chars =>
    obtain ⟨start, parts⟩ := Bool.and_eq_true_iff.mp is
    refine ⟨c, cs, chars, ?_⟩
    rw [chars]
    exact List.forall_mem_cons.mpr ⟨isNamePart_of_start start, List.all_eq_true.mp parts⟩

abbrev Tree := Outline (Tag × List Attr) String

def isTextChar (c : Char) : Bool := c != '\x7b' && c != '\x7d' && c != '<' && c != '>'

section
-- An expression up to the brace behind it, and what follows that brace.
variable (expression? : List Char → Option (String × List Char))

def value? : List Char → Option (AttrValue × List Char)
  | '"' :: rest => (Text.cutFirst? ['"'] rest).map fun (raw, rest) => (.text (String.ofList raw), rest)
  | '\x7b' :: rest => (expression? rest).map fun (source, rest) => (.expression source, rest)
  | _ => none

def spreadMark : List Char := ['\x7b', '.', '.', '.']

def attribute? (cs : List Char) : Option (Attr × List Char) :=
  match Text.after? spreadMark cs with
  | some rest => (expression? rest).map fun (source, rest) => (.spread source, rest)
  | none => do
      let rest ← Text.after? ['='] (cs.dropWhile isNamePart)
      let (value, rest) ← value? expression? rest
      some (.named (String.ofList (cs.takeWhile isNamePart)) value, rest)

def attributes? : Nat → List Char → Option (List Attr × List Char)
  | 0, _ => none
  | steps + 1, cs =>
      let cs := cs.dropWhile Char.isWhitespace
      if Text.startsWith ['>'] cs || Text.startsWith ['/'] cs then some ([], cs)
      else do
        let (a, rest) ← attribute? expression? cs
        let (others, rest) ← attributes? steps rest
        some (a :: others, rest)

mutual
def element? : Nat → List Char → Option (Tree × List Char)
  | 0, _ => none
  | steps + 1, cs => do
      let cs ← Text.after? ['<'] cs
      let name := String.ofList (cs.takeWhile isNamePart)
      let (attrs, rest) ← attributes? expression? steps (cs.dropWhile isNamePart)
      match Text.after? ['/', '>'] rest with
      | some rest => some (.element (tagOf name, attrs) [], rest)
      | none =>
          let rest ← Text.after? ['>'] rest
          let (content, rest) ← content? steps rest
          let rest ← Text.after? (closeTag name) rest
          some (.element (tagOf name, attrs) content, rest)
def content? : Nat → List Char → Option (List Tree × List Char)
  | 0, _ => none
  | steps + 1, cs =>
      let text := String.ofList (cs.takeWhile isTextChar)
      let rest := cs.dropWhile isTextChar
      if Markup.Html.closes rest then some (prepend text [], rest)
      else do
        let (first, rest) ←
          match Text.after? ['\x7b'] rest with
          | some rest => (expression? rest).map fun (source, rest) => (Outline.leaf source, rest)
          | none => element? steps rest
        let (others, rest) ← content? steps rest
        some (prepend text (first :: others), rest)
end

def read? (jsx : String) : Option Tree :=
  match element? expression? jsx.length jsx.toList with
  | some (element, []) => some element
  | _ => none

end

section
-- The character that has a name.
variable (named : List Char → Option Char)

def numbered? (radix : Nat) (digits : List Char) : Option Char :=
  if !digits.isEmpty && digits.all (Text.isDigitOf radix) && (Text.ofDigits radix digits).isValidChar then
    some (Char.ofNat (Text.ofDigits radix digits))
  else none

def referent? : List Char → Option Char
  | '#' :: 'x' :: digits => numbered? 16 digits
  | '#' :: digits => numbered? 10 digits
  | name => named name

def reference? (cs : List Char) : Option (Char × Nat) :=
  let name := cs.takeWhile (· != ';')
  if name.length < cs.length then (referent? named name).map (·, name.length + 1) else none

-- `skip` characters of a reference already read are still to be passed over.
def decodeFrom : Nat → List Char → List Char
  | _, [] => []
  | skip + 1, _ :: cs => decodeFrom skip cs
  | 0, c :: cs =>
      match if c = '&' then reference? named cs else none with
      | some (d, length) => d :: decodeFrom length cs
      | none => c :: decodeFrom 0 cs

def decode (s : String) : String := String.ofList (decodeFrom named 0 s.toList)

def trimLines : List (List Char) → List (List Char)
  | [] => []
  | [last] => [last.dropWhile Script.isBlank]
  | line :: next :: lines => Text.dropEndWhile Script.isBlank (line.dropWhile Script.isBlank) :: trimLines (next :: lines)

-- What a bare text stands for, if anything: its lines, without those that are empty, with a blank between them.
def bare? (raw : String) : Option String :=
  match Text.splitOn Script.isLineEnd raw.toList with
  | first :: next :: lines =>
      let pieces := (Text.dropEndWhile Script.isBlank first :: trimLines (next :: lines)).filter fun line => !line.isEmpty
      if pieces.isEmpty then none else some (String.ofList ([' '].intercalate (pieces.map (decodeFrom named 0))))
  | _ => some (decode named raw)

def lowerAttr : Attr → Attr
  | .named name (.text raw) => .named name (.text (decode named raw))
  | a => a

mutual
def lower : Tree → Option Child
  | .element (tag, attrs) content => some (.element tag (attrs.map (lowerAttr named)) (lowerAll content))
  | .text raw => (bare? named raw).map .text
  | .leaf source => some (.expression source)
def lowerAll : List Tree → List Child
  | [] => []
  | x :: xs => (lower x).toList ++ lowerAll xs
end

end

def lowered? (named : List Char → Option Char) (expression? : List Char → Option (String × List Char)) (jsx : String) :
    Option Child := (read? expression? jsx).bind (lower named)

variable {expression? : List Char → Option (String × List Char)} {steps : Nat} {cs rest : List Char}

def Reads (expression? : List Char → Option (String × List Char)) (source : String) : Prop :=
  ∀ rest, expression? (source.toList ++ '\x7d' :: rest) = some (source, rest)

theorem value?_quoted {raw : String} (closed : '"' ∉ raw.toList) (rest : List Char) :
    value? expression? ('"' :: (raw.toList ++ '"' :: rest)) = some (.text raw, rest) := by
  simp only [value?, Text.cutFirst?_char rest closed, Option.map_some, String.ofList_toList]

theorem value?_braces {source : String} (reads : Reads expression? source) (rest : List Char) :
    value? expression? ('\x7b' :: (source.toList ++ '\x7d' :: rest)) = some (.expression source, rest) := by
  rw [value?, reads rest, Option.map_some]

theorem attribute?_spread {source : String} (reads : Reads expression? source) (rest : List Char) :
    attribute? expression? (spreadMark ++ (source.toList ++ '\x7d' :: rest)) = some (.spread source, rest) := by
  rw [attribute?, Text.after?_append]
  simp only [reads rest, Option.map_some]

theorem attribute?_named {name : String} (is : isName name = true) {value : AttrValue}
    (read : value? expression? cs = some (value, rest)) :
    attribute? expression? (name.toList ++ '=' :: cs) = some (.named name value, rest) := by
  obtain ⟨c, tail, chars, parts⟩ := isName_cons is
  have stop : ∀ d ∈ ('=' :: cs).head?, isNamePart d = false := fun d here => by
    obtain rfl := Option.some.inj here
    decide
  have first : '\x7b' ≠ c := fun same => by
    have part := parts c (chars ▸ List.mem_cons_self)
    rw [← same] at part
    exact absurd part (by decide)
  have unspread : Text.after? spreadMark (name.toList ++ '=' :: cs) = none := by
    rw [chars, List.cons_append, spreadMark, Text.after?, if_neg first]
  rw [attribute?, unspread]
  simp only [Text.takeWhile_append parts stop, Text.dropWhile_append parts stop, String.ofList_toList]
  rw [show Text.after? ['='] ('=' :: cs) = some cs from Text.after?_append ['='] cs]
  simp only [Option.bind_eq_bind, Option.bind_some, read]

theorem attributes?_cons {c : Char} (starts : isNamePart c = true ∨ c = '\x7b') {a : Attr} {others : List Attr}
    {last : List Char} (one : attribute? expression? (c :: cs) = some (a, rest))
    (more : attributes? expression? steps rest = some (others, last)) :
    attributes? expression? (steps + 1) (' ' :: c :: cs) = some (a :: others, last) := by
  have solid : c.isWhitespace = false := by
    rcases starts with part | rfl
    · exact isNamePart_space part
    · decide
  have going : (Text.startsWith ['>'] (c :: cs) || Text.startsWith ['/'] (c :: cs)) = false := by
    have other (d : Char) (none_of : isNamePart d = false) (brace : d ≠ '\x7b') : d ≠ c := by
      rintro rfl
      exact starts.elim (fun part => by simp [none_of] at part) brace
    simp [Text.startsWith, Text.after?, other '>' (by decide) (by decide), other '/' (by decide) (by decide)]
  have trimmed : (' ' :: c :: cs).dropWhile Char.isWhitespace = c :: cs := by
    rw [List.dropWhile_cons_of_pos (by decide), List.dropWhile_cons_of_neg (by simp [solid])]
  simp only [attributes?, trimmed, going, Bool.false_eq_true, if_false, one, more, Option.bind_eq_bind, Option.bind_some]

section
variable {name : String} {attrs : List Attr} {behind : List Char} (is : isName name = true)
  (stop : ∀ c ∈ behind.head?, isNamePart c = false)

include is stop

theorem element?_alone (read : attributes? expression? steps behind = some (attrs, '/' :: '>' :: rest)) :
    element? expression? (steps + 1) ('<' :: (name.toList ++ behind)) = some (.element (tagOf name, attrs) [], rest) := by
  obtain ⟨-, -, -, parts⟩ := isName_cons is
  have opens : Text.after? ['<'] ('<' :: (name.toList ++ behind)) = some (name.toList ++ behind) := Text.after?_append ['<'] _
  have closes : Text.after? ['/', '>'] ('/' :: '>' :: rest) = some rest := Text.after?_append ['/', '>'] rest
  simp only [element?, opens, Option.bind_eq_bind, Option.bind_some, Text.takeWhile_append parts stop,
    Text.dropWhile_append parts stop, String.ofList_toList, read, closes]

theorem element?_around (read : attributes? expression? steps behind = some (attrs, '>' :: cs)) {content : List Tree}
    (inner : content? expression? steps cs = some (content, closeTag name ++ rest)) :
    element? expression? (steps + 1) ('<' :: (name.toList ++ behind)) =
      some (.element (tagOf name, attrs) content, rest) := by
  obtain ⟨-, -, -, parts⟩ := isName_cons is
  have opens : Text.after? ['<'] ('<' :: (name.toList ++ behind)) = some (name.toList ++ behind) := Text.after?_append ['<'] _
  have stays : Text.after? ['/', '>'] ('>' :: cs) = none := rfl
  have goes : Text.after? ['>'] ('>' :: cs) = some cs := Text.after?_append ['>'] cs
  simp only [element?, opens, Option.bind_eq_bind, Option.bind_some, Text.takeWhile_append parts stop,
    Text.dropWhile_append parts stop, String.ofList_toList, read, stays, goes, inner, Text.after?_append]

end

theorem content?_text {s : String} (all : ∀ c ∈ s.toList, isTextChar c = true) :
    content? expression? steps (s.toList ++ cs) =
      (content? expression? steps cs).map fun (content, rest) => (prepend s content, rest) := by
  cases steps with
  | zero => rfl
  | succ steps =>
      simp only [content?, List.takeWhile_append_of_pos all, List.dropWhile_append_of_pos all, String.ofList_append,
        String.ofList_toList]
      split
      · rw [Option.map_some, prepend_prepend]
      · cases Text.after? ['\x7b'] (cs.dropWhile isTextChar) <;>
          simp only [Option.bind_eq_bind, Option.map_bind, Function.comp_def, Option.map_some, prepend_prepend]

theorem content?_end (rest : List Char) :
    content? expression? (steps + 1) ('<' :: '/' :: rest) = some ([], '<' :: '/' :: rest) := rfl

theorem content?_leaf {source : String} (reads : Reads expression? source) {others : List Tree} {last : List Char}
    (more : content? expression? steps rest = some (others, last)) :
    content? expression? (steps + 1) ('\x7b' :: (source.toList ++ '\x7d' :: rest)) = some (.leaf source :: others, last) := by
  have start (cs : List Char) : ('\x7b' :: cs).takeWhile isTextChar = [] ∧ ('\x7b' :: cs).dropWhile isTextChar = '\x7b' :: cs ∧
      Markup.Html.closes ('\x7b' :: cs) = false ∧ Text.after? ['\x7b'] ('\x7b' :: cs) = some cs :=
    ⟨rfl, rfl, rfl, Text.after?_append ['\x7b'] cs⟩
  obtain ⟨took, left, going, opens⟩ := start (source.toList ++ '\x7d' :: rest)
  simp only [content?, took, left, going, opens, Bool.false_eq_true, if_false, reads rest, Option.map_some,
    Option.bind_eq_bind, Option.bind_some, more]
  exact congrArg (fun content => some (content, last)) (prepend_empty _)

-- An element opens with a name behind its `<`, so that it is not taken for a closing tag.
theorem content?_element {name : String} (is : isName name = true) {last : List Char} {first : Tree} {others : List Tree}
    (opens : ∃ behind, cs = '<' :: (name.toList ++ behind)) (one : element? expression? steps cs = some (first, rest))
    (more : content? expression? steps rest = some (others, last)) :
    content? expression? (steps + 1) cs = some (first :: others, last) := by
  obtain ⟨behind, text⟩ := opens
  obtain ⟨c, tail, chars, parts⟩ := isName_cons is
  have other : '/' ≠ c := fun same => by
    have part := parts c (chars ▸ List.mem_cons_self)
    rw [← same] at part
    exact absurd part (by decide)
  have start : cs.takeWhile isTextChar = [] ∧ cs.dropWhile isTextChar = cs ∧ Text.after? ['\x7b'] cs = none := by
    rw [text]
    exact ⟨rfl, rfl, rfl⟩
  have going : Markup.Html.closes cs = false := by
    rw [text, chars]
    simp [Markup.Html.closes, Text.startsWith, Text.after?, other]
  obtain ⟨took, left, unbraced⟩ := start
  simp only [content?, took, left, going, unbraced, Bool.false_eq_true, if_false, one, more, Option.bind_eq_bind,
    Option.bind_some]
  exact congrArg (fun content => some (content, last)) (prepend_empty _)

section
variable (named : List Char → Option Char)

def Unmarked : List Char → Prop
  | [] => True
  | c :: cs => (c = '&' → reference? named cs = none) ∧ Unmarked cs

end

section
variable {named : List Char → Option Char}

instance decidableUnmarked : (cs : List Char) → Decidable (Unmarked named cs)
  | [] => inferInstanceAs (Decidable True)
  | c :: cs =>
      have := decidableUnmarked cs
      inferInstanceAs (Decidable ((c = '&' → reference? named cs = none) ∧ Unmarked named cs))

theorem length_decodeFrom (named : List Char → Option Char) (skip : Nat) (cs : List Char) : (decodeFrom named skip cs).length ≤ cs.length - skip := by
  induction cs generalizing skip with
  | nil => simp [decodeFrom]
  | cons c cs ih =>
      cases skip with
      | succ skip =>
          rw [decodeFrom, List.length_cons, Nat.add_sub_add_right]
          exact ih skip
      | zero =>
          rw [decodeFrom]
          split
          next d length _ =>
            have behind := ih length
            rw [List.length_cons, List.length_cons]
            omega
          next =>
            have behind := ih 0
            rw [List.length_cons, List.length_cons]
            omega

theorem decodeFrom_cases (named : List Char → Option Char) (cs : List Char) :
    (Unmarked named cs ∧ decodeFrom named 0 cs = cs) ∨
      (¬ Unmarked named cs ∧ (decodeFrom named 0 cs).length < cs.length) := by
  induction cs with
  | nil => exact .inl ⟨trivial, rfl⟩
  | cons c cs ih =>
      rw [decodeFrom]
      split
      next d length found =>
        split at found
        next mark =>
          right
          refine ⟨fun unmarked => by simp [unmarked.1 mark] at found, ?_⟩
          have behind := length_decodeFrom named length cs
          have some_length : 0 < length ∧ 0 < cs.length := by
            rw [reference?] at found
            split at found
            next inside =>
              obtain ⟨e, -, same⟩ := Option.map_eq_some_iff.mp found
              obtain ⟨-, rfl⟩ := Prod.mk.inj same
              omega
            next => cases found
          rw [List.length_cons, List.length_cons]
          omega
        next => cases found
      next found =>
        have here : c = '&' → reference? named cs = none := fun mark => by rwa [if_pos mark] at found
        rcases ih with ⟨unmarked, same⟩ | ⟨marked, shorter⟩
        · exact .inl ⟨⟨here, unmarked⟩, by rw [same]⟩
        · exact .inr ⟨fun unmarked => marked unmarked.2, by simpa using shorter⟩

theorem decode_eq_self_iff {s : String} : decode named s = s ↔ Unmarked named s.toList := by
  rcases decodeFrom_cases named s.toList with ⟨unmarked, same⟩ | ⟨marked, shorter⟩
  · exact iff_of_true (by rw [decode, same, String.ofList_toList]) unmarked
  · refine iff_of_false (fun same => ?_) marked
    have length := congrArg (fun s => s.toList.length) same
    rw [decode] at length
    simp only [String.toList_ofList] at length
    omega

def room (lines : List (List Char)) : Nat := (lines.flatMap fun line => line ++ ['\n']).length

theorem room_cons (line : List Char) (lines : List (List Char)) :
    room (line :: lines) = line.length + 1 + room lines := by
  simp only [room, List.flatMap_cons, List.length_append, List.length_singleton]

theorem room_splitOn (p : Char → Bool) (cs : List Char) : room (Text.splitOn p cs) = cs.length + 1 := by
  induction cs with
  | nil => rfl
  | cons c cs ih =>
      obtain ⟨piece, pieces, is⟩ := List.exists_cons_of_ne_nil (Text.splitOn_ne_nil p cs)
      rw [is] at ih
      simp only [Text.splitOn, is, room_cons] at ih ⊢
      split
      · simp only [room_cons, List.length_cons, List.length_nil]
        omega
      · simp only [room_cons, List.length_cons]
        omega

theorem length_intercalate {pieces : List (List Char)} (some_piece : pieces ≠ []) :
    ([' '].intercalate pieces).length + 1 = room pieces := by
  match pieces with
  | [piece] => simp [room]
  | piece :: next :: pieces =>
      have more := length_intercalate (List.cons_ne_nil next pieces)
      rw [List.intercalate_cons_cons, room_cons, ← more]
      simp only [List.length_append, List.length_singleton]
      omega

theorem dropEndWhile_sublist (p : Char → Bool) (cs : List Char) : (Text.dropEndWhile p cs).Sublist cs := by
  obtain ⟨tail, is, -⟩ := Text.dropEndWhile_append_tail p cs
  conv_rhs => rw [is]
  exact List.sublist_append_left _ _

theorem trimLines_sublist (lines : List (List Char)) : List.Forall₂ List.Sublist (trimLines lines) lines := by
  match lines with
  | [] => exact .nil
  | [last] => exact .cons (List.dropWhile_sublist Script.isBlank) .nil
  | line :: next :: lines =>
      have trimmed := (dropEndWhile_sublist Script.isBlank _).trans (List.dropWhile_sublist (l := line) Script.isBlank)
      exact .cons trimmed (trimLines_sublist (next :: lines))

theorem room_le {pieces lines : List (List Char)} (each : List.Forall₂ List.Sublist pieces lines) :
    room pieces ≤ room lines := by
  induction each with
  | nil => exact Nat.le_refl _
  | cons shorter _ ih =>
      have length := shorter.length_le
      simp only [room_cons]
      omega

theorem exists_line {pieces lines : List (List Char)} (each : List.Forall₂ List.Sublist pieces lines) :
    ∀ piece ∈ pieces, ∃ line ∈ lines, piece.Sublist line := by
  induction each with
  | nil => nofun
  | cons shorter _ ih =>
      refine List.forall_mem_cons.mpr ⟨⟨_, List.mem_cons_self, shorter⟩, fun piece here => ?_⟩
      obtain ⟨line, member, inside⟩ := ih piece here
      exact ⟨line, List.mem_cons_of_mem _ member, inside⟩

theorem splitOn_two {p : Char → Bool} {cs : List Char} {c : Char} (here : c ∈ cs) (cuts : p c = true) :
    ∃ first next lines, Text.splitOn p cs = first :: next :: lines := by
  obtain ⟨before, rest, rfl⟩ := List.append_of_mem here
  obtain ⟨first, firsts, is⟩ := List.exists_cons_of_ne_nil (Text.splitOn_ne_nil p before)
  obtain ⟨second, seconds, same⟩ := List.exists_cons_of_ne_nil (Text.splitOn_ne_nil p rest)
  rw [Text.splitOn_append cuts, is, same, List.cons_append]
  cases firsts with
  | nil => exact ⟨first, second, seconds, rfl⟩
  | cons next firsts => exact ⟨first, next, _, rfl⟩

-- Lines put together have no line end, unless a reference stood for it; then they are shorter than they were.
theorem bare?_eq_self_iff {s : String} :
    bare? named s = some s ↔ Unmarked named s.toList ∧ ∀ c ∈ s.toList, Script.isLineEnd c = false := by
  by_cases single : ∀ c ∈ s.toList, Script.isLineEnd c = false
  · rw [bare?, Text.splitOn_of_none single]
    simp only [Option.some.injEq, decode_eq_self_iff, and_iff_left single]
  refine iff_of_false (fun same => ?_) fun both => single both.2
  obtain ⟨c, here, ends⟩ : ∃ c ∈ s.toList, Script.isLineEnd c = true := by simpa using single
  obtain ⟨first, next, lines, is⟩ := splitOn_two here ends
  rw [bare?, is] at same
  dsimp only at same
  have each : List.Forall₂ List.Sublist (Text.dropEndWhile Script.isBlank first :: trimLines (next :: lines))
      (first :: next :: lines) := .cons (dropEndWhile_sublist _ _) (trimLines_sublist _)
  generalize Text.dropEndWhile Script.isBlank first :: trimLines (next :: lines) = trimmed at same each
  have kept : (trimmed.filter fun line => !line.isEmpty).Sublist trimmed := List.filter_sublist
  generalize (trimmed.filter fun line => !line.isEmpty) = pieces at same kept
  split at same
  next => cases same
  next occupied =>
    have text : [' '].intercalate (pieces.map (decodeFrom named 0)) = s.toList := by
      rw [← Option.some.inj same, String.toList_ofList]
    have unbroken : ∀ piece ∈ pieces, ∀ e ∈ piece, Script.isLineEnd e = false := fun piece member e inside => by
      obtain ⟨line, one, sub⟩ := exists_line each piece (kept.subset member)
      exact Text.not_of_mem_splitOn (is ▸ one) (sub.subset inside)
    rw [← text] at here
    rcases Text.mem_of_mem_intercalate here with blank | ⟨decoded, among, inside⟩
    · rw [List.mem_singleton.mp blank] at ends
      exact absurd ends (by decide)
    obtain ⟨piece, member, rfl⟩ := List.mem_map.mp among
    have no_longer (cs : List Char) : (decodeFrom named 0 cs).length + 1 ≤ cs.length + 1 :=
      Nat.succ_le_succ (length_decodeFrom named 0 cs)
    have shorter : (decodeFrom named 0 piece).length + 1 < piece.length + 1 := by
      rcases decodeFrom_cases named piece with ⟨-, same⟩ | ⟨-, shorter⟩
      · rw [same] at inside
        simp [unbroken piece member c inside] at ends
      · exact Nat.succ_lt_succ shorter
    have less : room (pieces.map (decodeFrom named 0)) < room pieces := by
      simp only [room, List.length_flatMap, List.map_map, List.length_append, List.length_singleton]
      exact List.sum_lt_sum _ _ (fun cs _ => no_longer cs) ⟨piece, member, shorter⟩
    have fits : room pieces ≤ room trimmed := (kept.flatMap _).length_le
    have whole : room (first :: next :: lines) = s.toList.length + 1 := by rw [← is, room_splitOn]
    have long := length_intercalate (List.ne_nil_of_mem among)
    have short := room_le each
    rw [text] at long
    omega

end

end Prerender.Jsx
