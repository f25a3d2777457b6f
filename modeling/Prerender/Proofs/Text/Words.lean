import Mathlib.Data.List.TakeWhile
import Prerender.Proofs.Text.Search

set_option autoImplicit false

namespace Prerender.Text

variable {cs before behind : List Char}

def blankCodes : List Nat :=
  List.range' 9 5 ++ [0x20, 0x85, 0xA0, 0x1680] ++ List.range' 0x2000 11 ++ [0x2028, 0x2029, 0x202F, 0x205F, 0x3000]

theorem mem_blankCodes {c : Char} (blank : isBlank c = true) : c.toNat ∈ blankCodes := by
  simp only [isBlank, Bool.or_eq_true, Bool.and_eq_true, decide_eq_true_eq, beq_iff_eq] at blank
  simp only [blankCodes, List.mem_append, List.mem_range'_1, List.mem_cons, List.not_mem_nil, or_false]
  omega

theorem dropEndWhile_blank {p : Char → Bool} (all : ∀ c ∈ behind, p c = true) (cs : List Char) :
    dropEndWhile p (cs ++ behind) = dropEndWhile p cs := by
  have none : dropEndWhile p behind = [] := by
    induction behind with
    | nil => rfl
    | cons c behind ih =>
        rw [List.forall_mem_cons] at all
        rw [dropEndWhile_cons, ih all.2, all.1]
        rfl
  rw [dropEndWhile, List.foldr_append]
  exact congrArg (cs.foldr _) none

theorem trim_blank (all : ∀ c ∈ cs, isBlank c = true) : trim cs = [] := by
  have start : trimStart cs = [] := List.dropWhile_eq_nil_iff.mpr all
  rw [trim, start]
  rfl

theorem trim_between (left : ∀ c ∈ before, isBlank c = true) (right : ∀ c ∈ behind, isBlank c = true)
    (trimmed : trim cs = cs) : trim (before ++ cs ++ behind) = cs := by
  cases cs with
  | nil =>
      refine trim_blank fun c here => ?_
      rw [List.append_nil, List.mem_append] at here
      exact here.elim (left c) (right c)
  | cons c cs =>
      obtain ⟨first, last⟩ := trim_eq_self_iff.mp trimmed
      have start : trimStart (before ++ (c :: cs ++ behind)) = c :: cs ++ behind := dropWhile_append left first
      rw [List.append_assoc, trim, start, trimEnd, dropEndWhile_blank right, dropEndWhile_eq last]

-- One more character in front of a word, perhaps an empty one, and those behind it.
def wordStep (c : Char) (found : List Char × List (List Char)) : List Char × List (List Char) :=
  if isBlank c then
    if found.1.isEmpty then found else ([], found.1 :: found.2)
  else (c :: found.1, found.2)

def wordsFound (found : List Char × List (List Char)) : List (List Char) :=
  if found.1.isEmpty then found.2 else found.1 :: found.2

theorem words_eq (cs : List Char) : words cs = wordsFound (cs.foldr wordStep ([], [])) := rfl

theorem wordStep_blank {c : Char} (blank : isBlank c = true) (found : List Char × List (List Char)) :
    wordStep c found = ([], wordsFound found) := by
  obtain ⟨word, others⟩ := found
  cases word <;> simp [wordStep, wordsFound, blank]

theorem foldr_wordStep {word : List Char} (solid : ∀ c ∈ word, isBlank c = false) (others : List (List Char)) :
    word.foldr wordStep ([], others) = (word, others) := by
  induction word with
  | nil => rfl
  | cons c word ih =>
      rw [List.forall_mem_cons] at solid
      rw [List.foldr_cons, ih solid.2, wordStep, solid.1]
      rfl

theorem wordsFound_word {word : List Char} (some : word ≠ []) (others : List (List Char)) :
    wordsFound (word, others) = word :: others := by
  rw [wordsFound, if_neg (by simpa using some)]

theorem words_solid {word : List Char} (some : word ≠ []) (solid : ∀ c ∈ word, isBlank c = false) :
    words word = [word] := by
  rw [words_eq, foldr_wordStep solid, wordsFound_word some]

theorem words_blank {gap : List Char} (blank : ∀ c ∈ gap, isBlank c = true) (rest : List Char) :
    words (gap ++ rest) = words rest := by
  induction gap with
  | nil => rfl
  | cons c gap ih =>
      rw [List.forall_mem_cons] at blank
      rw [← ih blank.2, List.cons_append, words_eq, List.foldr_cons, wordStep_blank blank.1, ← words_eq]
      rfl

theorem words_append {word gap : List Char} (some : word ≠ []) (solid : ∀ c ∈ word, isBlank c = false)
    (space : gap ≠ []) (blank : ∀ c ∈ gap, isBlank c = true) (rest : List Char) :
    words (word ++ (gap ++ rest)) = word :: words rest := by
  obtain ⟨c, gap, rfl⟩ := List.exists_cons_of_ne_nil space
  rw [List.forall_mem_cons] at blank
  rw [words_eq, List.foldr_append, List.cons_append, List.foldr_cons, wordStep_blank blank.1, ← words_eq,
    words_blank blank.2, foldr_wordStep solid, wordsFound_word some]

end Prerender.Text
