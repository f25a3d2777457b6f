import Mathlib.Data.List.Infix
import Prerender.Text.Blank
import Prerender.Text.Search

set_option autoImplicit false

namespace Prerender.Text

-- What is asked of every character of a list is decided along the list, not over all characters there are.
instance (priority := 1100) decidableAlong {p : Char → Prop} [DecidablePred p] (cs : List Char) :
    Decidable (∀ c ∈ cs, p c) :=
  List.decidableBAll p cs

theorem after?_eq_some {pat cs rest : List Char} : after? pat cs = some rest ↔ cs = pat ++ rest :=
  ⟨eq_append_of_after?, fun is => is ▸ after?_append pat rest⟩

theorem startsWith_iff {pat cs : List Char} : startsWith pat cs = true ↔ pat <+: cs := by
  rw [startsWith, Option.isSome_iff_exists]
  exact exists_congr fun rest => after?_eq_some.trans eq_comm

theorem replaceFrom_append (pat new : List Char) (passed cs : List Char) :
    replaceFrom pat new passed.length (passed ++ cs) = replaceFrom pat new 0 cs := by
  induction passed with
  | nil => rfl
  | cons c passed ih => exact ih

-- An occurrence is replaced as a whole; `pat` has its first character apart, since an empty one has none.
theorem replaceAll_append (p : Char) (ps new cs : List Char) :
    replaceAll (p :: ps) new (p :: ps ++ cs) = new ++ replaceAll (p :: ps) new cs := by
  have found : startsWith (p :: ps) (p :: (ps ++ cs)) = true := startsWith_iff.mpr (List.prefix_append (p :: ps) cs)
  rw [replaceAll, List.cons_append, replaceFrom, if_pos found]
  exact congrArg (new ++ ·) (replaceFrom_append (p :: ps) new ps cs)

theorem replaceAll_cons {pat new cs : List Char} {c : Char} (other : ¬ pat <+: c :: cs) :
    replaceAll pat new (c :: cs) = c :: replaceAll pat new cs := by
  rw [replaceAll, replaceFrom, if_neg fun found => other (startsWith_iff.mp found), replaceAll]

theorem replaceAll_char (c : Char) (new cs : List Char) :
    replaceAll [c] new cs = cs.flatMap fun d => if d = c then new else [d] := by
  induction cs with
  | nil => rfl
  | cons d cs ih =>
      rw [List.flatMap_cons, ← ih]
      by_cases same : d = c
      · rw [if_pos same, same]
        exact replaceAll_append c [] new cs
      · rw [if_neg same, replaceAll_cons fun found => same (List.cons_prefix_cons.mp found).1.symm]
        rfl

theorem cutFirst?_char {c : Char} {before : List Char} (rest : List Char) (first : c ∉ before) :
    cutFirst? [c] (before ++ c :: rest) = some (before, rest) := by
  induction before with
  | nil => simp [cutFirst?, after?]
  | cons d before ih =>
      rw [List.mem_cons, not_or] at first
      simp only [List.cons_append, cutFirst?, after?, if_neg first.1, ih first.2, Option.map_some]

theorem cutLast?_eq_none {p : Char} {ps cs : List Char} (missing : p ∉ cs) : cutLast? (p :: ps) cs = none := by
  induction cs with
  | nil => rfl
  | cons c cs ih =>
      rw [List.mem_cons, not_or] at missing
      simp only [cutLast?, ih missing.2, after?, if_neg missing.1, Option.map_none]

theorem cutLast?_append {p : Char} {ps rest : List Char} (before : List Char) (once : p ∉ ps ++ rest) :
    cutLast? (p :: ps) (before ++ (p :: ps ++ rest)) = some (before, rest) := by
  induction before with
  | nil =>
      have here : after? (p :: ps) (p :: (ps ++ rest)) = some rest := after?_append (p :: ps) rest
      simp only [List.nil_append, List.cons_append, cutLast?, cutLast?_eq_none once, here, Option.map_some]
  | cons c before ih => rw [List.cons_append, cutLast?, ih]

theorem contains_iff {pat cs : List Char} : contains pat cs = true ↔ pat <:+: cs := by
  induction cs with
  | nil => cases pat <;> simp [contains, cutFirst?]
  | cons c cs ih =>
      rw [List.infix_cons_iff, ← ih, ← startsWith_iff]
      cases found : after? pat (c :: cs) with
      | some rest => simp [contains, cutFirst?, startsWith, found]
      | none => simp [contains, cutFirst?, startsWith, found]

theorem contains_eq_false {pat cs : List Char} {c : Char} (inside : c ∈ pat) (missing : c ∉ cs) :
    contains pat cs = false := by
  rw [← Bool.not_eq_true, contains_iff]
  exact fun found => missing (found.subset inside)

theorem splitOn_of_none {p : Char → Bool} {cs : List Char} (none : ∀ c ∈ cs, p c = false) :
    splitOn p cs = [cs] := by
  induction cs with
  | nil => rfl
  | cons c cs ih =>
      rw [List.forall_mem_cons] at none
      simp only [splitOn, ih none.2, none.1, Bool.false_eq_true, if_false]

theorem splitOn_append {p : Char → Bool} {c : Char} (cuts : p c = true) (before rest : List Char) :
    splitOn p (before ++ c :: rest) = splitOn p before ++ splitOn p rest := by
  induction before with
  | nil =>
      obtain ⟨piece, pieces, is⟩ := List.exists_cons_of_ne_nil (splitOn_ne_nil p rest)
      simp only [List.nil_append, splitOn, is, cuts, if_true, List.cons_append]
  | cons d before ih =>
      obtain ⟨piece, pieces, is⟩ := List.exists_cons_of_ne_nil (splitOn_ne_nil p before)
      simp only [List.cons_append, splitOn, ih, is]
      split <;> rfl

theorem splitOn_join {p : Char → Bool} {c : Char} (cuts : p c = true) {pieces : List (List Char)} (some : pieces ≠ []) :
    splitOn p (join [c] pieces) = pieces.flatMap (splitOn p) := by
  match pieces with
  | [] => contradiction
  | [piece] => rw [join, List.flatMap_singleton]
  | piece :: next :: pieces =>
      rw [join, List.append_assoc, List.singleton_append, splitOn_append cuts,
        splitOn_join cuts (List.cons_ne_nil next pieces), List.flatMap_cons (x := piece)]

theorem join_cons (sep first : List Char) (pieces : List (List Char)) :
    ∃ behind, join sep (first :: pieces) = first ++ behind := by
  cases pieces with
  | nil => exact ⟨[], (List.append_nil first).symm⟩
  | cons next pieces => exact ⟨_, by rw [join, List.append_assoc]⟩

theorem join_concat (sep last : List Char) (pieces : List (List Char)) :
    ∃ before, join sep (pieces ++ [last]) = before ++ last := by
  match pieces with
  | [] => exact ⟨[], rfl⟩
  | [piece] => exact ⟨piece ++ sep, rfl⟩
  | piece :: next :: pieces =>
      obtain ⟨before, is⟩ := join_concat sep last (next :: pieces)
      rw [List.cons_append] at is
      exact ⟨piece ++ sep ++ before, by rw [List.cons_append, List.cons_append, join, is, List.append_assoc _ before]⟩

theorem mem_of_mem_splitOn {p : Char → Bool} {cs piece : List Char} {c : Char} (one : piece ∈ splitOn p cs)
    (here : c ∈ piece) : c ∈ cs := by
  induction cs generalizing piece with
  | nil => simp_all [splitOn]
  | cons d cs ih =>
      obtain ⟨first, others, is⟩ := List.exists_cons_of_ne_nil (splitOn_ne_nil p cs)
      rw [is] at ih
      simp only [splitOn, is] at one
      split at one
      · rcases List.mem_cons.mp one with rfl | one
        · contradiction
        · exact List.mem_cons_of_mem d (ih one here)
      · rcases List.mem_cons.mp one with rfl | one
        · rcases List.mem_cons.mp here with rfl | here
          · exact List.mem_cons_self
          · exact List.mem_cons_of_mem d (ih List.mem_cons_self here)
        · exact List.mem_cons_of_mem d (ih (List.mem_cons_of_mem first one) here)

theorem join_splitOn {p : Char → Bool} {c : Char} (only : ∀ d, p d = true → d = c) (cs : List Char) :
    join [c] (splitOn p cs) = cs := by
  induction cs with
  | nil => rfl
  | cons d cs ih =>
      obtain ⟨piece, pieces, is⟩ := List.exists_cons_of_ne_nil (splitOn_ne_nil p cs)
      rw [is] at ih
      simp only [splitOn, is]
      split
      · next cuts => rw [join, ih, only d cuts]; rfl
      · cases pieces with
        | nil => exact congrArg (d :: ·) ih
        | cons next pieces =>
            rw [join] at ih ⊢
            rw [← ih]
            rfl

theorem not_of_mem_splitOn {p : Char → Bool} {cs piece : List Char} {c : Char} (one : piece ∈ splitOn p cs)
    (here : c ∈ piece) : p c = false := by
  induction cs generalizing piece with
  | nil => simp_all [splitOn]
  | cons d cs ih =>
      obtain ⟨first, others, is⟩ := List.exists_cons_of_ne_nil (splitOn_ne_nil p cs)
      rw [is] at ih
      simp only [splitOn, is] at one
      split at one
      · rcases List.mem_cons.mp one with rfl | one
        · contradiction
        · exact ih one here
      · next kept =>
        rcases List.mem_cons.mp one with rfl | one
        · rcases List.mem_cons.mp here with rfl | here
          · simpa using kept
          · exact ih List.mem_cons_self here
        · exact ih (List.mem_cons_of_mem first one) here

theorem mem_of_mem_intercalate {sep : List Char} {pieces : List (List Char)} {c : Char} (here : c ∈ sep.intercalate pieces) :
    c ∈ sep ∨ ∃ piece ∈ pieces, c ∈ piece := by
  match pieces with
  | [] => cases here
  | [piece] => exact .inr ⟨piece, List.mem_singleton_self piece, by simpa using here⟩
  | piece :: next :: pieces =>
      rw [List.intercalate_cons_cons, List.mem_append, List.mem_append] at here
      rcases here with (here | here) | here
      · exact .inr ⟨piece, List.mem_cons_self, here⟩
      · exact .inl here
      · refine (mem_of_mem_intercalate here).imp_right fun ⟨other, member, inside⟩ => ?_
        exact ⟨other, List.mem_cons_of_mem piece member, inside⟩

section

variable {p : Char → Bool} {inside rest : List Char}

theorem takeWhile_append (all : ∀ c ∈ inside, p c = true) (stop : ∀ c ∈ rest.head?, p c = false) :
    (inside ++ rest).takeWhile p = inside := by
  rw [List.takeWhile_append_of_pos all]
  cases rest with
  | nil => simp
  | cons c rest => rw [List.takeWhile_cons_of_neg (by simp [stop c rfl]), List.append_nil]

theorem dropWhile_append (all : ∀ c ∈ inside, p c = true) (stop : ∀ c ∈ rest.head?, p c = false) :
    (inside ++ rest).dropWhile p = rest := by
  rw [List.dropWhile_append_of_pos all]
  cases rest with
  | nil => rfl
  | cons c rest => rw [List.dropWhile_cons_of_neg (by simp [stop c rfl])]

end

section

variable {α : Type} {item : List Char → Option (α × List Char)}

theorem findFrom_append (passed cs : List Char) : findFrom item passed.length (passed ++ cs) = findAll item cs := by
  induction passed with
  | nil => rfl
  | cons c passed ih => exact ih

theorem findAll_skip {c : Char} {cs : List Char} (nothing : item (c :: cs) = none) :
    findAll item (c :: cs) = findAll item cs := by
  simp only [findAll, findFrom, nothing]

theorem findAll_found {c : Char} {cs rest : List Char} {a : α} (found : item (c :: cs ++ rest) = some (a, rest)) :
    findAll item (c :: cs ++ rest) = a :: findAll item rest := by
  rw [List.cons_append] at found
  have behind : (cs ++ rest).length - rest.length = cs.length := by simp
  simp only [List.cons_append, findAll, findFrom, found, behind]
  exact congrArg (a :: ·) (findFrom_append cs rest)

theorem mem_findFrom {skip : Nat} {cs : List Char} {a : α} (found : a ∈ findFrom item skip cs) :
    ∃ ds rest, item ds = some (a, rest) := by
  induction cs generalizing skip with
  | nil => simp [findFrom] at found
  | cons c cs ih =>
      cases skip with
      | succ skip => exact ih found
      | zero =>
          cases read : item (c :: cs) with
          | none =>
              simp only [findFrom, read] at found
              exact ih found
          | some result =>
              simp only [findFrom, read, List.mem_cons] at found
              rcases found with rfl | found
              · exact ⟨c :: cs, result.2, read⟩
              · exact ih found

end

theorem dropEndWhile_eq {p : Char → Bool} {cs : List Char} (kept : ∀ c ∈ cs.getLast?, p c = false) :
    dropEndWhile p cs = cs := by
  induction cs with
  | nil => rfl
  | cons c cs ih =>
      cases cs with
      | nil => simp [dropEndWhile_cons, kept c rfl]
      | cons d cs =>
          rw [dropEndWhile_cons, ih fun e last => kept e (by rw [List.getLast?_cons_cons]; exact last)]
          rfl

theorem dropEndWhile_append {p : Char → Bool} {c : Char} (kept : p c = false) (before behind : List Char) :
    dropEndWhile p (before ++ c :: behind) = before ++ c :: dropEndWhile p behind := by
  induction before with
  | nil => simp [dropEndWhile_cons, kept]
  | cons d before ih => simp [dropEndWhile_cons, ih]

theorem mem_of_mem_dropEndWhile {p : Char → Bool} {cs : List Char} {c : Char} (here : c ∈ dropEndWhile p cs) : c ∈ cs := by
  induction cs with
  | nil => exact here
  | cons d cs ih =>
      rw [dropEndWhile_cons] at here
      split at here
      · cases here
      · rcases List.mem_cons.mp here with rfl | here
        · exact List.mem_cons_self
        · exact List.mem_cons_of_mem d (ih here)

theorem dropEndWhile_append_tail (p : Char → Bool) (cs : List Char) :
    ∃ tail, cs = dropEndWhile p cs ++ tail ∧ ∀ c ∈ tail, p c = true := by
  induction cs with
  | nil => exact ⟨[], rfl, nofun⟩
  | cons c cs ih =>
      obtain ⟨tail, is, dropped⟩ := ih
      rw [dropEndWhile_cons]
      split
      next last =>
        rw [Bool.and_eq_true, List.isEmpty_iff] at last
        rw [last.1, List.nil_append] at is
        exact ⟨c :: cs, rfl, List.forall_mem_cons.mpr ⟨last.2, is ▸ dropped⟩⟩
      next => exact ⟨tail, congrArg (c :: ·) is, dropped⟩

theorem getLast?_dropEndWhile (p : Char → Bool) (cs : List Char) : ∀ c ∈ (dropEndWhile p cs).getLast?, p c = false := by
  induction cs with
  | nil => nofun
  | cons c cs ih =>
      intro d last
      rw [dropEndWhile_cons] at last
      split at last
      next => cases last
      next kept =>
        cases rest : dropEndWhile p cs with
        | nil =>
            rw [rest] at last kept
            obtain rfl : c = d := Option.some.inj last
            simpa using kept
        | cons e es =>
            rw [rest, List.getLast?_cons_cons, ← rest] at last
            exact ih d last

theorem trim_eq_self_iff {cs : List Char} :
    trim cs = cs ↔ (∀ c ∈ cs.head?, isBlank c = false) ∧ ∀ c ∈ cs.getLast?, isBlank c = false := by
  constructor
  · intro trimmed
    obtain ⟨tail, is, -⟩ := dropEndWhile_append_tail isBlank (trimStart cs)
    have start : trimStart cs = cs := by
      refine (List.dropWhile_suffix isBlank).eq_of_length_le ?_
      have longer : (trimStart cs).length = (trim cs).length + tail.length := by
        rw [is, List.length_append]
        rfl
      rw [trimmed] at longer
      exact Nat.le_of_add_right_le (Nat.le_of_eq longer.symm)
    refine ⟨fun c first => ?_, fun c last => ?_⟩
    · have headed := List.head?_dropWhile_not isBlank cs
      rw [show cs.dropWhile isBlank = cs from start, show cs.head? = some c from first] at headed
      simpa using headed
    · rw [← trimmed] at last
      exact getLast?_dropEndWhile isBlank _ c last
  · rintro ⟨first, last⟩
    rw [trim, trimStart, ← List.nil_append cs, dropWhile_append (List.forall_mem_nil _) first]
    exact dropEndWhile_eq last

theorem trim_solid {cs : List Char} (solid : ∀ c ∈ cs, isBlank c = false) : trim cs = cs :=
  trim_eq_self_iff.mpr
    ⟨fun c first => solid c (List.mem_of_mem_head? first), fun c last => solid c (List.mem_of_mem_getLast? last)⟩

theorem trim_append {before cs : List Char} (blank : ∀ c ∈ before, isBlank c = true) (trimmed : trim cs = cs) :
    trim (before ++ cs) = cs := by
  rw [trim, trimStart, List.dropWhile_append_of_pos blank]
  exact trimmed

theorem contains_dropEndWhile {p : Char → Bool} {before : List Char} {c : Char} (kept : p c = false) (cs : List Char) :
    contains (before ++ [c]) (dropEndWhile p cs) = contains (before ++ [c]) cs := by
  rw [Bool.eq_iff_iff, contains_iff, contains_iff]
  refine ⟨fun found => ?_, fun ⟨u, v, is⟩ => ?_⟩
  · obtain ⟨tail, is, -⟩ := dropEndWhile_append_tail p cs
    rw [is]
    exact found.trans (List.prefix_append _ tail).isInfix
  · have split : cs = (u ++ before) ++ c :: v := by rw [← is]; simp
    rw [split, dropEndWhile_append kept]
    exact ⟨u, dropEndWhile p v, by simp⟩

theorem lastIndex?_eq_none {α : Type} {p : α → Bool} {xs : List α} (missing : ∀ x ∈ xs, p x = false) :
    lastIndex? p xs = none := by
  induction xs with
  | nil => rfl
  | cons x xs ih =>
      rw [List.forall_mem_cons] at missing
      simp only [lastIndex?, ih missing.2, missing.1, Bool.false_eq_true, if_false]

theorem lastIndex?_append {α : Type} {p : α → Bool} {x : α} {behind : List α} (before : List α) (here : p x = true)
    (last : ∀ y ∈ behind, p y = false) : lastIndex? p (before ++ x :: behind) = some before.length := by
  induction before with
  | nil => simp only [List.nil_append, lastIndex?, lastIndex?_eq_none last, here, if_true, List.length_nil]
  | cons y before ih => simp only [List.cons_append, lastIndex?, ih, List.length_cons]

end Prerender.Text
