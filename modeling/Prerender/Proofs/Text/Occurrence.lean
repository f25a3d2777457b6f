import Prerender.Proofs.Text.Search

set_option autoImplicit false

/-!
Where a pattern occurs in a text. A pattern whose first character does not come back in it cannot overlap
itself, so that its occurrences stand one after another; and one without line feeds occurs in a text of
several lines only where it occurs in one of them.
-/
namespace Prerender.Text

variable {p : Char} {ps : List Char}

theorem occurrence_cases (once : p ∉ ps) {a b x y : List Char} (same : a ++ (p :: ps ++ b) = x ++ (p :: ps ++ y)) :
    a = x ∨ (∃ m, x = a ++ (p :: ps ++ m)) ∨ ∃ m, a = x ++ (p :: ps ++ m) := by
  have apart {a b x y t : List Char} (later : x = a ++ t) (rest : p :: ps ++ b = t ++ (p :: ps ++ y)) :
      a = x ∨ ∃ m, x = a ++ (p :: ps ++ m) := by
    cases t with
    | nil => exact .inl (by rw [later, List.append_nil])
    | cons c t =>
        rw [List.cons_append, List.cons_append] at rest
        obtain ⟨rfl, tail⟩ := List.cons.inj rest
        rcases List.append_eq_append_iff.mp tail with ⟨u, rfl, -⟩ | ⟨u, inside, split⟩
        · exact .inr ⟨u, later⟩
        · cases u with
          | nil =>
              rw [List.append_nil] at inside
              exact .inr ⟨[], by rw [later, inside, List.append_nil]⟩
          | cons d u => exact absurd (by rw [inside, ← (List.cons.inj split).1]; simp) once
  rcases List.append_eq_append_iff.mp same with ⟨t, later, rest⟩ | ⟨t, later, rest⟩
  · exact (apart later rest).imp_right .inl
  · exact (apart later rest).imp Eq.symm .inr

-- An occurrence behind the first character of another begins behind all of it.
theorem infix_of_infix_tail (once : p ∉ ps) {rest : List Char} (found : p :: ps <:+: ps ++ rest) : p :: ps <:+: rest := by
  obtain ⟨u, v, is⟩ := found
  rw [List.append_assoc] at is
  rcases List.append_eq_append_iff.mp is with ⟨t, inside, split⟩ | ⟨t, rfl, split⟩
  · cases t with
    | nil => exact ⟨[], v, split⟩
    | cons d t => exact absurd (by rw [inside, ← (List.cons.inj split).1]; simp) once
  · exact ⟨t, v, by rw [List.append_assoc]; exact split.symm⟩

theorem eq_append_of_cutFirst? {pat cs before rest : List Char} (cut : cutFirst? pat cs = some (before, rest)) :
    cs = before ++ (pat ++ rest) := by
  induction cs generalizing before with
  | nil =>
      rw [cutFirst?] at cut
      split at cut
      next empty =>
        cases cut
        rw [List.isEmpty_iff.mp empty]
        rfl
      next => cases cut
  | cons c cs ih =>
      rw [cutFirst?] at cut
      split at cut
      next here =>
        obtain ⟨rfl, rfl⟩ := Prod.mk.inj (Option.some.inj cut)
        rw [List.nil_append, eq_append_of_after? here]
      next =>
        obtain ⟨⟨passed, behind⟩, further, same⟩ := Option.map_eq_some_iff.mp cut
        cases same
        rw [ih further, List.cons_append]

theorem not_infix_of_cutFirst? {pat cs before rest : List Char} (occupied : pat ≠ [])
    (cut : cutFirst? pat cs = some (before, rest)) : ¬ pat <:+: before := by
  induction cs generalizing before with
  | nil =>
      rw [cutFirst?, if_neg (by simpa using occupied)] at cut
      cases cut
  | cons c cs ih =>
      rw [cutFirst?] at cut
      split at cut
      next =>
        obtain ⟨rfl, -⟩ := Prod.mk.inj (Option.some.inj cut)
        simpa using occupied
      next other =>
        obtain ⟨⟨passed, behind⟩, further, same⟩ := Option.map_eq_some_iff.mp cut
        cases same
        rw [List.infix_cons_iff, not_or]
        refine ⟨?_, ih further⟩
        rintro ⟨more, is⟩
        have whole : c :: cs = pat ++ (more ++ (pat ++ rest)) := by
          rw [eq_append_of_cutFirst? further, ← List.cons_append, ← is, List.append_assoc]
        rw [whole, after?_append] at other
        cases other

theorem cutFirst?_eq_none {c : Char} {cs : List Char} (missing : c ∉ cs) : cutFirst? [c] cs = none := by
  have absent := contains_eq_false (List.mem_singleton_self c) missing
  rwa [contains, Option.isSome_eq_false_iff, Option.isNone_iff_eq_none] at absent

theorem cutFirst?_first {before : List Char} (rest : List Char) (once : p ∉ ps) (first : ¬ p :: ps <:+: before) :
    cutFirst? (p :: ps) (before ++ (p :: ps ++ rest)) = some (before, rest) := by
  induction before with
  | nil =>
      have here : after? (p :: ps) (p :: (ps ++ rest)) = some rest := after?_append (p :: ps) rest
      simp only [List.nil_append, List.cons_append, cutFirst?, here]
  | cons c before ih =>
      have passed : after? (p :: ps) (c :: (before ++ (p :: ps ++ rest))) = none := by
        by_contra found
        obtain ⟨behind, found⟩ := Option.ne_none_iff_exists'.mp found
        have same : c :: before ++ (p :: ps ++ rest) = [] ++ (p :: ps ++ behind) := by
          rw [List.nil_append, ← eq_append_of_after? found, List.cons_append]
        rcases occurrence_cases once same with empty | ⟨m, empty⟩ | ⟨m, inside⟩
        · cases empty
        · cases empty
        · exact first ⟨[], m, inside.symm⟩
      rw [List.cons_append, cutFirst?, passed, ih fun found => first (List.infix_cons found), Option.map_some]

theorem cutFirst?_passed (c : Char) (passed : List Char) :
    ∃ before gap, cutFirst? [c] (passed ++ [c]) = some (before, gap) ∧ (gap = [] ↔ c ∉ passed) ∧
      ∀ rest, cutFirst? [c] (passed ++ c :: rest) = some (before, gap ++ rest) := by
  obtain ⟨before, gap, is, first⟩ := List.eq_append_cons_of_mem (show c ∈ passed ++ [c] by simp)
  have goesOn (rest : List Char) : passed ++ c :: rest = before ++ c :: (gap ++ rest) := by
    rw [List.append_cons, is, List.append_assoc, List.cons_append]
  refine ⟨before, gap, ?_, ?_, fun rest => by rw [goesOn rest, cutFirst?_char _ first]⟩
  · rw [is, cutFirst?_char _ first]
  · rcases List.eq_nil_or_concat gap with rfl | ⟨gap, d, rfl⟩
    · rw [(List.append_inj_left' is rfl : passed = before)]
      simpa using first
    · have inside : passed = before ++ c :: gap :=
        List.append_inj_left' (by rw [is, List.concat_eq_append, List.append_assoc]; rfl : passed ++ [c] = before ++ c :: gap ++ [d]) rfl
      simp [inside]

theorem cutLast?_eq_none_of_not_infix {pat cs : List Char} (missing : ¬ pat <:+: cs) : cutLast? pat cs = none := by
  induction cs with
  | nil =>
      cases pat with
      | nil => exact absurd (List.infix_refl _) missing
      | cons p ps => rfl
  | cons c cs ih =>
      rw [List.infix_cons_iff, not_or] at missing
      rw [cutLast?, ih missing.2]
      cases here : after? pat (c :: cs) with
      | none => rfl
      | some rest => exact absurd ⟨rest, (eq_append_of_after? here).symm⟩ missing.1

theorem cutLast?_last {rest : List Char} (before : List Char) (once : p ∉ ps) (last : ¬ p :: ps <:+: rest) :
    cutLast? (p :: ps) (before ++ (p :: ps ++ rest)) = some (before, rest) := by
  induction before with
  | nil =>
      have none := cutLast?_eq_none_of_not_infix fun found => last (infix_of_infix_tail once found)
      have here : after? (p :: ps) (p :: (ps ++ rest)) = some rest := after?_append (p :: ps) rest
      simp only [List.nil_append, List.cons_append, cutLast?, none, here, Option.map_some]
  | cons c before ih => rw [List.cons_append, cutLast?, ih]

theorem lastIndex?_none {α : Type} {q : α → Bool} {xs : List α} (none : lastIndex? q xs = none) :
    ∀ x ∈ xs, q x = false := by
  induction xs with
  | nil => nofun
  | cons x xs ih =>
      rw [lastIndex?] at none
      split at none
      next => cases none
      next later =>
        refine List.forall_mem_cons.mpr ⟨?_, ih later⟩
        by_contra here
        rw [if_pos (by simpa using here)] at none
        cases none

theorem lastIndex?_eq_some {α : Type} {q : α → Bool} {xs : List α} {i : Nat} (found : lastIndex? q xs = some i) :
    ∃ above x below, xs = above ++ x :: below ∧ above.length = i ∧ q x = true ∧ ∀ y ∈ below, q y = false := by
  induction xs generalizing i with
  | nil => cases found
  | cons x xs ih =>
      rw [lastIndex?] at found
      split at found
      next j later =>
        obtain ⟨above, y, below, rfl, length, here, last⟩ := ih later
        obtain rfl := Option.some.inj found
        exact ⟨x :: above, y, below, rfl, congrArg (· + 1) length, here, last⟩
      next none =>
        obtain ⟨here, found⟩ := Option.ite_none_right_eq_some.mp found
        obtain rfl := Option.some.inj found
        exact ⟨[], x, xs, rfl, rfl, here, lastIndex?_none none⟩

theorem lastIndex?_within {α : Type} {q : α → Bool} {xs : List α} {i : Nat} (found : lastIndex? q xs = some i) (above : List α) :
    lastIndex? q (above ++ xs) = some (above.length + i) := by
  induction above with
  | nil => rw [List.nil_append, found, List.length_nil, Nat.zero_add]
  | cons x above ih => rw [List.cons_append, lastIndex?, ih, List.length_cons, Nat.add_right_comm]

theorem lastIndex?_map {α β : Type} {q : α → Bool} (f : β → α) (xs : List β) : lastIndex? q (xs.map f) = lastIndex? (q ∘ f) xs := by
  induction xs with
  | nil => rfl
  | cons x xs ih => rw [List.map_cons, lastIndex?, lastIndex?, ih]; rfl

theorem lastIndex?_before {α : Type} {q : α → Bool} {behind : List α} (none : ∀ x ∈ behind, q x = false) (xs : List α) :
    lastIndex? q (xs ++ behind) = lastIndex? q xs := by
  induction xs with
  | nil => exact lastIndex?_eq_none none
  | cons x xs ih => rw [List.cons_append, lastIndex?, lastIndex?, ih]

theorem join_next (sep first : List Char) {lines : List (List Char)} (more : lines ≠ []) :
    join sep (first :: lines) = first ++ sep ++ join sep lines := by
  cases lines with
  | nil => contradiction
  | cons next lines => rfl

theorem join_snoc (sep last : List Char) {lines : List (List Char)} (some : lines ≠ []) :
    join sep (lines ++ [last]) = join sep lines ++ sep ++ last := by
  match lines with
  | [] => contradiction
  | [line] => rfl
  | line :: next :: lines =>
      rw [List.cons_append, join_next _ _ (by simp), join_snoc sep last (List.cons_ne_nil next lines), join]
      simp only [List.append_assoc]

theorem join_head (sep before line : List Char) (lines : List (List Char)) :
    join sep ((before ++ line) :: lines) = before ++ join sep (line :: lines) := by
  cases lines with
  | nil => rfl
  | cons next lines => rw [join, join, List.append_assoc, List.append_assoc, List.append_assoc]

theorem join_flatMap (sep piece : List Char) (behind : List (List Char)) :
    join sep (piece :: behind) = piece ++ behind.flatMap (sep ++ ·) := by
  induction behind generalizing piece with
  | nil => simp [join]
  | cons next behind ih => rw [join, ih next, List.flatMap_cons, List.append_assoc, List.append_assoc]

theorem join_around (sep piece : List Char) (before behind : List (List Char)) :
    join sep (before ++ piece :: behind) = before.flatMap (· ++ sep) ++ (piece ++ behind.flatMap (sep ++ ·)) := by
  induction before with
  | nil => exact join_flatMap sep piece behind
  | cons first before ih =>
      rw [List.cons_append, join_next sep first (by simp), ih, List.flatMap_cons]
      simp only [List.append_assoc]

theorem mem_join {sep : List Char} {pieces : List (List Char)} {c : Char} (here : c ∈ join sep pieces) :
    c ∈ sep ∨ ∃ piece ∈ pieces, c ∈ piece := by
  cases pieces with
  | nil => cases here
  | cons piece pieces =>
      rw [join_flatMap, List.mem_append, List.mem_flatMap] at here
      rcases here with here | ⟨other, member, here⟩
      · exact .inr ⟨piece, List.mem_cons_self, here⟩
      · refine (List.mem_append.mp here).imp_right fun inside => ?_
        exact ⟨other, List.mem_cons_of_mem piece member, inside⟩

theorem infix_join_of_mem (sep : List Char) {line : List Char} {lines : List (List Char)} (member : line ∈ lines) :
    line <:+: join sep lines := by
  match lines with
  | [other] => rw [List.mem_singleton.mp member]; exact List.infix_refl _
  | first :: next :: lines =>
      rcases List.mem_cons.mp member with rfl | later
      · exact ⟨[], sep ++ join sep (next :: lines), by rw [join, List.nil_append, List.append_assoc]⟩
      · exact (infix_join_of_mem sep later).trans ⟨first ++ sep, [], by rw [join, List.append_nil]⟩

theorem join_cut {pat : List Char} (single : '\n' ∉ pat) (occupied : pat ≠ []) {lines : List (List Char)}
    {before behind : List Char} (cut : join ['\n'] lines = before ++ (pat ++ behind)) :
    ∃ above left right below, lines = above ++ (left ++ (pat ++ right)) :: below ∧
      before = join ['\n'] (above ++ [left]) ∧ behind = join ['\n'] (right :: below) := by
  match lines with
  | [] =>
      have empty := (List.append_eq_nil_iff.mp (List.append_eq_nil_iff.mp cut.symm).2).1
      exact absurd empty occupied
  | [line] => exact ⟨[], before, behind, [], by rw [← cut]; rfl, rfl, rfl⟩
  | line :: next :: lines =>
      rw [join, List.append_assoc] at cut
      rcases List.append_eq_append_iff.mp cut with ⟨t, rfl, rest⟩ | ⟨t, rfl, rest⟩
      · cases t with
        | nil =>
            obtain ⟨p, ps, rfl⟩ := List.exists_cons_of_ne_nil occupied
            exact absurd (by rw [← (List.cons.inj rest).1]; simp) single
        | cons c t =>
            rw [List.singleton_append, List.cons_append] at rest
            obtain ⟨rfl, further⟩ := List.cons.inj rest
            obtain ⟨above, left, right, below, is, rfl, back⟩ := join_cut single occupied further
            refine ⟨line :: above, left, right, below, by rw [is]; rfl, ?_, back⟩
            rw [List.cons_append, join_next _ _ (by simp), List.append_assoc]
            rfl
      · rcases List.append_eq_append_iff.mp rest with ⟨u, rfl, rfl⟩ | ⟨u, inside, split⟩
        · exact ⟨[], before, u, next :: lines, rfl, rfl, by rw [join, List.append_assoc]⟩
        · cases u with
          | nil =>
              obtain rfl : pat = t := by rw [inside, List.append_nil]
              exact ⟨[], before, [], next :: lines, by rw [List.append_nil]; rfl, rfl, split.symm⟩
          | cons c u => exact absurd (by rw [inside, ← (List.cons.inj split).1]; simp) single

end Prerender.Text
