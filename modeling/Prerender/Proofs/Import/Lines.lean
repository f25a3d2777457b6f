import Prerender.Proofs.Import.Scan

set_option autoImplicit false

namespace Prerender.Import

open Text (trimStart)

theorem source?_suffix {cs rest specifier : List Char} (found : source? cs = some (specifier, rest)) :
    rest <:+ cs ∧ rest.length < cs.length := by
  obtain ⟨c, suffix⟩ : ∃ c, c :: rest <:+ cs := by
    unfold source? at found
    split at found
    next => cases found
    next more after =>
      have word : more <:+ trimStart cs := ⟨"from".toList, (Text.eq_append_of_after? after).symm⟩
      split at found
      next => cases found
      next quote tail trimmed =>
        have opened : quote :: tail <:+ more := trimmed ▸ List.dropWhile_suffix (l := more) Text.isBlank
        dsimp only at found
        split at found
        next =>
          split at found
          next => cases found
          next close rest' dropped =>
            cases found
            have closed : close :: rest <:+ tail := dropped ▸ List.dropWhile_suffix (l := tail) (!isQuote ·)
            exact ⟨close, (closed.trans (List.suffix_cons quote tail)).trans
              ((opened.trans word).trans (List.dropWhile_suffix _))⟩
        next => cases found
  exact ⟨(List.suffix_cons c rest).trans suffix, suffix.length_le⟩

theorem clause?_suffix {cs rest : List Char} {clause : List Char × List Char}
    (found : clause? cs = some (clause, rest)) : rest <:+ cs ∧ rest.length < cs.length := by
  induction cs generalizing clause with
  | nil => cases found
  | cons c cs ih =>
      rw [clause?.eq_def] at found
      split at found
      next specifier more read =>
        cases found
        exact source?_suffix read
      next =>
        obtain ⟨-, found⟩ := Option.ite_none_left_eq_some.mp found
        obtain ⟨⟨inner, more⟩, read, same⟩ := Option.map_eq_some_iff.mp found
        cases same
        obtain ⟨suffix, shorter⟩ := ih read
        exact ⟨suffix.trans (List.suffix_cons c cs), Nat.lt_succ_of_lt shorter⟩

theorem afterWord?_suffix {keyword : String} {cs rest : List Char} (found : afterWord? keyword cs = some rest) :
    rest <:+ cs := by
  obtain ⟨c, behind, -, rfl, rfl⟩ := eq_of_afterWord? found
  exact (List.dropWhile_suffix _).trans ((List.suffix_cons c behind).trans (List.suffix_append _ _))

theorem statement?_suffix {cs rest : List Char} {found : Option Statement} (read : statement? cs = some (found, rest)) :
    rest <:+ cs ∧ rest.length < cs.length := by
  obtain ⟨behind, after, read⟩ := Option.bind_eq_some_iff.mp read
  have left : behind <:+ cs := (afterWord?_suffix after).trans (List.dropWhile_suffix _)
  obtain ⟨inner, within, clause, found⟩ : ∃ inner, inner <:+ behind ∧ ∃ clause, clause? inner = some (clause, rest) := by
    split at read
    next inner marked =>
      obtain ⟨⟨clause, more⟩, found, same⟩ := Option.map_eq_some_iff.mp read
      cases same
      exact ⟨inner, afterWord?_suffix marked, clause, found⟩
    next =>
      obtain ⟨⟨clause, more⟩, found, same⟩ := Option.map_eq_some_iff.mp read
      cases same
      exact ⟨behind, List.suffix_refl _, clause, found⟩
  obtain ⟨suffix, shorter⟩ := clause?_suffix found
  have suffix := (suffix.trans within).trans left
  exact ⟨suffix, Nat.lt_of_lt_of_le shorter (within.trans left).length_le⟩

def isHead (source : List Char) (i : Nat) : Bool := i == 0 || source[i - 1]? == some '\n'

def foundAt (source : List Char) (i : Nat) : Option Statement := (statement? (source.drop i)).bind Prod.fst

def endOf (source : List Char) (i : Nat) : Nat :=
  (statement? (source.drop i)).elim i fun found => source.length - found.2.length

variable {source : List Char}

theorem drop_endOf {i : Nat} {found : Option Statement} {rest : List Char}
    (read : statement? (source.drop i) = some (found, rest)) :
    rest = source.drop (endOf source i) ∧ i < endOf source i ∧ endOf source i ≤ source.length := by
  obtain ⟨suffix, shorter⟩ := statement?_suffix read
  have whole := suffix.trans (List.drop_suffix i source)
  have is : endOf source i = source.length - rest.length := by rw [endOf, read]; rfl
  rw [List.length_drop] at shorter
  rw [is]
  exact ⟨List.suffix_iff_eq_drop.mp whole, by omega, Nat.sub_le _ _⟩

theorem isHead_succ {i : Nat} {c : Char} {cs : List Char} (here : source.drop i = c :: cs) :
    isHead source (i + 1) = (c == '\n') := by
  have at_i : source[i]? = some c := by rw [← List.head?_drop, here]; rfl
  simp [isHead, at_i]

theorem drop_succ {i : Nat} {c : Char} {cs : List Char} (here : source.drop i = c :: cs) : source.drop (i + 1) = cs := by
  rw [← List.drop_drop, here]
  rfl

theorem statementsFrom_skip (k i : Nat) (fits : i + k ≤ source.length) :
    statementsFrom (isHead source i) k (source.drop i) =
      statementsFrom (isHead source (i + k)) 0 (source.drop (i + k)) := by
  induction k generalizing i with
  | zero => rfl
  | succ k ih =>
      obtain ⟨c, cs, here⟩ := List.exists_cons_of_ne_nil (l := source.drop i) (by rw [ne_eq, List.drop_eq_nil_iff]; omega)
      have next := ih (i + 1) (by omega)
      rw [isHead_succ here, drop_succ here, Nat.add_assoc, Nat.add_comm 1 k] at next
      rw [here, statementsFrom]
      exact next

theorem statementsFrom_found {i : Nat} {found : Option Statement} {rest : List Char} (head : isHead source i = true)
    (read : statement? (source.drop i) = some (found, rest)) : statementsFrom (isHead source i) 0 (source.drop i) =
      found.toList ++ statementsFrom (isHead source (endOf source i)) 0 (source.drop (endOf source i)) := by
  obtain ⟨is, further, fits⟩ := drop_endOf read
  obtain ⟨c, cs, here⟩ := List.exists_cons_of_ne_nil (l := source.drop i) (by rw [ne_eq, List.drop_eq_nil_iff]; omega)
  have behind := drop_succ here
  have skipped : cs.length - rest.length = endOf source i - (i + 1) := by
    rw [is, ← behind, List.length_drop, List.length_drop]
    omega
  have passed := @statementsFrom_skip source (endOf source i - (i + 1)) (i + 1) (by omega)
  rw [isHead_succ here, behind, Nat.add_sub_cancel' further] at passed
  rw [here] at read ⊢
  rw [statementsFrom, head, if_pos rfl, read]
  simp only [skipped, passed]

theorem statementsFrom_missed {i : Nat} {c : Char} {cs : List Char} (here : source.drop i = c :: cs)
    (missed : isHead source i = true → statement? (source.drop i) = none) :
    statementsFrom (isHead source i) 0 (source.drop i) =
      statementsFrom (isHead source (i + 1)) 0 (source.drop (i + 1)) := by
  have nothing : (if isHead source i then statement? (c :: cs) else none) = none := by
    split
    next head => rw [← here, missed head]
    next => rfl
  rw [isHead_succ here, drop_succ here, here, statementsFrom, nothing]

/-- What is found in a text is found where lines begin. The places are known once they are in order, none of them within
what is found at another, and no other line looks like an import. -/
theorem statementsFrom_heads {i : Nat} (heads : List Nat) (sorted : heads.Pairwise fun j k => endOf source j ≤ k)
    (each : ∀ j ∈ heads, i ≤ j ∧ isHead source j = true ∧ (statement? (source.drop j)).isSome = true)
    (all : ∀ j, i ≤ j → isHead source j = true → (statement? (source.drop j)).isSome = true → j ∈ heads) :
    statementsFrom (isHead source i) 0 (source.drop i) = heads.filterMap (foundAt source) := by
  -- The induction is on what is left of the text.
  obtain ⟨n, left⟩ : ∃ n, source.length - i = n := ⟨_, rfl⟩
  induction n using Nat.strong_induction_on generalizing i heads with
  | _ n ih =>
      by_cases looks : isHead source i = true ∧ (statement? (source.drop i)).isSome = true
      · obtain ⟨head, some_found⟩ := looks
        obtain ⟨⟨found, rest⟩, read⟩ := Option.isSome_iff_exists.mp some_found
        obtain ⟨-, further, fits⟩ := drop_endOf read
        obtain ⟨later, rfl⟩ : ∃ later, heads = i :: later := by
          cases heads with
          | nil => cases all i (Nat.le_refl i) head some_found
          | cons j later =>
              rcases List.mem_cons.mp (all i (Nat.le_refl i) head some_found) with rfl | member
              · exact ⟨later, rfl⟩
              · obtain ⟨low, -, j_found⟩ := each j List.mem_cons_self
                obtain ⟨⟨_, _⟩, j_read⟩ := Option.isSome_iff_exists.mp j_found
                have ends := (List.pairwise_cons.mp sorted).1 i member
                have := (drop_endOf j_read).2.1
                omega
        obtain ⟨behind, sorted⟩ := List.pairwise_cons.mp sorted
        have found_here : foundAt source i = found := by rw [foundAt, read]; rfl
        have ahead := ih (source.length - endOf source i) (by omega) later sorted
          (fun j member => ⟨behind j member, (each j (List.mem_cons_of_mem i member)).2⟩)
          (fun j low j_head j_found => (List.mem_cons.mp (all j (by omega) j_head j_found)).resolve_left (by omega)) rfl
        rw [statementsFrom_found head read, ahead, List.filterMap_cons, found_here]
        cases found <;> rfl
      · have others (j : Nat) (member : j ∈ heads) : i ≠ j := by
          rintro rfl
          exact looks (each i member).2
        cases here : source.drop i with
        | nil =>
            cases heads with
            | nil => rfl
            | cons j later =>
                obtain ⟨low, -, j_found⟩ := each j List.mem_cons_self
                have none_left : source.drop j = [] := List.drop_eq_nil_iff.mpr ((List.drop_eq_nil_iff.mp here).trans low)
                rw [none_left] at j_found
                cases j_found
        | cons c cs =>
            have more : i < source.length := by
              by_contra beyond
              rw [List.drop_eq_nil_iff.mpr (by omega)] at here
              cases here
            rw [← here, statementsFrom_missed here fun head => by simpa [head] using looks]
            refine ih (source.length - (i + 1)) (by omega) heads sorted (fun j member => ⟨?_, (each j member).2⟩)
              (fun j low => all j (by omega)) rfl
            have := others j member
            have := (each j member).1
            omega

theorem statements_eq {source : String} (heads : List Nat) (sorted : heads.Pairwise fun j k => endOf source.toList j ≤ k)
    (each : ∀ j, j ∈ heads ↔ isHead source.toList j = true ∧ (statement? (source.toList.drop j)).isSome = true) :
    statements source = heads.filterMap (foundAt source.toList) :=
  statementsFrom_heads (i := 0) heads sorted (fun j member => ⟨Nat.zero_le j, (each j).mp member⟩)
    fun j _ head found => (each j).mpr ⟨head, found⟩

end Prerender.Import
