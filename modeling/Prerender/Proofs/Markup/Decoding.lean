import Prerender.Proofs.Markup.Entity

set_option autoImplicit false

namespace Prerender.Markup.Entity

open Text (startsWith startsWith_iff)

section Passing

-- What one pass from the left makes of a text: a known reference yields its character, and any other character stays.
inductive Decoded : List Char → List Char → Prop
  | done : Decoded [] []
  | reference {entry : String × Char} {rest out : List Char} : entry ∈ known → Decoded rest out →
      Decoded (entry.1.toList ++ rest) (entry.2 :: out)
  | other {c : Char} {rest out : List Char} : (∀ entry ∈ known, ¬ entry.1.toList <+: c :: rest) → Decoded rest out →
      Decoded (c :: rest) (c :: out)

theorem head?_eq_none_iff {table : List (String × Char)} {cs : List Char} :
    head? table cs = none ↔ ∀ entry ∈ table, ¬ entry.1.toList <+: cs := by
  rw [head?, List.find?_eq_none]
  exact forall₂_congr fun entry _ => not_congr startsWith_iff

theorem known_alone {entry other : String × Char} {cs : List Char} (known_entry : entry ∈ known)
    (known_other : other ∈ known) (stands : entry.1.toList <+: cs) (other_stands : other.1.toList <+: cs) : entry = other := by
  have alone : ∀ a ∈ known, ∀ b ∈ known, a.1.toList <+: b.1.toList → a = b := by decide
  rcases List.prefix_or_prefix_of_prefix stands other_stands with before | before
  · exact alone entry known_entry other known_other before
  · exact (alone other known_other entry known_entry before).symm

theorem head?_known {entry : String × Char} (member : entry ∈ known) (rest : List Char) :
    head? known (entry.1.toList ++ rest) = some entry := by
  have stands : entry.1.toList <+: entry.1.toList ++ rest := List.prefix_append _ rest
  cases first : head? known (entry.1.toList ++ rest) with
  | none => exact absurd stands (head?_eq_none_iff.mp first entry member)
  | some other =>
      obtain ⟨known_other, behind, text⟩ := exists_of_head? first
      rw [known_alone member known_other stands ⟨behind, text.symm⟩]

theorem Decoded.eq_scan {cs out : List Char} (decoded : Decoded cs out) : out = scan known cs := by
  induction decoded with
  | done => rfl
  | @reference entry rest out member _ ih =>
      rw [known_separate.scan_found entry (head?_known member rest), ih]
  | other nothing _ ih => rw [scan_cons (head?_eq_none_iff.mpr nothing), ih]

theorem decoded_scan : (cs : List Char) → Decoded cs (scan known cs)
  | [] => .done
  | c :: cs => by
      cases first : head? known (c :: cs) with
      | none =>
          rw [scan_cons first]
          exact .other (head?_eq_none_iff.mp first) (decoded_scan cs)
      | some entry =>
          obtain ⟨member, rest, text⟩ := exists_of_head? first
          have shorter : rest.length < (c :: cs).length := text ▸ known_separate.shorter member rest
          rw [text, known_separate.scan_found entry (text ▸ first)]
          exact .reference member (decoded_scan rest)
termination_by cs => cs.length
decreasing_by
  · exact Nat.lt_succ_self cs.length
  · exact shorter

theorem decoded_iff {cs out : List Char} : Decoded cs out ↔ out = decodeChars cs := by
  rw [decodeChars_eq_scan]
  exact ⟨Decoded.eq_scan, fun same => same ▸ decoded_scan cs⟩

end Passing

section Marks

theorem behind_unmarked {c : Char} {passed cs before rest : List Char} (unmarked : c ∉ passed)
    (split : passed ++ cs = before ++ c :: rest) : ∃ between, cs = between ++ c :: rest := by
  rcases List.append_eq_append_iff.mp split with ⟨between, -, is⟩ | ⟨between, is, behind⟩
  · exact ⟨between, is⟩
  · cases between with
    | nil => exact ⟨[], behind.symm⟩
    | cons d between =>
        obtain ⟨rfl, -⟩ := List.cons.inj behind
        exact absurd (is ▸ List.mem_append_right before List.mem_cons_self) unmarked

-- A character is escaped to a text without `&`, or to a reference, in which it stands at the head alone.
theorem escaped_cases (c : Char) : '&' ∉ escapeChars [c] ∨
    ∃ entry ∈ references, ∃ body, escapeChars [c] = '&' :: body ∧ entry.2.toList = '&' :: body ∧ '&' ∉ body := by
  by_cases marked : c ∈ special
  · rcases special_cases marked with rfl | rfl | rfl | rfl | rfl
    · exact .inr ⟨('&', "&amp;"), by decide, _, rfl, rfl, by decide⟩
    · exact .inr ⟨('<', "&lt;"), by decide, _, rfl, rfl, by decide⟩
    · exact .inr ⟨('>', "&gt;"), by decide, _, rfl, rfl, by decide⟩
    · exact .inr ⟨('"', "&quot;"), by decide, _, rfl, rfl, by decide⟩
    · exact .inr ⟨('\'', "&#x27;"), by decide, _, rfl, rfl, by decide⟩
  · rw [escapeChars_of_not_special marked, List.mem_singleton]
    exact .inl fun same => marked (by rw [← same]; decide)

theorem reference_of_mark {cs before rest : List Char} (split : escapeChars cs = before ++ '&' :: rest) :
    ∃ entry ∈ references, entry.2.toList <+: '&' :: rest := by
  induction cs generalizing before with
  | nil => exact absurd split.symm (by simp [show escapeChars [] = [] from rfl])
  | cons c cs ih =>
      rw [escapeChars_cons] at split
      rcases escaped_cases c with unmarked | ⟨entry, member, body, escaped, written, unmarked⟩
      · obtain ⟨between, is⟩ := behind_unmarked unmarked split
        exact ih is
      · rw [escaped, List.cons_append] at split
        cases before with
        | nil =>
            obtain ⟨-, same⟩ := List.cons.inj split
            refine ⟨entry, member, ?_⟩
            rw [written, ← same]
            exact List.prefix_append ('&' :: body) (escapeChars cs)
        | cons d before =>
            obtain ⟨-, behind⟩ := List.cons.inj split
            obtain ⟨between, is⟩ := behind_unmarked unmarked behind
            exact ih is

end Marks

/-- Decoding is one pass over the text, so that nothing is decoded that a replacement has produced. An escaped text has
none of the characters that end an attribute or begin a tag, each `&` in it begins one of the references that are
written, and decoding gives the text back. -/
theorem decode_in_one_pass (s : String) :
    (∀ t : String, Decoded s.toList t.toList ↔ t = decode s) ∧
    (∀ c ∈ ['<', '>', '"', '\''], c ∉ (escape s).toList) ∧
    (∀ before rest, (escape s).toList = before ++ '&' :: rest → ∃ entry ∈ references, entry.2.toList <+: '&' :: rest) ∧
    decode (escape s) = s := by
  have escaped : (escape s).toList = escapeChars s.toList := String.toList_ofList
  refine ⟨fun t => ?_, fun c ends => ?_, fun before rest split => ?_, decode_escape s⟩
  · rw [decoded_iff, decode, ← String.toList_inj, String.toList_ofList]
  · rw [escaped]
    exact not_mem_escapeChars ends s.toList
  · rw [escaped] at split
    exact reference_of_mark split

theorem decode_in_one_pass_nested :
    Decoded "&amp;lt;&amp&#60;".toList "&lt;&amp&#60;".toList ∧
    '<' ∉ (escape "<&amp;'").toList ∧
    (∃ entry ∈ references, entry.2.toList <+: "&lt;&amp;amp;&#x27;".toList) ∧ decode (escape "<&amp;'") = "<&amp;'" := by
  obtain ⟨-, free, marks, back⟩ := decode_in_one_pass "<&amp;'"
  refine ⟨((decode_in_one_pass "&amp;lt;&amp&#60;").1 _).mpr ?_, free '<' (by decide), marks [] _ ?_, back⟩
  · decide
  · decide

end Prerender.Markup.Entity
