import Prerender.Markup.Entity
import Prerender.Proofs.Text.Search

set_option autoImplicit false

/-!
Character references read back. Escaping works on each character by itself. The known references are
replaced one kind after the other, which comes to one pass over the text: no replacement yields a part of a
reference that is still to be looked for.
-/
namespace Prerender.Markup.Entity

open Text (startsWith startsWith_iff after? after?_append replaceAll replaceAll_append replaceAll_char replaceAll_cons)

section Escaping

def special : List Char := references.map Prod.fst

def substitute (cs : List Char) (entry : Char × String) : List Char := replaceAll [entry.1] entry.2.toList cs

theorem substitute_all (table : List (Char × String)) (cs : List Char) :
    table.foldl substitute cs = cs.flatMap fun c => table.foldl substitute [c] := by
  induction table generalizing cs with
  | nil => simp
  | cons entry table ih =>
      have each (ds : List Char) : substitute ds entry = ds.flatMap fun d => substitute [d] entry := by
        simp [substitute, replaceAll_char]
      rw [List.foldl_cons, ih, each cs, List.flatMap_assoc]
      exact List.flatMap_congr fun c _ => (ih (substitute [c] entry)).symm

theorem substitute_other {table : List (Char × String)} {c : Char} (other : c ∉ table.map Prod.fst) :
    table.foldl substitute [c] = [c] := by
  induction table with
  | nil => rfl
  | cons entry table ih =>
      rw [List.map_cons, List.mem_cons, not_or] at other
      have kept : substitute [c] entry = [c] := by simp [substitute, replaceAll_char, other.1]
      rw [List.foldl_cons, kept, ih other.2]

theorem escapeChars_flatMap (cs : List Char) : escapeChars cs = cs.flatMap fun c => escapeChars [c] :=
  substitute_all references cs

theorem escapeChars_cons (c : Char) (cs : List Char) : escapeChars (c :: cs) = escapeChars [c] ++ escapeChars cs := by
  rw [escapeChars_flatMap, List.flatMap_cons, ← escapeChars_flatMap]

theorem escapeChars_of_not_special {c : Char} (plain : c ∉ special) : escapeChars [c] = [c] :=
  substitute_other plain

theorem special_cases {c : Char} (here : c ∈ special) : c = '&' ∨ c = '<' ∨ c = '>' ∨ c = '"' ∨ c = '\'' := by
  simpa [special, references] using here

theorem escapeChars_plain {cs : List Char} (plain : ∀ c ∈ cs, c ∉ special) : escapeChars cs = cs := by
  induction cs with
  | nil => rfl
  | cons c cs ih =>
      rw [List.forall_mem_cons] at plain
      rw [escapeChars_cons, escapeChars_of_not_special plain.1, ih plain.2, List.singleton_append]

theorem mem_escapeChars {cs : List Char} {d : Char} (here : d ∈ escapeChars cs) :
    (d ∈ cs ∧ d ∉ special) ∨ d ∈ "amp;lt;gt;quot;#x27;&".toList := by
  rw [escapeChars_flatMap, List.mem_flatMap] at here
  obtain ⟨c, member, here⟩ := here
  have letters : special.all (fun c => (escapeChars [c]).all "amp;lt;gt;quot;#x27;&".toList.contains) = true := by decide
  by_cases marked : c ∈ special
  · exact .inr (List.contains_iff_mem.mp (List.all_eq_true.mp (List.all_eq_true.mp letters c marked) d here))
  · rw [escapeChars_of_not_special marked, List.mem_singleton] at here
    exact .inl ⟨here ▸ member, here ▸ marked⟩

theorem not_mem_escapeChars {d : Char} (ends : d ∈ ['<', '>', '"', '\'']) (cs : List Char) : d ∉ escapeChars cs := by
  have both : ['<', '>', '"', '\''].all
      (fun d => special.contains d && "amp;lt;gt;quot;#x27;&".toList.contains d == false) = true := by decide
  obtain ⟨marked, other⟩ := Bool.and_eq_true_iff.mp (List.all_eq_true.mp both d ends)
  intro here
  rcases mem_escapeChars here with ⟨_, plain⟩ | written
  · exact plain (List.contains_iff_mem.mp marked)
  · rw [List.contains_iff_mem.mpr written] at other
    cases other

theorem line_feed_mem_escapeChars {cs : List Char} : '\n' ∈ escapeChars cs ↔ '\n' ∈ cs := by
  constructor
  · intro here
    rcases mem_escapeChars here with ⟨member, _⟩ | written
    · exact member
    · exact absurd written (by decide)
  · intro member
    rw [escapeChars_flatMap, List.mem_flatMap]
    exact ⟨'\n', member, by decide⟩

end Escaping

section Decoding

def head? (table : List (String × Char)) (cs : List Char) : Option (String × Char) :=
  table.find? fun entry => startsWith entry.1.toList cs

-- One pass over a text, in which each reference yields its character. `skip` characters of a reference
-- already read are still to be passed over.
def scanFrom (table : List (String × Char)) : Nat → List Char → List Char
  | _, [] => []
  | skip + 1, _ :: cs => scanFrom table skip cs
  | 0, c :: cs =>
      match head? table (c :: cs) with
      | some entry => entry.2 :: scanFrom table (entry.1.toList.length - 1) cs
      | none => c :: scanFrom table 0 cs

def scan (table : List (String × Char)) (cs : List Char) : List Char := scanFrom table 0 cs

-- Each reference begins with the only `&` in it, and no entry yields a character of a later reference.
structure Separate (table : List (String × Char)) : Prop where
  marked : ∀ entry ∈ table, entry.1.toList.head? = some '&' ∧ '&' ∉ entry.1.toList.tail
  foreign : table.Pairwise fun entry later => entry.2 ∉ later.1.toList

section

variable {table : List (String × Char)} {entry : String × Char}

theorem exists_of_head? {cs : List Char} (found : head? table cs = some entry) :
    entry ∈ table ∧ ∃ rest, cs = entry.1.toList ++ rest := by
  have stands := List.find?_some found
  obtain ⟨rest, text⟩ := startsWith_iff.mp stands
  exact ⟨List.mem_of_find?_eq_some found, rest, text.symm⟩

theorem head?_append (last : String × Char) (cs : List Char) :
    head? (table ++ [last]) cs = (head? table cs).or (if startsWith last.1.toList cs then some last else none) := by
  rw [head?, List.find?_append, head?, List.find?_singleton]

theorem scanFrom_append (passed cs : List Char) : scanFrom table passed.length (passed ++ cs) = scan table cs := by
  induction passed with
  | nil => rfl
  | cons c passed ih => exact ih

theorem scan_nil (cs : List Char) : scan [] cs = cs := by
  induction cs with
  | nil => rfl
  | cons c cs ih => exact congrArg (c :: ·) ih

theorem scan_cons {c : Char} {cs : List Char} (nothing : head? table (c :: cs) = none) :
    scan table (c :: cs) = c :: scan table cs := by
  simp only [scan, scanFrom, nothing]

theorem Separate.body (separate : Separate table) (member : entry ∈ table) :
    ∃ body, entry.1.toList = '&' :: body ∧ '&' ∉ body := by
  obtain ⟨head, tail⟩ := separate.marked entry member
  exact ⟨entry.1.toList.tail, List.eq_cons_of_mem_head? head, tail⟩

theorem Separate.shorter (separate : Separate table) (member : entry ∈ table) (rest : List Char) :
    rest.length < (entry.1.toList ++ rest).length := by
  obtain ⟨body, is, _⟩ := separate.body member
  rw [is, List.length_append, List.length_cons]
  omega

theorem Separate.append_left {later : List (String × Char)} (separate : Separate (table ++ later)) : Separate table :=
  ⟨fun entry member => separate.marked entry (List.mem_append_left later member),
    (List.pairwise_append.mp separate.foreign).1⟩

theorem Separate.scan_found (separate : Separate table) (entry : String × Char) {rest : List Char}
    (found : head? table (entry.1.toList ++ rest) = some entry) :
    scan table (entry.1.toList ++ rest) = entry.2 :: scan table rest := by
  obtain ⟨body, is, _⟩ := separate.body (exists_of_head? found).1
  rw [is, List.cons_append] at found ⊢
  simp only [scan, scanFrom, found, is, List.length_cons, Nat.add_sub_cancel]
  exact congrArg (entry.2 :: ·) (scanFrom_append body rest)

theorem Separate.head?_eq_none (separate : Separate table) {c : Char} {cs : List Char} (other : c ≠ '&') :
    head? table (c :: cs) = none := by
  rw [head?, List.find?_eq_none]
  intro entry member found
  obtain ⟨body, is, _⟩ := separate.body member
  rw [is, startsWith_iff] at found
  exact other (List.cons_prefix_cons.mp found).1.symm

theorem Separate.scan_append (separate : Separate table) {passed : List Char} (unmarked : '&' ∉ passed)
    (rest : List Char) : scan table (passed ++ rest) = passed ++ scan table rest := by
  induction passed with
  | nil => rfl
  | cons c passed ih =>
      rw [List.mem_cons, not_or] at unmarked
      rw [List.cons_append, scan_cons (separate.head?_eq_none (Ne.symm unmarked.1)), ih unmarked.2, List.cons_append]

theorem prefix_of_scan {pat : List Char} (foreign : ∀ entry ∈ table, entry.2 ∉ pat) {cs : List Char}
    (found : pat <+: scan table cs) : pat <+: cs := by
  induction pat generalizing cs with
  | nil => exact List.nil_prefix
  | cons p ps ih =>
      cases cs with
      | nil => exact found
      | cons c cs =>
          cases first : head? table (c :: cs) with
          | none =>
              rw [scan_cons first, List.cons_prefix_cons] at found
              rw [List.cons_prefix_cons]
              refine ⟨found.1, ih (fun entry member here => ?_) found.2⟩
              exact foreign entry member (List.mem_cons_of_mem p here)
          | some entry =>
              simp only [scan, scanFrom, first, List.cons_prefix_cons] at found
              exact absurd (found.1 ▸ List.mem_cons_self) (foreign entry (exists_of_head? first).1)

end

-- Replacing one more reference after a pass is a pass that also knows that reference.
theorem replaceAll_scan {table : List (String × Char)} {last : String × Char} (separate : Separate (table ++ [last])) :
    (cs : List Char) → replaceAll last.1.toList [last.2] (scan table cs) = scan (table ++ [last]) cs
  | [] => by
      obtain ⟨body, is, _⟩ := separate.body (List.mem_append_right table List.mem_cons_self)
      rw [is]
      rfl
  | c :: cs => by
      have member : last ∈ table ++ [last] := List.mem_append_right table List.mem_cons_self
      obtain ⟨body, is, unmarked⟩ := separate.body member
      have foreign : ∀ entry ∈ table, entry.2 ∉ last.1.toList := fun entry earlier =>
        (List.pairwise_append.mp separate.foreign).2.2 entry earlier last List.mem_cons_self
      have either : head? (table ++ [last]) (c :: cs) = _ := head?_append last (c :: cs)
      cases first : head? table (c :: cs) with
      | some entry =>
          obtain ⟨earlier, rest, text⟩ := exists_of_head? first
          have shorter : rest.length < (c :: cs).length := text ▸ separate.append_left.shorter earlier rest
          rw [first, Option.some_or] at either
          rw [text] at first either ⊢
          rw [separate.append_left.scan_found entry first, separate.scan_found entry either, replaceAll_cons,
            replaceAll_scan separate rest]
          intro found
          have head : '&' = entry.2 := (List.cons_prefix_cons.mp (is ▸ found)).1
          exact foreign entry earlier (by rw [is, ← head]; exact List.mem_cons_self)
      | none =>
          by_cases stands : startsWith last.1.toList (c :: cs) = true
          · obtain ⟨rest, text⟩ := startsWith_iff.mp stands
            have shorter : rest.length < (c :: cs).length := text ▸ separate.shorter member rest
            rw [first, if_pos stands, Option.none_or, ← text] at either
            have passed : scan table (c :: cs) = last.1.toList ++ scan table rest := by
              rw [is, List.cons_append] at text
              obtain ⟨rfl, rfl⟩ := List.cons.inj text
              rw [scan_cons first, separate.append_left.scan_append unmarked, is, List.cons_append]
            rw [passed, ← text, separate.scan_found last either, is, replaceAll_append, List.singleton_append, ← is,
              replaceAll_scan separate rest]
          · rw [first, if_neg stands, Option.none_or] at either
            rw [scan_cons first, scan_cons either, replaceAll_cons, replaceAll_scan separate cs]
            rw [← scan_cons first]
            exact fun found => stands (startsWith_iff.mpr (prefix_of_scan foreign found))
termination_by cs => cs.length
decreasing_by
  · exact shorter
  · exact Nat.lt_succ_self cs.length
  · exact shorter

def restore (cs : List Char) (entry : String × Char) : List Char := replaceAll entry.1.toList [entry.2] cs

theorem restore_all (table todo : List (String × Char)) (separate : Separate (table ++ todo)) (cs : List Char) :
    todo.foldl restore (scan table cs) = scan (table ++ todo) cs := by
  induction todo generalizing table with
  | nil => rw [List.append_nil, List.foldl_nil]
  | cons entry todo ih =>
      rw [List.append_cons] at separate ⊢
      rw [List.foldl_cons, restore, replaceAll_scan separate.append_left, ih (table ++ [entry]) separate]

theorem known_separate : Separate known := ⟨by decide, by decide⟩

theorem decodeChars_eq_scan (cs : List Char) : decodeChars cs = scan known cs := by
  have all := restore_all [] known known_separate cs
  rwa [scan_nil, List.nil_append] at all

end Decoding

theorem scan_escapeChars (c : Char) (rest : List Char) : scan known (escapeChars [c] ++ rest) = c :: scan known rest := by
  by_cases marked : c ∈ special
  · rcases special_cases marked with rfl | rfl | rfl | rfl | rfl
    · exact known_separate.scan_found ("&amp;", '&') rfl
    · exact known_separate.scan_found ("&lt;", '<') rfl
    · exact known_separate.scan_found ("&gt;", '>') rfl
    · exact known_separate.scan_found ("&quot;", '"') rfl
    · exact known_separate.scan_found ("&#x27;", '\'') rfl
  · have unmarked : c ≠ '&' := fun same => marked (by rw [same]; decide)
    rw [escapeChars_of_not_special marked, List.singleton_append, scan_cons (known_separate.head?_eq_none unmarked)]

theorem decodeChars_escapeChars (cs : List Char) : decodeChars (escapeChars cs) = cs := by
  rw [decodeChars_eq_scan]
  induction cs with
  | nil => rfl
  | cons c cs ih => rw [escapeChars_cons, scan_escapeChars, ih]

theorem decode_escape (s : String) : decode (escape s) = s := by
  rw [decode, escape, String.toList_ofList, decodeChars_escapeChars, String.ofList_toList]

end Prerender.Markup.Entity
