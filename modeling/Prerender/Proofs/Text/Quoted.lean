import Prerender.Proofs.Script.Lexeme

set_option autoImplicit false

namespace Prerender.Text.Quoted

open Script (isLineEnd)
open Script.Lexeme (scriptChar script_toList read_script)

-- Whether a text can stand between quotes: each quote in it is escaped, and its last character escapes nothing.
def isEnclosed : List Char → Bool
  | [] => true
  | ['\\'] => false
  | '\\' :: _ :: cs => isEnclosed cs
  | c :: cs => c != '"' && isEnclosed cs

def Printable (c : Char) : Prop := 0x20 ≤ c.toNat ∧ isLineEnd c = false

instance (c : Char) : Decidable (Printable c) := inferInstanceAs (Decidable (_ ∧ _))

theorem isEnclosed_plain {c : Char} (plain : c ∉ ['"', '\\']) (cs : List Char) :
    isEnclosed (c :: cs) = isEnclosed cs := by
  rw [isEnclosed.eq_def]
  split <;> simp_all

theorem isEnclosed_append {cs : List Char} (plain : ∀ c ∈ cs, c ∉ ['"', '\\']) (rest : List Char) :
    isEnclosed (cs ++ rest) = isEnclosed rest := by
  induction cs with
  | nil => rfl
  | cons c cs ih =>
      rw [List.forall_mem_cons] at plain
      rw [List.cons_append, isEnclosed_plain plain.1, ih plain.2]

inductive Written (c : Char) : List Char → Prop where
  | plain (other : c ∉ ['"', '\\']) (printable : Printable c) : Written c [c]
  | escape (mark : Char) (cs : List Char) (printable : Printable mark)
      (all : ∀ d ∈ cs, d ∉ ['"', '\\'] ∧ Printable d) : Written c ('\\' :: mark :: cs)

theorem hex4_plain (n : Nat) : ∀ d ∈ hex4 n, d ∉ ['"', '\\'] ∧ Printable d := by
  have digit : ∀ k < 16, hexDigit k ∉ ['"', '\\'] ∧ Printable (hexDigit k) := by decide
  have each (k : Nat) := digit (k % 16) (Nat.mod_lt k (by decide))
  simp only [hex4, List.forall_mem_cons]
  exact ⟨each _, each _, each _, each _, List.forall_mem_nil _⟩

theorem written_scriptChar (c : Char) : Written c (scriptChar c) := by
  have letter (mark : Char) (printable : Printable mark) : Written c ['\\', mark] :=
    .escape mark [] printable (List.forall_mem_nil _)
  have unit : Written c ('\\' :: 'u' :: hex4 c.toNat) := .escape 'u' _ (by decide) (hex4_plain c.toNat)
  rw [scriptChar]
  split
  next => exact unit
  next separator =>
    by_cases control : c.toNat < 0x20
    · have quote : c ≠ '"' := fun is => absurd control (by rw [is]; decide)
      have slash : c ≠ '\\' := fun is => absurd control (by rw [is]; decide)
      rw [jsonChar, if_neg quote, if_neg slash, if_pos control]
      repeat' split
      all_goals first
        | exact unit
        | exact letter _ (by decide)
    by_cases quote : c = '"'
    · rw [jsonChar, if_pos quote]
      exact letter '"' (by decide)
    by_cases slash : c = '\\'
    · rw [jsonChar, if_neg quote, if_pos slash]
      exact letter '\\' (by decide)
    · have single : isLineEnd c = false := by
        rw [not_or] at separator
        have feed : c ≠ '\n' ∧ c ≠ '\r' := by
          constructor <;> rintro rfl <;> exact control (by decide)
        simp [isLineEnd, feed, separator]
      rw [jsonChar, if_neg quote, if_neg slash, if_neg control]
      exact .plain (by simp [quote, slash]) ⟨Nat.le_of_not_lt control, single⟩

theorem isEnclosed_scriptChar (c : Char) (rest : List Char) : isEnclosed (scriptChar c ++ rest) = isEnclosed rest := by
  have written := written_scriptChar c
  generalize scriptChar c = text at written ⊢
  cases written with
  | plain other _ => exact isEnclosed_plain other rest
  | escape mark cs _ all => exact isEnclosed_append (fun d here => (all d here).1) rest

theorem printable_scriptChar (c : Char) : ∀ d ∈ scriptChar c, Printable d := by
  have written := written_scriptChar c
  generalize scriptChar c = text at written ⊢
  cases written with
  | plain _ printable => exact List.forall_mem_singleton.mpr printable
  | escape mark cs printable all =>
      exact List.forall_mem_cons.mpr ⟨by decide, List.forall_mem_cons.mpr ⟨printable, fun d here => (all d here).2⟩⟩

theorem isEnclosed_script (cs : List Char) : isEnclosed (cs.flatMap scriptChar) = true := by
  induction cs with
  | nil => rfl
  | cons c cs ih => rw [List.flatMap_cons, isEnclosed_scriptChar, ih]

theorem script_append_inj {s t : String} {rest behind : List Char}
    (same : (script s).toList ++ rest = (script t).toList ++ behind) : s = t ∧ rest = behind := by
  have read := read_script s rest
  rw [same, read_script t behind] at read
  obtain ⟨value, length⟩ := Prod.mk.inj read
  exact ⟨(Script.Lexeme.string.inj value).symm, (List.append_inj same length.symm).2⟩

theorem script_injective {s t : String} (same : script s = script t) : s = t :=
  (@script_append_inj s t [] [] (by rw [same])).1

/-- The literal of a text is one whole token of a script. It stands between two quotes, with no other quote in it that
is not escaped, and holds neither a control character nor the end of a line. Whatever comes behind it, it is read as the
text and no further, so that neither the text nor what comes behind can be taken for another. -/
theorem script_closed (s : String) :
    (∃ body, (script s).toList = '"' :: (body ++ ['"']) ∧ isEnclosed body = true ∧ ∀ c ∈ body, Printable c) ∧
    (∀ rest, Script.Lexeme.read ((script s).toList ++ rest) = (.string s, (script s).toList.length)) ∧
    ∀ t rest behind, (script s).toList ++ rest = (script t).toList ++ behind ↔ s = t ∧ rest = behind := by
  refine ⟨⟨s.toList.flatMap scriptChar, script_toList s, isEnclosed_script s.toList, fun d here => ?_⟩, read_script s,
    fun t rest behind => ⟨script_append_inj, ?_⟩⟩
  · obtain ⟨c, -, here⟩ := List.mem_flatMap.mp here
    exact printable_scriptChar c d here
  · rintro ⟨rfl, rfl⟩
    rfl

example : script "\\\u2028\"" = "\"\\\\\\u2028\\\"\"" := by decide +kernel

end Prerender.Text.Quoted
