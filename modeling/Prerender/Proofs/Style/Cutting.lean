import Prerender.Proofs.Style.Css

set_option autoImplicit false

namespace Prerender.Style

open Keyed (mem_of_mem_ofList ofList_distinct)
open Text (trim isBlank)

-- Where a character of a style sheet stands: in a string, in parentheses, behind a backslash.
structure Nesting where
  quote : Option Char
  depth : Nat
  escaped : Bool
deriving DecidableEq

namespace Nesting

def outside : Nesting := ⟨none, 0, false⟩

def step (n : Nesting) (c : Char) : Nesting :=
  if n.escaped then { n with escaped := false }
  else if c = '\\' then { n with escaped := true }
  else
    match n.quote with
    | some q => if c = q then { n with quote := none } else n
    | none =>
        if c = '"' ∨ c = '\'' then { n with quote := some c }
        else if c = '(' then { n with depth := n.depth + 1 }
        else if c = ')' then { n with depth := n.depth - 1 }
        else n

def isInside (n : Nesting) : Bool := n.quote.isSome || n.depth != 0

-- A text that goes back to where it began, without a separator or a `)` of its own outside of strings and parentheses.
def encloses : Nesting → List Char → Bool
  | n, [] => n = outside
  | n, c :: cs => (n.isInside || !([';', ':', ')'].contains c)) && (n.step c).encloses cs

-- The first piece of a text that is cut at the semicolons outside, and the others.
def cut : Nesting → List Char → List Char × List (List Char)
  | _, [] => ([], [])
  | n, c :: cs =>
      let (piece, pieces) := (n.step c).cut cs
      if c = ';' ∧ n = outside then ([], piece :: pieces) else (c :: piece, pieces)

theorem step_outside {c : Char} (plain : c ∉ ['"', '\'', '(', ')', '\\']) : outside.step c = outside := by
  simp only [List.mem_cons, List.not_mem_nil, or_false, not_or] at plain
  simp [step, outside, plain]

end Nesting

open Nesting (outside)

def nestedIn (text : List Char) : List (String × String) :=
  ((outside.cut text).1 :: (outside.cut text).2).filterMap declaration?

def nestedDeclarations (text : String) : List (String × String) := nestedIn text.toList

structure IsLowerName (name : List Char) : Prop where
  occupied : name ≠ []
  plain : ∀ c ∈ name, c.isUpper = false ∧ isBlank c = false ∧ c ∉ [':', ';', '"', '\'', '(', ')', '\\']

structure IsValue (text : List Char) : Prop where
  occupied : text ≠ []
  trimmed : trim text = text

namespace Nesting

theorem cut_enclosed {n : Nesting} {cs : List Char} (enclosed : n.encloses cs = true) (rest : List Char) :
    n.cut (cs ++ rest) = (cs ++ (outside.cut rest).1, (outside.cut rest).2) := by
  induction cs generalizing n with
  | nil => rw [of_decide_eq_true enclosed, List.nil_append, List.nil_append]
  | cons c cs ih =>
      rw [encloses, Bool.and_eq_true] at enclosed
      have whole : ¬ (c = ';' ∧ n = outside) := by
        rintro ⟨rfl, rfl⟩
        exact absurd enclosed.1 (by decide)
      rw [List.cons_append, cut, ih enclosed.2]
      dsimp only
      rw [if_neg whole, List.cons_append]

theorem cut_plain {cs : List Char} (plain : ∀ c ∈ cs, c ∉ [';', '"', '\'', '(', ')', '\\']) (rest : List Char) :
    outside.cut (cs ++ rest) = (cs ++ (outside.cut rest).1, (outside.cut rest).2) := by
  induction cs with
  | nil => rfl
  | cons c cs ih =>
      rw [List.forall_mem_cons, List.mem_cons, not_or] at plain
      rw [List.cons_append, cut, step_outside plain.1.2, ih plain.2]
      dsimp only
      rw [if_neg fun is => plain.1.1 is.1, List.cons_append]

theorem cut_semicolon (rest : List Char) :
    outside.cut (';' :: rest) = ([], (outside.cut rest).1 :: (outside.cut rest).2) := by
  have kept : outside.step ';' = outside := by decide
  rw [cut, kept]
  dsimp only
  rw [if_pos ⟨rfl, rfl⟩]

end Nesting

theorem IsLowerName.label {name : List Char} (is : IsLowerName name) : IsLabel name := by
  refine ⟨is.occupied, Text.trim_solid fun c here => (is.plain c here).2.1, fun c here separator => ?_⟩
  exact (is.plain c here).2.2 (List.mem_append_left ['"', '\'', '(', ')', '\\'] separator)

structure IsNestedDeclaration (d : String × String) : Prop where
  name : IsLowerName d.1.toList
  value : IsValue d.2.toList
  enclosed : outside.encloses d.2.toList = true

theorem cut_body {d : String × String} (is : IsNestedDeclaration d) {blank : List Char}
    (blanks : ∀ c ∈ blank, isBlank c = true) (rest : List Char) :
    outside.cut (blank ++ body d ++ rest) = (blank ++ body d ++ (outside.cut rest).1, (outside.cut rest).2) := by
  have plain : ∀ c ∈ blank ++ d.1.toList ++ [':', ' '], c ∉ [';', '"', '\'', '(', ')', '\\'] := by
    intro c here
    rcases List.mem_append.mp here with here | here
    · rcases List.mem_append.mp here with here | here
      · have others : ∀ e ∈ [';', '"', '\'', '(', ')', '\\'], isBlank e = false := by decide
        exact fun member => Bool.false_ne_true ((others c member).symm.trans (blanks c here))
      · exact fun member => (is.name.plain c here).2.2 (List.mem_cons_of_mem ':' member)
    · have colon : ∀ e ∈ [':', ' '], e ∉ [';', '"', '\'', '(', ')', '\\'] := by decide
      exact colon c here
  have split : blank ++ body d = blank ++ d.1.toList ++ [':', ' '] ++ d.2.toList := by simp [body]
  rw [split, List.append_assoc (_ ++ [':', ' ']), Nesting.cut_plain plain, Nesting.cut_enclosed is.enclosed,
    List.append_assoc (_ ++ [':', ' '])]

theorem declaration?_nested {d : String × String} (is : IsNestedDeclaration d) {blank : List Char}
    (blanks : ∀ c ∈ blank, isBlank c = true) : declaration? (blank ++ body d) = some d :=
  declaration?_spaced is.name.label is.value.occupied is.value.trimmed blanks

theorem nestedIn_separated {d : String × String} {ds : List (String × String)}
    (are : ∀ e ∈ d :: ds, IsNestedDeclaration e) {blank gap : List Char} (blanks : ∀ c ∈ blank, isBlank c = true)
    (gaps : ∀ c ∈ gap, isBlank c = true) :
    nestedIn (blank ++ (';' :: gap).intercalate ((d :: ds).map body)) = d :: ds := by
  induction ds generalizing d blank with
  | nil =>
      rw [List.forall_mem_singleton] at are
      have alone := cut_body are blanks []
      rw [List.append_nil] at alone
      rw [List.map_cons, List.map_nil, List.intercalate_singleton, nestedIn, alone]
      simp [Nesting.cut, declaration?_nested are blanks]
  | cons next ds ih =>
      rw [List.forall_mem_cons] at are
      have others := ih are.2 gaps
      rw [List.map_cons, nestedIn] at others
      rw [List.map_cons, List.map_cons, List.intercalate_cons_cons, List.append_assoc, List.cons_append,
        ← List.append_assoc, nestedIn, cut_body are.1 blanks, Nesting.cut_semicolon, List.append_nil, List.filterMap_cons,
        declaration?_nested are.1 blanks]
      exact congrArg (d :: ·) others

theorem whole_of_mem_declarationsIn {text : List Char} {d : String × String} (member : d ∈ declarationsIn text) :
    ';' ∉ d.2.toList := by
  obtain ⟨piece, inside, read⟩ := List.mem_filterMap.mp member
  obtain ⟨name, content, cut, -, is⟩ := exists_of_declaration? read
  intro here
  have passed : ';' ∈ content := mem_of_mem_trim (is ▸ here)
  have within : ';' ∈ piece := by
    rw [Text.eq_append_of_cutFirst? cut]
    exact List.mem_append_right name (List.mem_cons_of_mem ':' passed)
  exact of_decide_eq_false (Text.not_of_mem_splitOn inside within) rfl

theorem keys_entryOf (ds : List (String × String)) :
    Keyed.keys (ds.map entryOf) = (ds.map fun d => scriptName d.1.toList).map String.ofList := by
  rw [Keyed.keys, List.map_map, List.map_map]
  rfl

/-- A style has declarations that are joined with semicolons, each under its own name with its whole value, exactly if no
value has a semicolon and no two names come to the same name in a script. CSS has them also if the semicolons and the
colons of the values stand in strings or in parentheses. -/
theorem parseCss_separated_iff (declared : List (String × String)) (names : ∀ d ∈ declared, IsLowerName d.1.toList)
    (values : ∀ d ∈ declared, IsValue d.2.toList) :
    let text := "; ".intercalate (declared.map fun d => d.1 ++ ": " ++ d.2)
    (parseCss text = declared.map entryOf ↔
      (∀ d ∈ declared, ';' ∉ d.2.toList) ∧ (declared.map fun d => scriptName d.1.toList).Nodup) ∧
    ((∀ d ∈ declared, outside.encloses d.2.toList = true) → nestedDeclarations text = declared) := by
  intro text
  refine ⟨⟨fun same => ⟨fun d here => ?_, ?_⟩, fun ⟨whole, distinct⟩ => ?_⟩, fun enclosed => ?_⟩
  · have entry : entryOf d ∈ parseCss text := same ▸ List.mem_map_of_mem here
    rw [parseCss_eq] at entry
    obtain ⟨e, member, is⟩ := List.mem_map.mp (mem_of_mem_ofList entry)
    have value : e.2 = d.2 := Json.string.inj (congrArg Prod.snd is)
    rw [← value]
    exact whole_of_mem_declarationsIn member
  · have once := Keyed.nodup_keys_ofList ((declarations text).map entryOf)
    rw [← parseCss_eq, same, keys_entryOf] at once
    exact once.of_map String.ofList
  · have plain : ∀ d ∈ declared, IsDeclaration d := fun d here =>
      ⟨(names d here).label, (values d here).occupied, (values d here).trimmed, whole d here⟩
    have read : declarations text = declared := declarations_separated plain rfl (by decide)
    have keys : (Keyed.keys (declared.map entryOf)).Nodup := by
      rw [keys_entryOf]
      exact distinct.map fun _ _ same => String.ofList_injective same
    rw [parseCss_eq, read, ofList_distinct keys]
  · have are : ∀ d ∈ declared, IsNestedDeclaration d := fun d here => ⟨names d here, values d here, enclosed d here⟩
    rw [nestedDeclarations, separated_toList]
    cases declared with
    | nil => rfl
    | cons d ds => exact nestedIn_separated are (List.forall_mem_nil _) (by decide)

theorem parseCss_separated_quoted :
    let declared := [("--gap", "calc(1px + (2px))"), ("background-image", "url(https://a/b.png)"), ("content", "\"a:\\\"b\"")]
    let text := "--gap: calc(1px + (2px)); background-image: url(https://a/b.png); content: \"a:\\\"b\""
    parseCss text = [("--gap", .string "calc(1px + (2px))"), ("backgroundImage", .string "url(https://a/b.png)"),
      ("content", .string "\"a:\\\"b\"")] ∧ nestedDeclarations text = declared := by
  intro declared text
  have names : ∀ d ∈ declared, IsLowerName d.1.toList := by
    have each : ∀ d ∈ declared, d.1.toList ≠ [] ∧
        ∀ c ∈ d.1.toList, c.isUpper = false ∧ isBlank c = false ∧ c ∉ [':', ';', '"', '\'', '(', ')', '\\'] := by
      decide +kernel
    exact fun d here => ⟨(each d here).1, (each d here).2⟩
  have values : ∀ d ∈ declared, IsValue d.2.toList := by
    have each : ∀ d ∈ declared, d.2.toList ≠ [] ∧ trim d.2.toList = d.2.toList := by decide +kernel
    exact fun d here => ⟨(each d here).1, (each d here).2⟩
  obtain ⟨cut, nested⟩ := parseCss_separated_iff declared names values
  exact ⟨cut.mpr (by decide +kernel), nested (by decide +kernel)⟩

theorem parseCss_separated_url :
    let value := "url(data:image/png;base64,AA==)"
    IsLowerName "background".toList ∧ IsValue value.toList ∧ outside.encloses value.toList = true ∧
      nestedDeclarations ("background: " ++ value) = [("background", value)] ∧
      parseCss ("background: " ++ value) = [("background", .string "url(data:image/png")] := by
  refine ⟨⟨by decide, by decide⟩, ⟨by decide, by decide⟩, by decide +kernel, by decide +kernel, ?_⟩
  have read : declarations "background: url(data:image/png;base64,AA==)" = [("background", "url(data:image/png")] := by
    decide +kernel
  have text : "background: " ++ "url(data:image/png;base64,AA==)" = "background: url(data:image/png;base64,AA==)" := by decide
  rw [text, parseCss_eq, read]
  rfl

end Prerender.Style
