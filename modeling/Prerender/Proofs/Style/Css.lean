import Prerender.Proofs.Keyed
import Prerender.Proofs.Literal
import Prerender.Proofs.Style.Name
import Prerender.Proofs.Text.Occurrence

set_option autoImplicit false

namespace Prerender.Style

open Keyed (mem_of_mem_ofList ofList_distinct)
open Text (trim isBlank)

section Declarations

structure IsLabel (text : List Char) : Prop where
  occupied : text ≠ []
  trimmed : trim text = text
  plain : ∀ c ∈ text, c ∉ [':', ';']

structure IsContent (text : List Char) : Prop where
  occupied : text ≠ []
  trimmed : trim text = text
  whole : ';' ∉ text

structure IsDeclaration (d : String × String) : Prop where
  label : IsLabel d.1.toList
  content : IsContent d.2.toList

def declaration? (text : List Char) : Option (String × String) :=
  match Text.cutFirst? [':'] text with
  | none => none
  | some (name, content) =>
      if (trim name).isEmpty || (trim content).isEmpty then none
      else some (String.ofList (trim name), String.ofList (trim content))

def declarationsIn (text : List Char) : List (String × String) := (Text.splitOn (· = ';') text).filterMap declaration?

def declarations (text : String) : List (String × String) := declarationsIn text.toList

def entryOf (d : String × String) : String × Json := (String.ofList (scriptName d.1.toList), .string d.2)

theorem exists_of_declaration? {text : List Char} {d : String × String} (read : declaration? text = some d) :
    ∃ name content, Text.cutFirst? [':'] text = some (name, content) ∧ d.1.toList = trim name ∧ d.2.toList = trim content := by
  rw [declaration?] at read
  split at read
  next => cases read
  next name content cut =>
    split at read
    next => cases read
    next =>
      obtain rfl := Option.some.inj read
      exact ⟨name, content, cut, String.toList_ofList, String.toList_ofList⟩

theorem addDeclaration_eq (style : Style) (text : List Char) :
    addDeclaration style text =
      (declaration? text).toList.foldl (fun style d => Keyed.put style (entryOf d).1 (entryOf d).2) style := by
  rw [addDeclaration, declaration?]
  cases Text.cutFirst? [':'] text with
  | none => rfl
  | some cut =>
      dsimp only
      split
      · rfl
      · rw [Option.toList_some, List.foldl_cons, List.foldl_nil, entryOf, String.toList_ofList]

theorem parseCss_eq (text : String) : parseCss text = Keyed.ofList ((declarations text).map entryOf) := by
  rw [parseCss, declarations, declarationsIn, Keyed.ofList]
  generalize ([] : Style) = style
  induction Text.splitOn (· = ';') text.toList generalizing style with
  | nil => rfl
  | cons piece pieces ih =>
      rw [List.foldl_cons, addDeclaration_eq, ih, List.filterMap_cons]
      cases declaration? piece with
      | none => rfl
      | some d => rfl

def body (d : String × String) : List Char := d.1.toList ++ ':' :: ' ' :: d.2.toList

theorem body_toList (d : String × String) : (d.1 ++ ": " ++ d.2).toList = body d := by
  have colon : ": ".toList = [':', ' '] := rfl
  rw [String.toList_append, String.toList_append, colon, List.append_assoc]
  rfl

theorem IsDeclaration.whole {d : String × String} (is : IsDeclaration d) : ';' ∉ body d := by
  have label : ';' ∉ d.1.toList := fun here => is.label.plain _ here (by decide)
  simp only [body, List.mem_append, List.mem_cons, not_or]
  exact ⟨label, by decide, by decide, is.content.whole⟩

-- A declaration is read as it is written, also if a semicolon stands in its value.
theorem declaration?_spaced {d : String × String} (label : IsLabel d.1.toList) (occupied : d.2.toList ≠ [])
    (trimmed : trim d.2.toList = d.2.toList) {blank : List Char} (blanks : ∀ c ∈ blank, isBlank c = true) :
    declaration? (blank ++ body d) = some d := by
  have before : ':' ∉ blank ++ d.1.toList := fun here => by
    rcases List.mem_append.mp here with here | here
    · exact absurd (blanks ':' here) (by decide)
    · exact label.plain _ here (by decide)
  have content : trim (' ' :: d.2.toList) = d.2.toList := @Text.trim_append [' '] _ (by decide) trimmed
  rw [declaration?, body, ← List.append_assoc, Text.cutFirst?_char _ before]
  dsimp only
  rw [Text.trim_append blanks label.trimmed, content, List.isEmpty_eq_false_iff.mpr label.occupied,
    List.isEmpty_eq_false_iff.mpr occupied, Bool.or_false, if_neg Bool.false_ne_true, String.ofList_toList,
    String.ofList_toList]

theorem declaration?_body {d : String × String} (is : IsDeclaration d) {blank : List Char}
    (blanks : ∀ c ∈ blank, isBlank c = true) : declaration? (blank ++ body d) = some d :=
  declaration?_spaced is.label is.content.occupied is.content.trimmed blanks

theorem declarationsIn_append (before rest : List Char) :
    declarationsIn (before ++ ';' :: rest) = declarationsIn before ++ declarationsIn rest := by
  rw [declarationsIn, Text.splitOn_append (by decide), List.filterMap_append]
  rfl

theorem declarationsIn_body {d : String × String} (is : IsDeclaration d) {blank : List Char}
    (blanks : ∀ c ∈ blank, isBlank c = true) : declarationsIn (blank ++ body d) = [d] := by
  have whole : ∀ c ∈ blank ++ body d, decide (c = ';') = false := by
    intro c here
    refine decide_eq_false fun same => ?_
    rcases List.mem_append.mp (same ▸ here) with here | here
    · exact absurd (blanks ';' here) (by decide)
    · exact is.whole here
  rw [declarationsIn, Text.splitOn_of_none whole, List.filterMap_cons, declaration?_body is blanks]
  rfl

-- Declarations with a semicolon between any two, behind which blanks may stand.
theorem declarationsIn_separated {d : String × String} {ds : List (String × String)} (are : ∀ e ∈ d :: ds, IsDeclaration e)
    {blank gap : List Char} (blanks : ∀ c ∈ blank, isBlank c = true) (gaps : ∀ c ∈ gap, isBlank c = true) :
    declarationsIn (blank ++ (';' :: gap).intercalate ((d :: ds).map body)) = d :: ds := by
  induction ds generalizing d blank with
  | nil =>
      rw [List.forall_mem_singleton] at are
      rw [List.map_cons, List.map_nil, List.intercalate_singleton, declarationsIn_body are blanks]
  | cons next ds ih =>
      rw [List.forall_mem_cons] at are
      have others := ih are.2 gaps
      rw [List.map_cons] at others
      rw [List.map_cons, List.map_cons, List.intercalate_cons_cons, List.append_assoc, List.cons_append, ← List.append_assoc,
        declarationsIn_append, declarationsIn_body are.1 blanks, others, List.singleton_append]

theorem separated_toList (sep : String) (ds : List (String × String)) :
    (sep.intercalate (ds.map fun d => d.1 ++ ": " ++ d.2)).toList = sep.toList.intercalate (ds.map body) := by
  have bodies : (ds.map fun d => d.1 ++ ": " ++ d.2).map String.toList = ds.map body := by
    rw [List.map_map]
    exact List.map_congr_left fun d _ => body_toList d
  rw [String.toList_intercalate, bodies]

theorem declarations_separated {ds : List (String × String)} (are : ∀ d ∈ ds, IsDeclaration d) {sep : String}
    {gap : List Char} (is : sep.toList = ';' :: gap) (gaps : ∀ c ∈ gap, isBlank c = true) :
    declarations (sep.intercalate (ds.map fun d => d.1 ++ ": " ++ d.2)) = ds := by
  rw [declarations, separated_toList, is]
  cases ds with
  | nil => rfl
  | cons d ds => exact declarationsIn_separated are (List.forall_mem_nil _) gaps

theorem declarations_joined {ds : List (String × String)} (are : ∀ d ∈ ds, IsDeclaration d) :
    declarations (";".intercalate (ds.map fun d => d.1 ++ ": " ++ d.2)) = ds :=
  declarations_separated are rfl (List.forall_mem_nil _)

def written (ds : List (String × String)) : String := " ".intercalate (ds.map fun d => d.1 ++ ": " ++ d.2 ++ ";")

theorem css_eq (style : Style) :
    style.css = written (style.filterMap fun x => (valueText? x.1 x.2).map (cssName x.1, ·)) := by
  rw [css, written, List.map_filterMap]
  refine congrArg (" ".intercalate ·) (List.filterMap_congr fun x _ => ?_)
  rw [Option.map_map]
  rfl

theorem declarationsIn_ended {d : String × String} {ds : List (String × String)} (are : ∀ e ∈ d :: ds, IsDeclaration e)
    {blank : List Char} (blanks : ∀ c ∈ blank, isBlank c = true) :
    declarationsIn (blank ++ [' '].intercalate ((d :: ds).map fun e => body e ++ [';'])) = d :: ds := by
  induction ds generalizing d blank with
  | nil =>
      have nothing : declarationsIn [] = [] := rfl
      rw [List.forall_mem_singleton] at are
      rw [List.map_cons, List.map_nil, List.intercalate_singleton, ← List.append_assoc, declarationsIn_append,
        declarationsIn_body are blanks, nothing, List.append_nil]
  | cons next ds ih =>
      rw [List.forall_mem_cons] at are
      have others := ih are.2 (show ∀ c ∈ [' '], isBlank c = true by decide)
      rw [List.map_cons] at others
      rw [List.map_cons, List.map_cons, List.intercalate_cons_cons, List.append_assoc, List.append_assoc,
        List.singleton_append, ← List.append_assoc, declarationsIn_append, declarationsIn_body are.1 blanks, others,
        List.singleton_append]

theorem declarations_written {ds : List (String × String)} (are : ∀ d ∈ ds, IsDeclaration d) :
    declarations (written ds) = ds := by
  have space : " ".toList = [' '] := rfl
  have ended : (ds.map fun d => d.1 ++ ": " ++ d.2 ++ ";").map String.toList = ds.map fun d => body d ++ [';'] := by
    rw [List.map_map]
    refine List.map_congr_left fun d _ => ?_
    rw [Function.comp_apply, String.toList_append, body_toList]
    rfl
  rw [declarations, written, String.toList_intercalate, space, ended]
  cases ds with
  | nil => rfl
  | cons d ds => exact declarationsIn_ended are (List.forall_mem_nil _)

end Declarations

section Names

theorem IsPropertyName.label {name : List Char} (is : IsPropertyName name) : IsLabel name := by
  cases is with
  | custom name marked trimmed plain =>
      refine ⟨?_, trimmed, plain⟩
      rintro rfl
      cases marked
  | words name is =>
      obtain ⟨c, cs, rfl, -, -⟩ := is.cons
      exact ⟨List.cons_ne_nil c cs, Text.trim_solid fun d here => (is.plain d here).2.1,
        fun d here => (is.plain d here).2.2⟩
  | vendor name is =>
      have blankless : ∀ d ∈ '-' :: name, isBlank d = false :=
        List.forall_mem_cons.mpr ⟨by decide, fun d here => (is.plain d here).2.1⟩
      exact ⟨List.cons_ne_nil _ name, Text.trim_solid blankless,
        List.forall_mem_cons.mpr ⟨by decide, fun d here => (is.plain d here).2.2⟩⟩

def rewritten? (entry : String × Json) : Option (String × String) :=
  (valueText? entry.1 entry.2).map (cssName entry.1, ·)

theorem cssName_entryOf (d : String × String) : cssName (entryOf d).1 = respelled d.1 := rfl

theorem rewritten?_entryOf (d : String × String) : rewritten? (entryOf d) = some (respelled d.1, d.2) := rfl

/-- A style sheet of declarations under different names comes back from its style exactly if each of its names has a
spelling in scripts of its own: it is that of a custom property, or has no hyphen in front of it, but for that of the
vendor `ms`, which has to be there. -/
theorem css_parseCss_iff (declared : List (String × String)) (names : ∀ d ∈ declared, IsPropertyName d.1.toList)
    (distinct : (declared.map Prod.fst).Nodup) (contents : ∀ d ∈ declared, IsContent d.2.toList) :
    (parseCss (";".intercalate (declared.map fun d => d.1 ++ ": " ++ d.2))).css =
        " ".intercalate (declared.map fun d => d.1 ++ ": " ++ d.2 ++ ";") ↔
      ∀ d ∈ declared, isKept d.1.toList = true := by
  have are : ∀ d ∈ declared, IsDeclaration d := fun d here => ⟨(names d here).label, contents d here⟩
  rw [parseCss_eq, declarations_joined are, css_eq, ← written]
  change written ((Keyed.ofList (declared.map entryOf)).filterMap rewritten?) = written declared ↔ _
  constructor
  · intro same
    have again : ∀ e ∈ (Keyed.ofList (declared.map entryOf)).filterMap rewritten?,
        ∃ d ∈ declared, e.1 = respelled d.1 ∧ e.2 = d.2 := by
      rintro ⟨name, content⟩ member
      obtain ⟨x, entry, is⟩ := List.mem_filterMap.mp member
      obtain ⟨d, here, rfl⟩ := List.mem_map.mp (mem_of_mem_ofList entry)
      rw [rewritten?_entryOf, Option.some.injEq, Prod.mk.injEq] at is
      exact ⟨d, here, is.1.symm, is.2.symm⟩
    have declared_again : ∀ e ∈ (Keyed.ofList (declared.map entryOf)).filterMap rewritten?, IsDeclaration e := by
      intro e member
      obtain ⟨d, here, name, content⟩ := again e member
      have label := (respelled_cases (names d here)).1.label
      refine ⟨?_, content ▸ contents d here⟩
      rwa [name]
    have listed := declarations_written declared_again
    rw [same, declarations_written are] at listed
    intro e member
    obtain ⟨d, here, name, -⟩ := again e (listed ▸ member)
    rw [name]
    exact (respelled_cases (names d here)).2.1
  · intro kept
    have back : ∀ d ∈ declared, respelled d.1 = d.1 := fun d here => (respelled_cases (names d here)).2.2 (kept d here)
    have keys : (Keyed.keys (declared.map entryOf)).Nodup := by
      have same : (Keyed.keys (declared.map entryOf)).map cssName = declared.map Prod.fst := by
        rw [Keyed.keys, List.map_map, List.map_map]
        refine List.map_congr_left fun d here => ?_
        rw [Function.comp_apply, Function.comp_apply, cssName_entryOf, back d here]
      rw [← same] at distinct
      exact distinct.of_map cssName
    have each : ∀ d ∈ declared, (rewritten? ∘ entryOf) d = some d := fun d here => by
      rw [Function.comp_apply, rewritten?_entryOf, back d here]
    rw [ofList_distinct keys, List.filterMap_map, List.filterMap_congr each, List.filterMap_some]

theorem css_parseCss_kept :
    let declared := [("--Gap", "a:b"), ("z-index", "2"), ("-ms-flex-wrap", "\"x y\"")]
    (∀ d ∈ declared, IsPropertyName d.1.toList) ∧ (declared.map Prod.fst).Nodup ∧ (∀ d ∈ declared, IsContent d.2.toList) ∧
      (parseCss "--Gap: a:b;z-index: 2;-ms-flex-wrap: \"x y\"").css = "--Gap: a:b; z-index: 2; -ms-flex-wrap: \"x y\";" := by
  intro declared
  have names : ∀ d ∈ declared, IsPropertyName d.1.toList := by
    refine List.forall_mem_cons.mpr ⟨.custom _ rfl (by decide +kernel) (by decide +kernel), ?_⟩
    refine List.forall_mem_cons.mpr ⟨.words _ (.of_all (by decide +kernel) (by decide +kernel)), ?_⟩
    exact List.forall_mem_singleton.mpr (.vendor "ms-flex-wrap".toList (.of_all (by decide +kernel) (by decide +kernel)))
  have contents : ∀ d ∈ declared, IsContent d.2.toList := by
    have each : ∀ d ∈ declared, d.2.toList ≠ [] ∧ trim d.2.toList = d.2.toList ∧ ';' ∉ d.2.toList := by decide +kernel
    exact fun d here => ⟨(each d here).1, (each d here).2.1, (each d here).2.2⟩
  have distinct : (declared.map Prod.fst).Nodup := by decide +kernel
  refine ⟨names, distinct, contents, ?_⟩
  exact (css_parseCss_iff declared names distinct contents).mpr (by decide +kernel)

theorem css_parseCss_vendor : (parseCss "-webkit-transform: none").css = "webkit-transform: none;" := by decide +kernel

end Names

section Keys

theorem isContent_of_plain {cs : List Char} (occupied : cs ≠ []) (plain : ∀ c ∈ cs, isBlank c = false ∧ c ≠ ';') :
    IsContent cs :=
  ⟨occupied, Text.trim_solid fun c here => (plain c here).1, fun here => (plain _ here).2 rfl⟩

theorem plain_of_digit {c : Char} (digit : c.isDigit = true) : isBlank c = false ∧ c ≠ ';' := by
  have range : 48 ≤ c.toNat ∧ c.toNat ≤ 57 := Char.isDigit_iff_toNat.mp digit
  refine ⟨?_, ?_⟩
  · simp only [isBlank, Bool.or_eq_false_iff, Bool.and_eq_false_iff, decide_eq_false_iff_not, beq_eq_false_iff_ne]
    omega
  · rintro rfl
    cases digit

theorem plain_of_signed {text : List Char} (signed : Script.Number.Signed text) :
    text ≠ [] ∧ ∀ c ∈ text, isBlank c = false ∧ c ≠ ';' := by
  have plain {text : List Char} (is : Script.Number.Plain text) : text ≠ [] ∧ ∀ c ∈ text, isBlank c = false ∧ c ≠ ';' := by
    cases is with
    | whole c ds all => exact ⟨List.cons_ne_nil c ds, fun d here => plain_of_digit (all d here)⟩
    | point c ds es all more =>
        refine ⟨List.cons_ne_nil c _, fun d here => ?_⟩
        rcases List.mem_append.mp here with here | here
        · exact plain_of_digit (all d here)
        · rcases List.mem_cons.mp here with rfl | here
          · decide
          · exact plain_of_digit (more d here)
  cases signed with
  | plain text is => exact plain is
  | minus text is => exact ⟨List.cons_ne_nil _ text, List.forall_mem_cons.mpr ⟨by decide, (plain is).2⟩⟩

theorem plain_numberText (x : Float) :
    (Value.numberText x).toList ≠ [] ∧ ∀ c ∈ (Value.numberText x).toList, isBlank c = false ∧ c ≠ ';' := by
  have numeral := Value.numeral_text x
  generalize Value.numberText x = text at numeral
  cases numeral with
  | name name is =>
      simp only [List.mem_cons, Prod.mk.injEq, List.not_mem_nil, or_false] at is
      rcases is with ⟨rfl, -⟩ | ⟨rfl, -⟩ <;> decide
  | minus is => decide
  | whole n is => exact plain_of_signed (Script.Number.signed?_int n).1
  | fraction finite is signed => exact plain_of_signed signed

theorem isContent_valueText {name text : String} {value : Json} (strings : ∀ s, value = .string s → IsContent s.toList)
    (is : valueText? name value = some text) : IsContent text.toList := by
  cases value with
  | string s =>
      obtain rfl := Option.some.inj is
      exact strings s rfl
  | number n =>
      obtain ⟨occupied, plain⟩ := plain_numberText n.toFloat
      rw [valueText?, Option.some.injEq] at is
      split at is
      · rw [← is]
        exact isContent_of_plain occupied plain
      · rw [← is, String.toList_append]
        refine isContent_of_plain (List.append_ne_nil_of_left_ne_nil occupied _) fun c here => ?_
        rcases List.mem_append.mp here with here | here
        · exact plain c here
        · have unit : ∀ c ∈ "px".toList, isBlank c = false ∧ c ≠ ';' := by decide
          exact unit c here
  | bool b =>
      obtain rfl := Option.some.inj is
      cases b <;> exact isContent_of_plain (by decide) (by decide)
  | null => cases is
  | array items => cases is
  | object members => cases is

theorem solid_of_small {c : Char} (small : c.isLower = true) : isBlank c = false ∧ c ∉ [':', ';'] := by
  have range : 97 ≤ c.toNat ∧ c.toNat ≤ 122 := by
    rw [Char.isLower, Bool.and_eq_true, decide_eq_true_eq, decide_eq_true_eq] at small
    exact small
  have others : ∀ d ∈ [':', ';'], d.isLower = false := by decide
  refine ⟨?_, fun here => Bool.false_ne_true ((others c here).symm.trans small)⟩
  simp only [isBlank, Bool.or_eq_false_iff, Bool.and_eq_false_iff, decide_eq_false_iff_not, beq_eq_false_iff_ne]
  omega

theorem mem_hyphenate {cs : List Char} {d : Char} (here : d ∈ hyphenate cs) : d ∈ cs ∨ d = '-' ∨ d.isLower = true := by
  obtain ⟨c, member, here⟩ := List.mem_flatMap.mp here
  split at here
  next capital =>
    rcases List.mem_cons.mp here with rfl | here
    · exact .inr (.inl rfl)
    · rw [List.mem_singleton.mp here]
      exact .inr (.inr (small_toLower capital))
  next => exact .inl (List.mem_singleton.mp here ▸ member)

theorem getLast?_hyphenate {cs : List Char} {d : Char} (last : d ∈ (hyphenate cs).getLast?) :
    d ∈ cs.getLast? ∨ d.isLower = true := by
  rcases List.eq_nil_or_concat' cs with rfl | ⟨before, c, rfl⟩
  · cases last
  · rw [hyphenate, List.flatMap_append, List.flatMap_singleton] at last
    rw [List.getLast?_concat]
    split at last
    next capital =>
      rw [List.getLast?_append] at last
      obtain rfl : c.toLower = d := Option.some.inj last
      exact .inr (small_toLower capital)
    next =>
      rw [List.getLast?_append] at last
      exact .inl last

theorem IsKey.cons {key : List Char} (is : IsKey key) :
    isCustom key = true ∨ ∃ c cs, key = c :: cs ∧ c ≠ '-' ∧ c.isUpper = false ∧ '-' ∉ key := by
  rcases is.spelled with marked | ⟨occupied, single, small⟩
  · exact .inl marked
  · obtain ⟨c, cs, rfl⟩ := List.exists_cons_of_ne_nil occupied
    exact .inr ⟨c, cs, rfl, fun same => single (same ▸ List.mem_cons_self), small c rfl, single⟩

theorem IsKey.label {key : String} (is : IsKey key.toList) : IsLabel (cssName key).toList := by
  rw [cssName_toList]
  generalize key.toList = key at is
  obtain ⟨first, last⟩ := Text.trim_eq_self_iff.mp is.trimmed
  rcases is.cons with marked | ⟨c, cs, rfl, other, small, -⟩
  · rw [if_pos marked]
    refine ⟨?_, is.trimmed, is.plain⟩
    rintro rfl
    cases marked
  rw [isCustom_cons other, if_neg Bool.false_ne_true]
  have plain : ∀ d ∈ hyphenate (c :: cs), d ∉ [':', ';'] := by
    intro d here
    rcases mem_hyphenate here with here | rfl | letter
    · exact is.plain d here
    · decide
    · exact (solid_of_small letter).2
  have ends : ∀ d ∈ (hyphenate (c :: cs)).getLast?, isBlank d = false := by
    intro d here
    rcases getLast?_hyphenate here with here | letter
    · exact last d here
    · exact (solid_of_small letter).1
  rw [hyphenate_cons small] at plain ends ⊢
  rw [vendored]
  split
  · refine ⟨List.cons_ne_nil _ _, Text.trim_eq_self_iff.mpr ⟨fun d here => ?_, fun d here => ?_⟩, ?_⟩
    · rw [← Option.some.inj here]
      decide
    · rw [List.getLast?_cons_cons] at here
      exact ends d here
    · exact List.forall_mem_cons.mpr ⟨by decide, plain⟩
  · exact ⟨List.cons_ne_nil _ _, Text.trim_eq_self_iff.mpr ⟨fun d here => first d here, ends⟩, plain⟩

def left? (entry : String × Json) : Option (String × Json) :=
  (valueText? entry.1 entry.2).map fun text => (entry.1, .string text)

theorem keys_left (style : Style) : (Keyed.keys (style.filterMap left?)).Sublist (Keyed.keys style) := by
  induction style with
  | nil => exact .slnil
  | cons entry style ih =>
      rw [List.filterMap_cons, left?]
      cases valueText? entry.1 entry.2 with
      | none => exact ih.cons entry.1
      | some text => exact ih.cons_cons entry.1

theorem rewritten?_cases {entry : String × Json} (key : IsKey entry.1.toList) :
    (rewritten? entry).map entryOf = left? entry := by
  rw [rewritten?, left?, Option.map_map]
  refine congrArg (fun f => (valueText? entry.1 entry.2).map f) (funext fun text => ?_)
  rw [Function.comp_apply, entryOf, scriptName_cssName key]

theorem parseCss_css_of_keys {style : Style} (distinct : (Keyed.keys style).Nodup) (keys : ∀ x ∈ style, IsKey x.1.toList)
    (strings : ∀ key s, (key, .string s) ∈ style → IsContent s.toList) :
    parseCss style.css = style.filterMap left? := by
  have are : ∀ d ∈ style.filterMap rewritten?, IsDeclaration d := by
    intro d member
    obtain ⟨⟨key, value⟩, here, is⟩ := List.mem_filterMap.mp member
    obtain ⟨text, shown, rfl⟩ := Option.map_eq_some_iff.mp is
    refine ⟨(keys _ here).label, isContent_valueText (fun s is => ?_) shown⟩
    subst is
    exact strings key s here
  have each : (style.filterMap rewritten?).map entryOf = style.filterMap left? := by
    rw [List.map_filterMap]
    exact List.filterMap_congr fun x here => rewritten?_cases (keys x here)
  have css : style.css = written (style.filterMap rewritten?) := css_eq style
  rw [parseCss_eq, css, declarations_written are, each, ofList_distinct ((keys_left style).nodup distinct)]

theorem mem_camel {capital : Bool} {cs : List Char} {d : Char} (here : d ∈ camel capital cs) :
    (d ∈ cs ∧ d ≠ '-') ∨ d.isUpper = true := by
  induction cs generalizing capital with
  | nil => cases here
  | cons c cs ih =>
      rw [camel] at here
      split at here
      next => exact (ih here).imp_left fun behind => ⟨List.mem_cons_of_mem c behind.1, behind.2⟩
      next other =>
        rcases List.mem_cons.mp here with rfl | here
        · split
          next =>
            cases small : c.isLower with
            | true => exact .inr (capital_toUpper small)
            | false =>
                rw [Char.toUpper_eq_of_not_isLower (by simp [small])]
                exact .inl ⟨List.mem_cons_self, other⟩
          next => exact .inl ⟨List.mem_cons_self, other⟩
        · exact (ih here).imp_left fun behind => ⟨List.mem_cons_of_mem c behind.1, behind.2⟩

theorem scriptName_plain (name : List Char) (plain : isCustom name = false) : ∃ cs, scriptName name = camel false cs ∧
    ∀ c ∈ cs, c ∈ name := by
  rw [scriptName, if_neg (by simp [plain])]
  split
  next rest vendor =>
    refine ⟨_, rfl, fun c here => ?_⟩
    rw [Text.eq_append_of_after? vendor]
    exact List.mem_cons_of_mem '-' here
  next => exact ⟨_, rfl, fun c here => (List.dropWhile_suffix _).subset here⟩

theorem mem_of_mem_trim {cs : List Char} {c : Char} (here : c ∈ trim cs) : c ∈ cs :=
  (List.dropWhile_suffix _).subset (Text.mem_of_mem_dropEndWhile here)

theorem plain_of_mem_declarationsIn {text : List Char} {d : String × String} (member : d ∈ declarationsIn text) :
    ∀ c ∈ d.1.toList, c ∉ [':', ';'] := by
  obtain ⟨piece, inside, read⟩ := List.mem_filterMap.mp member
  obtain ⟨name, content, cut, is, -⟩ := exists_of_declaration? read
  intro c here
  have passed : c ∈ name := mem_of_mem_trim (is ▸ here)
  have colon : ':' ∉ name := fun found => by
    obtain ⟨before, behind, rfl⟩ := List.append_of_mem found
    exact Text.not_infix_of_cutFirst? (by decide) cut ⟨before, behind, by simp⟩
  have semicolon : c ≠ ';' := fun same => by
    have within : c ∈ piece := Text.eq_append_of_cutFirst? cut ▸ List.mem_append_left _ passed
    exact of_decide_eq_false (Text.not_of_mem_splitOn inside within) same
  simp only [List.mem_cons, List.not_mem_nil, or_false, not_or]
  exact ⟨fun same => colon (same ▸ passed), semicolon⟩

theorem mem_keys_parseCss {text key : String} (member : key ∈ Keyed.keys (parseCss text)) :
    ∃ d ∈ declarations text, key.toList = scriptName d.1.toList := by
  rw [parseCss_eq] at member
  obtain ⟨x, entry, rfl⟩ := List.mem_map.mp member
  obtain ⟨d, here, rfl⟩ := List.mem_map.mp (mem_of_mem_ofList entry)
  exact ⟨d, here, String.toList_ofList⟩

theorem custom_of_hyphen {text key : String} (member : key ∈ Keyed.keys (parseCss text)) (hyphen : '-' ∈ key.toList) :
    isCustom key.toList = true := by
  obtain ⟨d, -, is⟩ := mem_keys_parseCss member
  rw [is] at hyphen ⊢
  cases marked : isCustom d.1.toList with
  | true => rwa [scriptName, if_pos marked]
  | false =>
      obtain ⟨cs, same, -⟩ := scriptName_plain _ marked
      rw [same] at hyphen
      rcases mem_camel hyphen with ⟨-, other⟩ | capital
      · exact absurd rfl other
      · cases capital

theorem plain_scriptName {name : List Char} (plain : ∀ c ∈ name, c ∉ [':', ';']) : ∀ c ∈ scriptName name, c ∉ [':', ';'] := by
  intro c here
  cases marked : isCustom name with
  | true =>
      rw [scriptName, if_pos marked] at here
      exact plain c here
  | false =>
      obtain ⟨cs, same, within⟩ := scriptName_plain _ marked
      rw [same] at here
      rcases mem_camel here with ⟨inside, -⟩ | capital
      · exact plain c (within c inside)
      · have others : ∀ d ∈ [':', ';'], d.isUpper = false := by decide
        exact fun here => Bool.false_ne_true ((others c here).symm.trans capital)

theorem name_of_declarationsIn {name content : List Char} {d : String × String} (label : ∀ c ∈ name, c ∉ [':', ';'])
    (whole : ';' ∉ content) (member : d ∈ declarationsIn (name ++ ':' :: content ++ [';'])) : d.1.toList = trim name := by
  have colon : ':' ∉ name := fun here => label _ here (by decide)
  have single : ∀ c ∈ name ++ ':' :: content, decide (c = ';') = false := by
    refine fun c here => decide_eq_false fun same => ?_
    rw [same, List.mem_append, List.mem_cons] at here
    rcases here with here | here | here
    · exact label _ here (by decide)
    · cases here
    · exact whole here
  have nothing : declarationsIn [] = [] := rfl
  rw [declarationsIn_append, nothing, List.append_nil, declarationsIn, Text.splitOn_of_none single] at member
  obtain ⟨piece, inside, read⟩ := List.mem_filterMap.mp member
  rw [List.mem_singleton.mp inside] at read
  obtain ⟨found, behind, cut, is, -⟩ := exists_of_declaration? read
  rw [Text.cutFirst?_char _ colon, Option.some.injEq, Prod.mk.injEq] at cut
  rw [is, cut.1]

theorem css_one (key content : String) :
    (css [(key, .string content)]).toList = (cssName key).toList ++ ':' :: ' ' :: content.toList ++ [';'] := by
  have colon : ": ".toList = [':', ' '] := rfl
  have semicolon : ";".toList = [';'] := rfl
  have text : css [(key, .string content)] = cssName key ++ ": " ++ content ++ ";" := rfl
  rw [text, String.toList_append, String.toList_append, String.toList_append, colon, semicolon, List.append_assoc (cssName key).toList]
  rfl

theorem capital_not_mem {key content : String} (is : IsContent content.toList)
    (capital : ∃ c ∈ key.toList.head?, c.isUpper = true) :
    key ∉ Keyed.keys (parseCss (css [(key, .string content)])) := by
  intro member
  obtain ⟨c, first, capital⟩ := capital
  obtain ⟨d, here, same⟩ := mem_keys_parseCss member
  have plain : ∀ c ∈ key.toList, c ∉ [':', ';'] := same ▸ plain_scriptName (plain_of_mem_declarationsIn here)
  have other : c ≠ '-' := by
    rintro rfl
    cases capital
  obtain ⟨cs, chars⟩ : ∃ cs, key.toList = c :: cs := ⟨_, List.eq_cons_of_mem_head? first⟩
  have css_key : (cssName key).toList = '-' :: c.toLower :: hyphenate cs := by
    rw [cssName_toList, chars, isCustom_cons other, if_neg Bool.false_ne_true, hyphenate_capital capital]
    rfl
  have label : ∀ d ∈ (cssName key).toList, d ∉ [':', ';'] := by
    intro d here
    rw [css_key, ← hyphenate_capital capital, ← chars] at here
    rcases mem_hyphenate here with here | rfl | letter
    · exact plain d here
    · decide
    · exact (solid_of_small letter).2
  have whole : ';' ∉ ' ' :: content.toList := List.not_mem_cons_of_ne_of_not_mem (by decide) is.whole
  rw [declarations, css_one] at here
  have solid : isBlank c.toLower = false := (solid_of_small (small_toLower capital)).1
  have trimmed : trim ('-' :: c.toLower :: hyphenate cs) = '-' :: c.toLower :: Text.dropEndWhile isBlank (hyphenate cs) := by
    rw [trim, Text.trimStart, List.dropWhile_cons_of_neg (by decide)]
    exact Text.dropEndWhile_append solid ['-'] (hyphenate cs)
  have name := name_of_declarationsIn label whole here
  rw [css_key, trimmed] at name
  rw [name, scriptName_hyphen (toLower_ne_hyphen capital), camel, if_neg (toLower_ne_hyphen capital),
    if_neg Bool.false_ne_true, chars] at same
  have letter := small_toLower capital
  rw [← (List.cons.inj same).1] at letter
  exact Char.not_isLower_of_isUpper capital letter

/-- A style comes back from its text, each value as that text which a style sheet has for it, if each of its keys has a
spelling of its own in style sheets: it is that of a custom property, or has neither hyphens nor a capital at its head.
No other key is found again. -/
theorem parseCss_css :
    (∀ style : Style, (Keyed.keys style).Nodup → (∀ x ∈ style, IsKey x.1.toList) →
      (∀ key s, (key, .string s) ∈ style → IsContent s.toList) →
      parseCss style.css = style.filterMap fun (key, value) => (valueText? key value).map fun text => (key, .string text)) ∧
    ∀ key content : String, IsContent content.toList →
      ('-' ∈ key.toList ∧ isCustom key.toList = false ∨ ∃ c ∈ key.toList.head?, c.isUpper = true) →
      key ∉ Keyed.keys (parseCss (css [(key, .string content)])) := by
  refine ⟨fun style distinct keys strings => parseCss_css_of_keys distinct keys strings, ?_⟩
  rintro key content is (⟨hyphen, plain⟩ | capital)
  · exact fun member => Bool.false_ne_true (plain.symm.trans (custom_of_hyphen member hyphen))
  · exact capital_not_mem is capital

theorem parseCss_css_mixed :
    parseCss (css [("--Gap", .string "4px"), ("marginTop", .number (.int 10)), ("msFlexGrow", .number (.int 2)),
        ("hidden", .bool true), ("color", .null)]) =
      [("--Gap", .string "4px"), ("marginTop", .string "10px"), ("msFlexGrow", .string "2"), ("hidden", .string "true")] ∧
    "WebkitTransform" ∉ Keyed.keys (parseCss (css [("WebkitTransform", .string "none")])) := by
  have content : IsContent "4px".toList ∧ IsContent "none".toList :=
    ⟨⟨by decide, by decide, by decide⟩, by decide, by decide, by decide⟩
  refine ⟨(parseCss_css.1 _ (by decide +kernel) ?_ ?_).trans ?_, ?_⟩
  · have gap : IsKey "--Gap".toList := ⟨by decide, by decide, .inl rfl⟩
    have others : ∀ key ∈ ["marginTop", "msFlexGrow", "hidden", "color"], IsKey key.toList := by
      have each : ∀ key ∈ ["marginTop", "msFlexGrow", "hidden", "color"], (∀ c ∈ key.toList, c ∉ [':', ';']) ∧
          trim key.toList = key.toList ∧ key.toList ≠ [] ∧ '-' ∉ key.toList ∧ key.toList.head?.all (!·.isUpper) = true := by
        decide +kernel
      intro key here
      obtain ⟨plain, trimmed, occupied, single, small⟩ := each key here
      exact ⟨plain, trimmed, .inr ⟨occupied, single, fun c first => by simpa using (Option.all_eq_true _ _).mp small c first⟩⟩
    refine List.forall_mem_cons.mpr ⟨gap, fun x here => others x.1 ?_⟩
    exact List.mem_map_of_mem (f := Prod.fst) here
  · intro key s here
    simp only [List.mem_cons, Prod.mk.injEq, Json.string.injEq, reduceCtorEq, and_false, List.not_mem_nil,
      or_false] at here
    rw [here.2]
    exact content.1
  · have top : valueText? "marginTop" (.number (.int 10)) = some "10px" := by decide +kernel
    have grow : valueText? "msFlexGrow" (.number (.int 2)) = some "2" := by decide +kernel
    simp only [List.filterMap_cons, List.filterMap_nil, top, grow]
    rfl
  · exact parseCss_css.2 _ _ content.2 (.inr ⟨'W', rfl, rfl⟩)

end Keys

end Prerender.Style
