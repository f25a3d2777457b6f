import Prerender.Proofs.Import.Layout
import Prerender.Proofs.Script.Spelled
import Prerender.Script.Grammar.Module

set_option autoImplicit false

namespace Prerender.Import

open Script (Leads Lexeme Node Passage Solid Spells State)
open Script.Lexeme (Parts)
open Script.Parse
open Text (isBlank isIdentifierPart isIdentifierStart join)

-- What an entry of an import declaration binds. All exports at once are told from a name by their star.
def entryName? (source : List Char) : Node → Option Name
  | .mk (.binding bound) _ _ => some ⟨"default", bound⟩
  | .mk .specifier span [.mk (.binding bound) _ _] =>
      some ⟨if source[span.start]? = some '*' then "*" else bound, bound⟩
  | .mk .specifier _ [.mk (.name exported) _ _, .mk (.binding bound) _ _] => some ⟨exported, bound⟩
  | .mk .specifier _ [.mk (.string exported) _ _, .mk (.binding bound) _ _] => some ⟨exported, bound⟩
  | _ => none

theorem isName_cases {name : List Char} (is : isName name = true) : ∃ c cs, name = c :: cs ∧
    isIdentifierStart c = true ∧ ∀ d ∈ cs, isIdentifierPart d = true := by
  cases name with
  | nil => cases is
  | cons c cs =>
      obtain ⟨start, all⟩ := Bool.and_eq_true_iff.mp is
      exact ⟨c, cs, rfl, start, List.all_eq_true.mp all⟩

theorem solid_of_start {c : Char} (start : isIdentifierStart c = true) (cs : List Char) : Solid (c :: cs) := by
  have blanks : ∀ n ∈ 0x200B :: 0xFEFF :: Text.blankCodes, isIdentifierStart (Char.ofNat n) = false := by decide +kernel
  have others : ∀ d ∈ ['\n', '\r', '\u2028', '\u2029', '/', '<', '-'], isIdentifierStart d = false := by decide +kernel
  have other {d : Char} (here : d ∈ ['\n', '\r', '\u2028', '\u2029', '/', '<', '-']) : c ≠ d := by
    rintro rfl
    rw [others c here] at start
    cases start
  refine .cons ⟨by simp [Script.isLineEnd, other], ?_, by simp [other]⟩ cs
  rw [← Bool.not_eq_true]
  intro blank
  have code : c.toNat ∈ 0x200B :: 0xFEFF :: Text.blankCodes := by
    simp only [Script.isBlank, Bool.or_eq_true, Bool.and_eq_true, decide_eq_true_eq, beq_iff_eq] at blank
    simp only [Text.blankCodes, List.mem_append, List.mem_range'_1, List.mem_cons, List.not_mem_nil, or_false]
    omega
  rw [← Char.ofNat_toNat c, blanks c.toNat code] at start
  cases start

theorem parts_of_blank {c : Char} (blank : isBlank c = true) (cs : List Char) : Parts (c :: cs) := by
  rw [Parts, List.head?_cons, Option.any_some, Bool.or_eq_false_iff, beq_eq_false_iff_ne, ← Bool.not_eq_true]
  have other (part : isIdentifierPart c = true ∨ c = '\\') : False := by
    rw [(isPlain_iff.mp (isPlain_of_part part)).1] at blank
    cases blank
  exact ⟨fun part => other (.inl part), fun slash => other (.inr slash)⟩

theorem parts_gap {rest : List Char} (gap : Gap) (parts : Parts rest) : Parts (gap.text ++ rest) := by
  obtain ⟨text, blank⟩ := gap
  cases text with
  | nil => exact parts
  | cons c cs => exact parts_of_blank (blank c List.mem_cons_self) _

theorem parts_space (space : Space) (rest : List Char) : Parts (space.text ++ rest) := by
  obtain ⟨c, cs, is⟩ := List.exists_cons_of_ne_nil space.some
  rw [is]
  exact parts_of_blank (space.blank c (by rw [is]; exact List.mem_cons_self)) _

variable {gap : Gap} {rest : List Char}

theorem spells_name {name : List Char} (gap : Gap) (is : isName name = true) (parts : Parts rest) :
    Spells (gap.text ++ (name ++ rest)) name (.word (String.ofList name) false) rest := by
  obtain ⟨c, cs, rfl, start, all⟩ := isName_cases is
  exact ⟨⟨gap.text, gap.blank, rfl⟩, solid_of_start start _, Lexeme.read_identifier start all parts⟩

theorem spells_lone {c : Char} (gap : Gap) (lone : c ∈ Lexeme.lone) (rest : List Char) :
    Spells (gap.text ++ c :: rest) [c] (.symbol (String.singleton c)) rest := by
  have solid : ∀ c ∈ Lexeme.lone, Script.isLineEnd c = false ∧ Script.isBlank c = false ∧ c ∉ ['/', '<', '-'] := by decide
  exact ⟨⟨gap.text, gap.blank, rfl⟩, .cons (solid c lone) rest, Lexeme.read_lone lone rest⟩

theorem spells_star (gap : Gap) (other : ∀ c ∈ rest.head?, c ∉ ['*', '=']) :
    Spells (gap.text ++ '*' :: rest) ['*'] (.symbol "*") rest := by
  refine ⟨⟨gap.text, gap.blank, rfl⟩, .cons (by decide) rest, ?_⟩
  cases rest with
  | nil => rfl
  | cons c rest =>
      have differ := other c rfl
      simp only [List.mem_cons, List.not_mem_nil, or_false, not_or] at differ
      have lexed : Lexeme.read ('*' :: c :: rest) = Lexeme.symbolOf Lexeme.symbols ('*' :: c :: rest) := rfl
      have found : Lexeme.symbols.find? (fun s => Text.startsWith s.toList ('*' :: c :: rest)) = some "*" := by
        simp [Lexeme.symbols, Text.startsWith, Text.after?, Ne.symm differ.1, Ne.symm differ.2]
      rw [List.singleton_append, lexed, Lexeme.symbolOf]
      · rw [found]
        rfl
      · rintro d ds same
        cases same

theorem spells_string {quote : Char} {specifier : List Char} (gap : Gap) (quoted : isQuote quote = true)
    (plain : ∀ c ∈ specifier, isQuote c = false ∧ c ∉ ['\\', '\n', '\r']) (rest : List Char) :
    Spells (gap.text ++ quote :: (specifier ++ quote :: rest)) (quote :: (specifier ++ [quote]))
      (.string (String.ofList specifier)) rest := by
  have whole : quote :: (specifier ++ [quote]) ++ rest = quote :: (specifier ++ quote :: rest) := by simp
  have mark := mem_quotes quoted
  have solid : ∀ c ∈ ['"', '\''], Script.isLineEnd c = false ∧ Script.isBlank c = false ∧ c ∉ ['/', '<', '-'] := by decide
  have inside : ∀ c ∈ specifier, c ∉ [quote, '\\', '\n', '\r'] := by
    intro c here marked
    obtain ⟨unquoted, other⟩ := plain c here
    rcases List.mem_cons.mp marked with rfl | marked
    · rw [quoted] at unquoted
      cases unquoted
    · exact other marked
  refine ⟨⟨gap.text, gap.blank, by rw [whole]⟩, .cons (solid quote mark) _, ?_⟩
  rw [whole, Lexeme.read_string mark inside]
  simp

section
variable {src : Passage} {cs word : List Char}

theorem leads_bindingName {name : String} {escaped : Bool} (spells : Spells cs word (.word name escaped) rest) :
    Leads (State.Before src cs) Script.Pattern.bindingName fun n s =>
      (∃ span, n = .mk (.binding name) span []) ∧ s.Before src rest := by
  refine before_token spells fun t lexeme => ?_
  rw [lexeme]
  refine .guard fun _ => .look looks_context fun c => ?_
  exact .bind (before_flawIf _) fun _ => before_single spells

theorem leads_entryName {name : String} {escaped : Bool} (spells : Spells cs word (.word name escaped) rest) :
    Leads (State.Before src cs) Script.ModuleSyntax.entryName fun n s =>
      (∃ span, n = .mk (.name name) span []) ∧ s.Before src rest := by
  refine before_token spells fun t lexeme => ?_
  rw [lexeme]
  refine before_token spells fun t lexeme => ?_
  rw [lexeme]
  exact before_single spells

def Closes (rest : List Char) : Prop := ∃ (gap : Gap) (c : Char) (more : List Char),
  c ∈ [',', '\x7d'] ∧ rest = gap.text ++ c :: more

theorem Closes.parts (closes : Closes rest) : Parts rest := by
  obtain ⟨gap, c, more, mark, rfl⟩ := closes
  have others : ∀ c ∈ [',', '\x7d'], (isIdentifierPart c || c == '\\') = false := by decide
  exact parts_gap gap (others c mark)

theorem Closes.spells (closes : Closes rest) : ∃ word c more, c ∈ [',', '\x7d'] ∧
    Spells rest word (.symbol (String.singleton c)) more := by
  obtain ⟨gap, c, more, mark, rfl⟩ := closes
  have lone : ∀ c ∈ [',', '\x7d'], c ∈ Lexeme.lone := by decide
  exact ⟨[c], c, more, mark, spells_lone gap (lone c mark) more⟩

theorem not_star_of_isName {name : List Char} (is : isName name = true) (rest : List Char) :
    (name ++ rest).head? ≠ some '*' := by
  obtain ⟨c, cs, rfl, start, -⟩ := isName_cases is
  intro star
  have same : c = '*' := Option.some.inj star
  rw [same] at start
  cases start

theorem Entry.spells (gap : Gap) {entry : Entry} (is : entry.IsScript) (closes : Closes rest) :
    Spells (gap.text ++ (entry.text ++ rest)) entry.exported.text (.word (String.ofList entry.exported.text) false)
      (entry.rename.elim [] Alias.text ++ rest) := by
  have text : entry.text ++ rest = entry.exported.text ++ (entry.rename.elim [] Alias.text ++ rest) := by
    simp [Entry.text, is.unmarked]
  rw [text]
  refine spells_name gap is.exported ?_
  cases entry.rename with
  | none => exact closes.parts
  | some rename =>
      rw [Option.elim_some, Alias.text, List.append_assoc]
      exact parts_space rename.before _

theorem leads_importEntry (untyped : src.dialect.typed = false) (gap : Gap) {entry : Entry} (is : entry.IsScript)
    (closes : Closes rest) :
    Leads (State.Before src (gap.text ++ (entry.text ++ rest))) Script.ModuleSyntax.importEntry fun n s =>
      entryName? src.text n = entry.binding? ∧ s.Before src rest := by
  have spells := Entry.spells gap is closes
  refine .here fun s before => .position (.weaken (fun _ same => same ▸ before) ?_)
  refine .bind (before_lookahead (before_typed untyped rfl)) fun typed => .given ?_
  rintro rfl
  refine .otherwise ?_
  obtain ⟨mark, exported, rename, value⟩ := entry
  obtain ⟨rfl, exported_is, bound_is⟩ := is
  cases rename with
  | none =>
      obtain ⟨word, c, more, mark, next⟩ := closes.spells
      refine before_peek spells next fun t lexeme => .ite (fun named => ?_) fun _ => ?_
      · rw [Script.Token.is_eq lexeme] at named
        have others : ∀ c ∈ [',', '\x7d'], ((Lexeme.symbol (String.singleton c)).spelling == some "as") = false := by decide
        rw [others c mark] at named
        cases named
      · refine .bind (leads_bindingName spells) fun bound => .given ?_
        rintro ⟨span, rfl⟩
        refine (before_node _ _ _).widen ?_
        rintro n s' ⟨⟨stop, rfl⟩, after⟩
        refine ⟨?_, after⟩
        have other := not_star_of_isName exported_is rest
        have first := before.first spells
        rw [Option.elim_none, List.nil_append] at first
        rw [← first] at other
        simp [entryName?, other, Entry.binding?]
  | some rename =>
      have behind : Alias.text rename ++ rest =
          rename.before.text ++ (['a', 's'] ++ (rename.behind.text ++ (rename.name.text ++ rest))) := by
        simp [Alias.text]
      rw [Option.elim_some, behind] at spells
      have as_name : isName ['a', 's'] = true := by decide
      have as_spells := spells_name rename.before.toGap as_name (parts_space rename.behind (rename.name.text ++ rest))
      have bound_spells := spells_name rename.behind.toGap (bound_is rename rfl) closes.parts
      refine before_peek spells as_spells fun t lexeme => .ite (fun _ => ?_) fun other => ?_
      · refine .bind (leads_entryName spells) fun name => .given ?_
        rintro ⟨name_span, rfl⟩
        refine .bind (before_expect as_spells) fun _ => .bind (leads_bindingName bound_spells) fun bound => .given ?_
        rintro ⟨bound_span, rfl⟩
        refine (before_node _ _ _).widen ?_
        rintro n s' ⟨⟨stop, rfl⟩, after⟩
        exact ⟨rfl, after⟩
      · rw [Script.Token.is_eq lexeme] at other
        exact absurd rfl other

def listed (entries : List (Padded Entry)) (last : Option Gap) (rest : List Char) : List Char :=
  join [','] (entries.map (Padded.text Entry.text) ++ last.toList.map Gap.text) ++ '\x7d' :: rest

theorem listed_nil (last : Option Gap) (rest : List Char) :
    ∃ gap : Gap, listed [] last rest = gap.text ++ '\x7d' :: rest := by
  cases last with
  | none => exact ⟨⟨[], List.forall_mem_nil _⟩, rfl⟩
  | some gap => exact ⟨gap, rfl⟩

theorem listed_cons (p : Padded Entry) (entries : List (Padded Entry)) (last : Option Gap) (rest : List Char) :
    ∃ behind, listed (p :: entries) last rest = p.before.text ++ (p.item.text ++ behind) ∧
      (entries = [] ∧ behind = p.behind.text ++ '\x7d' :: rest ∨
        behind = p.behind.text ++ ',' :: listed entries last rest) := by
  cases pieces : entries.map (Padded.text Entry.text) ++ last.toList.map Gap.text with
  | nil =>
      refine ⟨_, ?_, .inl ⟨List.map_eq_nil_iff.mp (List.append_eq_nil_iff.mp pieces).1, rfl⟩⟩
      simp [listed, pieces, join, Padded.text]
  | cons piece pieces' =>
      refine ⟨_, ?_, .inr rfl⟩
      simp [listed, pieces, join, Padded.text]

theorem ofList_ne {name : List Char} (is : isName name = true) {text : String} (other : isName text.toList = false) :
    String.ofList name ≠ text := by
  rintro rfl
  rw [String.toList_ofList, is] at other
  cases other

theorem before_closing {β : Type} {f : Bool → Script.Parse β} {post : β → State → Prop} {entries : List (Padded Entry)}
    {last : Option Gap} (are : ∀ p ∈ entries, p.item.IsScript)
    (then_ : Leads (State.Before src (listed entries last rest)) (f entries.isEmpty) post) :
    Leads (State.Before src (listed entries last rest)) (sees "\x7d" >>= f) post := by
  cases entries with
  | nil =>
      obtain ⟨gap, is⟩ := listed_nil last rest
      rw [is] at then_ ⊢
      exact before_sees (spells_lone gap (by decide) rest) then_
  | cons p entries =>
      obtain ⟨behind, is, closes⟩ := listed_cons p entries last rest
      have closes : Closes behind := by
        rcases closes with ⟨-, rfl⟩ | rfl
        · exact ⟨p.behind, '\x7d', rest, by decide, rfl⟩
        · exact ⟨p.behind, ',', _, by decide, rfl⟩
      have first := are p List.mem_cons_self
      have other : some (String.ofList p.item.exported.text) ≠ some "\x7d" :=
        fun same => ofList_ne first.exported (by decide) (Option.some.inj same)
      rw [is] at then_ ⊢
      refine before_sees (Entry.spells p.before first closes) ?_
      rwa [Lexeme.spelling, beq_eq_false_iff_ne.mpr other]

-- The induction is on the entries that are left; the reading may end early only by failing.
theorem leads_commasCounted (untyped : src.dialect.typed = false) {entries : List (Padded Entry)} {last : Option Gap}
    (are : ∀ p ∈ entries, p.item.IsScript) (n : Nat) :
    Leads (State.Before src (listed entries last rest)) (commasCounted "\x7d" Script.ModuleSyntax.importEntry n)
      fun found s => found.1.map (entryName? src.text) = entries.map (·.item.binding?) ∧
        ∃ gap : Gap, s.Before src (gap.text ++ '\x7d' :: rest) := by
  induction entries generalizing n with
  | nil =>
      cases n with
      | zero => exact .failure
      | succ n =>
          refine before_closing are (.ite (fun _ => .pure fun s before => ⟨rfl, ?_⟩) fun more => absurd rfl more)
          obtain ⟨gap, is⟩ := listed_nil last rest
          exact ⟨gap, is ▸ before⟩
  | cons p entries ih =>
      cases n with
      | zero => exact .failure
      | succ n =>
          obtain ⟨first, others⟩ := List.forall_mem_cons.mp are
          refine before_closing are (.otherwise ?_)
          obtain ⟨behind, is, closes⟩ := listed_cons p entries last rest
          rw [is]
          rcases closes with ⟨rfl, rfl⟩ | rfl
          · have closes : Closes (p.behind.text ++ '\x7d' :: rest) := ⟨p.behind, '\x7d', rest, by decide, rfl⟩
            refine .bind (leads_importEntry untyped p.before first closes) fun x => .given fun met => ?_
            refine before_keep (spells_lone p.behind (by decide) rest) (by decide) (.pure fun s before => ?_)
            exact ⟨congrArg ([·]) met, p.behind, before⟩
          · have closes : Closes (p.behind.text ++ ',' :: listed entries last rest) := ⟨p.behind, ',', _, by decide, rfl⟩
            refine .bind (leads_importEntry untyped p.before first closes) fun x => .given fun met => ?_
            refine before_eat (spells_lone p.behind (by decide) _) rfl ?_
            refine before_closing others (.ite (fun none => ?_) fun _ => ?_)
            · obtain rfl := List.isEmpty_iff.mp none
              refine .pure fun s before => ⟨congrArg ([·]) met, ?_⟩
              obtain ⟨gap, is⟩ := listed_nil last rest
              exact ⟨gap, is ▸ before⟩
            · refine .bind (ih others n) fun found => .given fun met_all => .pure fun s before => ⟨?_, before⟩
              rw [List.map_cons, List.map_cons, met, met_all]

end

end Prerender.Import
