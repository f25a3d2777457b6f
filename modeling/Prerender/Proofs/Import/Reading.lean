import Prerender.Proofs.Import.Entries
import Prerender.Proofs.Script.Grammar.Module

set_option autoImplicit false

namespace Prerender.Import

open Script (Leads Lexeme Node Passage Spells State)
open Script.Lexeme (Parts)
open Script.Parse
open Text (isBlank isIdentifierPart isIdentifierStart join trim)

variable {rest : List Char}

section
variable {src : Passage} {cs word : List Char}

theorem Whole.spells (gap : Gap) (whole : Whole) (rest : List Char) : Spells (gap.text ++ (whole.text ++ rest)) ['*']
    (.symbol "*") (whole.gap.text ++ (['a', 's'] ++ (whole.space.text ++ (whole.name.text ++ rest)))) := by
  have text : whole.text ++ rest =
      '*' :: (whole.gap.text ++ (['a', 's'] ++ (whole.space.text ++ (whole.name.text ++ rest)))) := by
    simp [Whole.text]
  rw [text]
  refine spells_star gap fun c first mark => ?_
  obtain ⟨⟨blanks, blank⟩, space, name⟩ := whole
  cases blanks with
  | nil =>
      obtain rfl : 'a' = c := Option.some.inj first
      exact absurd mark (by decide)
  | cons d ds =>
      obtain rfl : d = c := Option.some.inj first
      have marks : ∀ c ∈ ['*', '='], isBlank c = false := by decide
      have here := blank d List.mem_cons_self
      rw [marks d mark] at here
      cases here

theorem leads_importAll (gap : Gap) {whole : Whole} (is : isName whole.name.text = true) (parts : Parts rest) :
    Leads (State.Before src (gap.text ++ (whole.text ++ rest))) Script.ModuleSyntax.importNamed fun ns s =>
      ns.map (entryName? src.text) = [some ⟨"*", String.ofList whole.name.text⟩] ∧ s.Before src rest := by
  have spells := whole.spells gap rest
  have as_name : isName ['a', 's'] = true := by decide
  have as_spells := spells_name whole.gap as_name (parts_space whole.space (whole.name.text ++ rest))
  have all : Leads (State.Before src (gap.text ++ (whole.text ++ rest))) Script.ModuleSyntax.importAll fun n s =>
      entryName? src.text n = some ⟨"*", String.ofList whole.name.text⟩ ∧ s.Before src rest := by
    refine .here fun s before => .position (.weaken (fun _ same => same ▸ before) ?_)
    refine .bind (before_expect spells) fun _ => .bind (before_expect as_spells) fun _ => ?_
    refine .bind (leads_bindingName (spells_name whole.space.toGap is parts)) fun bound => .given ?_
    rintro ⟨span, rfl⟩
    refine (before_node _ _ _).widen ?_
    rintro n s' ⟨⟨stop, rfl⟩, after⟩
    have star : src.text[s.token.start]? = some '*' := before.first spells
    exact ⟨by simp [entryName?, star], after⟩
  refine before_sees spells (.ite (fun _ => .bind all fun n => .given fun met => ?_) fun other => absurd rfl other)
  exact .pure fun s before => ⟨congrArg ([·]) met, before⟩

theorem leads_importList (untyped : src.dialect.typed = false) (gap : Gap) {list : Entries}
    (are : ∀ p ∈ list.entries, p.item.IsScript) :
    Leads (State.Before src (gap.text ++ '\x7b' :: (list.inner ++ '\x7d' :: rest))) Script.ModuleSyntax.importNamed
      fun ns s => ns.map (entryName? src.text) = list.entries.map (·.item.binding?) ∧ s.Before src rest := by
  have spells := spells_lone gap (c := '\x7b') (by decide) (list.inner ++ '\x7d' :: rest)
  refine before_sees spells (.ite (fun all => absurd all (by decide)) fun _ => ?_)
  refine .bind (before_expect spells) fun _ => .bind (.look looks_get fun t => leads_commasCounted untyped are t.limit) ?_
  refine fun found => .given fun met => .each fun gap => ?_
  exact .bind (before_expect (spells_lone gap (by decide) rest)) fun _ => .pure fun s before => ⟨met, before⟩

theorem leads_reserved {name : List Char} (is : isName name = true)
    (spells : Spells cs word (.word (String.ofList name) false) rest) {post : List Node → State → Prop} :
    Leads (State.Before src cs) Script.ModuleSyntax.importNamed post := by
  have other (text : String) (no_name : isName text.toList = false) : some (String.ofList name) ≠ some text :=
    fun same => ofList_ne is no_name (Option.some.inj same)
  refine before_sees spells (.ite (fun all => absurd (beq_iff_eq.mp all) (other "*" (by decide))) fun _ => ?_)
  exact before_unexpected spells (other "\x7b" (by decide))

-- White space has to stand between a name and the word behind it.
theorem parts_behind (front : List Char) {name : List Char} (is : isName name = true) (gap : Gap) {behind : Gap}
    (ended : behind.text = [] → (front ++ (name ++ gap.text)).getLast? = some '\x7d') (rest : List Char) :
    Parts (behind.text ++ rest) := by
  obtain ⟨text, blank⟩ := behind
  cases text with
  | cons c cs => exact parts_of_blank (blank c List.mem_cons_self) _
  | nil =>
      obtain ⟨c, cs, rfl, start, all⟩ := isName_cases is
      have last := ended rfl
      rw [List.getLast?_append_of_ne_nil _ (by simp)] at last
      have others : isIdentifierStart '\x7d' = false ∧ isIdentifierPart '\x7d' = false ∧ isBlank '\x7d' = false := by decide
      rcases List.mem_append.mp (List.mem_of_mem_getLast? last) with inside | inside
      · rcases List.mem_cons.mp inside with rfl | inside
        · rw [others.1] at start
          cases start
        · have part := all _ inside
          rw [others.2.1] at part
          cases part
      · have blank := gap.blank _ inside
        rw [others.2.2] at blank
        cases blank

def Gap.append (first second : Gap) : Gap :=
  ⟨first.text ++ second.text, List.forall_mem_append.mpr ⟨first.blank, second.blank⟩⟩

theorem Padded.between {α : Type} (text : α → List Char) (gap : Gap) (p : Padded α) (rest : List Char) :
    gap.text ++ (p.text text ++ rest) = (gap.append p.before).text ++ (text p.item ++ (p.behind.text ++ rest)) := by
  simp [Padded.text, Gap.append]

-- How a clause begins: with a symbol, or with a name behind which stands a comma or what follows the clause.
inductive Fronts (cs more : List Char) : Prop
  | symbol {word rest : List Char} {text : String} (is : text ∈ ["*", "\x7b"])
      (spells : Spells cs word (.symbol text) rest) : Fronts cs more
  | comma {word word' rest rest' : List Char} {name : String} (spells : Spells cs word (.word name false) rest)
      (next : Spells rest word' (.symbol ",") rest') : Fronts cs more
  | alone {word word' rest : List Char} {name : String} (spells : Spells cs word (.word name false) rest)
      (next : Spells rest word' (.word "from" false) more) : Fronts cs more

def Gathers (src : Passage) (names : List (Option Name)) (more : List Char) (ns : List Node) (s : State) : Prop :=
  ns.map (entryName? src.text) = names ∧ ∃ gap : Gap, s.Before src (gap.text ++ ("from".toList ++ more))

structure Named (src : Passage) (cs : List Char) (names : List (Option Name)) (more : List Char) : Prop where
  opens : ∃ text word rest, text ∈ ["*", "\x7b"] ∧ Spells cs word (.symbol text) rest
  reads : Leads (State.Before src cs) Script.ModuleSyntax.importNamed (Gathers src names more)

structure Clausal (src : Passage) (cs : List Char) (names : List (Option Name)) (more : List Char) : Prop where
  fronts : Fronts cs more
  reads : Leads (State.Before src cs) Script.ModuleSyntax.importClause (Gathers src names more)

section
variable {behind : Gap} {more : List Char} {names : List (Option Name)}

theorem named_whole (gap : Gap) {p : Padded Whole} (is : isName p.item.name.text = true)
    (ended : behind.text = [] → (p.text Whole.text).getLast? = some '\x7d') :
    Named src (gap.text ++ (p.text Whole.text ++ (behind.text ++ ("from".toList ++ more))))
      [some ⟨"*", String.ofList p.item.name.text⟩] more := by
  let front := p.before.text ++ '*' :: (p.item.gap.text ++ (['a', 's'] ++ p.item.space.text))
  have tail : Parts (behind.text ++ ("from".toList ++ more)) :=
    parts_behind front is p.behind (by simpa [front, Padded.text, Whole.text] using ended) _
  rw [Padded.between]
  refine ⟨⟨"*", _, _, by decide, p.item.spells _ _⟩, (leads_importAll _ is (parts_gap p.behind tail)).widen ?_⟩
  rintro ns s ⟨met, before⟩
  refine ⟨met, p.behind.append behind, ?_⟩
  rwa [Gap.append, List.append_assoc]

theorem named_list (untyped : src.dialect.typed = false) (gap : Gap) {p : Padded Entries}
    (are : ∀ q ∈ p.item.entries, q.item.IsScript) :
    Named src (gap.text ++ (p.text (fun list => '\x7b' :: (list.inner ++ ['\x7d'])) ++
        (behind.text ++ ("from".toList ++ more))))
      (p.item.entries.map (·.item.binding?)) more := by
  have braces (tail : List Char) : '\x7b' :: (p.item.inner ++ ['\x7d']) ++ tail =
      '\x7b' :: (p.item.inner ++ '\x7d' :: tail) := by
    simp
  rw [Padded.between, braces]
  refine ⟨⟨"\x7b", _, _, by decide, spells_lone _ (by decide) _⟩, (leads_importList untyped _ are).widen ?_⟩
  rintro ns s ⟨met, before⟩
  refine ⟨met, p.behind.append behind, ?_⟩
  rwa [Gap.append, List.append_assoc]

theorem clausal_standard (gap : Gap) (parts : Parts more) {p : Padded Identifier} (is : isName p.item.text = true)
    (ended : behind.text = [] → (p.text Identifier.text).getLast? = some '\x7d') :
    Clausal src (gap.text ++ (p.text Identifier.text ++ (behind.text ++ ("from".toList ++ more))))
      [some ⟨"default", String.ofList p.item.text⟩] more := by
  have tail : Parts (behind.text ++ ("from".toList ++ more)) :=
    parts_behind p.before.text is p.behind (by simpa [Padded.text] using ended) _
  have spells := spells_name (gap.append p.before) is (parts_gap p.behind tail)
  have from_name : isName "from".toList = true := by decide
  have from_spells := spells_name (p.behind.append behind) from_name parts
  rw [Gap.append, List.append_assoc] at from_spells
  rw [Padded.between]
  refine ⟨.alone spells from_spells, ?_⟩
  refine before_token spells fun t _ => .ite (fun _ => ?_) fun _ => leads_reserved is spells
  refine .bind (leads_bindingName spells) fun default => .given ?_
  rintro ⟨span, rfl⟩
  refine before_keep from_spells (by decide) (.pure fun s before => ⟨rfl, p.behind.append behind, ?_⟩)
  rwa [Gap.append, List.append_assoc]

theorem clausal_default (gap : Gap) {p : Padded Identifier} (is : isName p.item.text = true) {cs : List Char}
    (named : Named src cs names more) :
    Clausal src (gap.text ++ (p.text Identifier.text ++ ',' :: cs))
      (some ⟨"default", String.ofList p.item.text⟩ :: names) more := by
  have comma := spells_lone p.behind (c := ',') (by decide) cs
  have comma_parts : Parts (',' :: cs) := by
    have other : (isIdentifierPart ',' || ',' == '\\') = false := by decide
    exact other
  have spells := spells_name (gap.append p.before) is (parts_gap p.behind comma_parts)
  rw [Padded.between]
  refine ⟨.comma spells comma, ?_⟩
  refine before_token spells fun t _ => .ite (fun _ => ?_) fun _ => leads_reserved is spells
  refine .bind (leads_bindingName spells) fun default => .given ?_
  rintro ⟨span, rfl⟩
  refine before_eat comma rfl (.bind named.reads fun ns => .given fun met => .pure fun s before => ⟨?_, before⟩)
  rw [List.map_cons, met]
  rfl

theorem clausal_named {cs : List Char} (named : Named src cs names more) : Clausal src cs names more := by
  obtain ⟨⟨text, word, rest, symbol, spells⟩, reads⟩ := named
  refine ⟨.symbol symbol spells, before_token spells fun t lexeme => .ite (fun name => ?_) fun _ => reads⟩
  simp [Script.Token.isName, lexeme] at name

theorem map_binding? {entries : List (Padded Entry)} (are : ∀ p ∈ entries, p.item.IsScript) :
    (entries.filterMap (·.item.binding?)).map some = entries.map (·.item.binding?) := by
  induction entries with
  | nil => rfl
  | cons p entries ih =>
      obtain ⟨is, are⟩ := List.forall_mem_cons.mp are
      obtain ⟨name, bound⟩ : ∃ name, p.item.binding? = some name := by
        rw [Entry.binding?, is.unmarked]
        exact ⟨_, rfl⟩
      rw [List.filterMap_cons, List.map_cons, bound, List.map_cons, ih are]

theorem clausal_text (untyped : src.dialect.typed = false) (gap : Gap) (parts : Parts more) {clause : Clause}
    (is : clause.IsScript) (ended : behind.text = [] → clause.text.getLast? = some '\x7d') :
    Clausal src (gap.text ++ (clause.text ++ (behind.text ++ ("from".toList ++ more)))) (clause.bindings.map some) more := by
  let tight : Gap := ⟨[], List.forall_mem_nil _⟩
  obtain ⟨standard, whole, list, last⟩ := clause
  obtain ⟨standard_is, whole_is, entries_are, present, single, rfl, trimmed⟩ := is
  -- What stands behind a comma ends where the clause does.
  have comma (front piece : List Char) (text : Clause.text ⟨standard, whole, list, none⟩ = front ++ ',' :: piece)
      (occupied : piece ≠ []) (bare : behind.text = []) : piece.getLast? = some '\x7d' := by
    have last := ended bare
    rwa [text, List.getLast?_append_of_ne_nil _ (List.cons_ne_nil _ _), List.getLast?_cons_of_ne_nil occupied] at last
  have assoc (front piece tail : List Char) :
      gap.text ++ (front ++ ',' :: piece ++ tail) = gap.text ++ (front ++ ',' :: (tight.text ++ (piece ++ tail))) := by
    simp [tight]
  cases standard with
  | none =>
      cases whole with
      | some q =>
          obtain rfl := single.resolve_left (Option.some_ne_none q)
          exact clausal_named (named_whole gap (whole_is q rfl) ended)
      | none =>
          cases list with
          | none => cases present
          | some q =>
              have named := @named_list src behind more untyped gap q (entries_are q rfl)
              rw [← map_binding? (entries_are q rfl)] at named
              simpa [Clause.bindings, Clause.text, Clause.outer, join] using clausal_named named
  | some p =>
      cases whole with
      | some q =>
          obtain rfl := single.resolve_left (Option.some_ne_none q)
          have occupied : q.text Whole.text ≠ [] := by simp [Padded.text, Whole.text]
          have text : Clause.text ⟨some p, some q, none, none⟩ = p.text Identifier.text ++ ',' :: q.text Whole.text := by
            simp [Clause.text, Clause.outer, join]
          have named := @named_whole src behind more tight q (whole_is q rfl) (comma _ _ text occupied)
          rw [text, assoc]
          exact clausal_default gap (standard_is p rfl) named
      | none =>
          cases list with
          | none => exact clausal_standard gap parts (standard_is p rfl) ended
          | some q =>
              have text : Clause.text ⟨some p, none, some q, none⟩ =
                  p.text Identifier.text ++ ',' :: q.text fun list => '\x7b' :: (list.inner ++ ['\x7d']) := by
                simp [Clause.text, Clause.outer, join]
              have named := @named_list src behind more untyped tight q (entries_are q rfl)
              rw [← map_binding? (entries_are q rfl)] at named
              rw [text, assoc]
              simpa [Clause.bindings] using clausal_default gap (standard_is p rfl) named

end

theorem Fronts.unquoted {more : List Char} (fronts : Fronts cs more) :
    ∃ word l rest, Spells cs word l rest ∧ ∀ t : Script.Token, t.lexeme = l → t.isString = false := by
  cases fronts with
  | symbol is spells => exact ⟨_, _, _, spells, fun t lexeme => by simp [Script.Token.isString, lexeme]⟩
  | comma spells next => exact ⟨_, _, _, spells, fun t lexeme => by simp [Script.Token.isString, lexeme]⟩
  | alone spells next => exact ⟨_, _, _, spells, fun t lexeme => by simp [Script.Token.isString, lexeme]⟩

theorem leads_startsPhase {more : List Char} {value : String} (fronts : Fronts cs more)
    (string : ∃ word rest, Spells more word (.string value) rest) :
    Leads (State.Before src cs) Script.ModuleSyntax.startsPhase fun b s => b = false ∧ s.Before src cs := by
  have never : Leads (State.Before src cs) (pure false : Script.Parse Bool) fun b s => b = false ∧ s.Before src cs :=
    .pure fun s before => ⟨rfl, before⟩
  cases fronts with
  | symbol is spells =>
      have others : ∀ text ∈ ["*", "\x7b"], ((Lexeme.symbol text).spelling == some "defer") = false ∧
          ((Lexeme.symbol text).spelling == some "source") = false := by decide
      refine .look looks_peek fun next => before_sees spells (.ite (fun defer => ?_) fun _ => ?_)
      · rw [(others _ is).1] at defer
        cases defer
      · refine before_sees spells (.ite (fun source => ?_) fun _ => never)
        rw [(others _ is).2] at source
        cases source
  | comma spells next =>
      refine before_peek spells next fun t lexeme => before_sees spells ?_
      have other (text : String) (differ : "," ≠ text) : t.is text = false := by
        rw [Script.Token.is_eq lexeme]
        simpa [Lexeme.spelling] using differ
      have unnamed : t.isName = false := by simp [Script.Token.isName, lexeme]
      rw [other "*" (by decide), other "from" (by decide), unnamed]
      refine .ite (fun _ => never) fun _ => before_sees spells (.ite (fun _ => .otherwise never) fun _ => never)
  | alone spells next =>
      refine before_peek spells next fun t lexeme => before_sees spells ?_
      have star : t.is "*" = false := by
        rw [Script.Token.is_eq lexeme]
        decide
      rw [star]
      obtain ⟨word, rest, string⟩ := string
      refine .ite (fun _ => never) fun _ => before_sees spells
        (.ite (fun _ => .ite (fun _ => ?_) fun other => ?_) fun _ => never)
      · refine before_lookahead (.bind (before_advance spells) fun _ => .bind (before_advance next) fun _ => ?_)
        exact (before_sees string (f := pure) (.pure fun s _ => rfl))
      · rw [Script.Token.is_eq lexeme] at other
        exact absurd rfl other

end

section
variable {src : Script.Source} {s : State}

theorem leads_keyword (stands : s.Stands src) : Leads (· = s) (expect "import") fun _ =>
    State.Before src (src.text.drop (s.token.start + 6)) := by
  rintro t u s' rfl run
  obtain ⟨b, t', saw, run⟩ := eq_of_bind run
  cases saw
  split at run
  next is =>
    rw [Script.Token.is_eq rfl] at is
    have stop := stands.token.spelled "import" (beq_iff_eq.mp is)
    have after := (reads_advance t stands t u s' rfl run).stands
    obtain ⟨rfl, -⟩ := eq_of_advance run
    refine ⟨after, t.token.stop, ?_⟩
    rw [Script.Token.next, stands.token.rest, stop]
    rfl
  next => cases run

theorem attributes_unnamed : Script.Gives Script.ModuleSyntax.attributes fun n => ∀ text, entryName? text n = none := by
  have nameless : Script.Gives absent fun n => ∀ text, entryName? text n = none := .skip fun _ => .pure fun _ => rfl
  refine .skip fun start => .skip fun _ => .skip fun _ => .skip fun t => .ite (fun _ => ?_) fun _ => nameless
  exact .skip fun _ => .skip fun _ => .skip fun entries => .skip fun _ => .skip fun _ => .node fun _ _ => rfl

theorem parts_source (layout : Layout) (rest : List Char) :
    Parts (layout.gap.text ++ layout.quote :: (layout.specifier ++ layout.quote :: rest)) := by
  have quotes : ∀ c ∈ ['"', '\''], (isIdentifierPart c || c == '\\') = false := by decide
  have mark := mem_quotes layout.quoted
  have parts : Parts (layout.quote :: (layout.specifier ++ layout.quote :: rest)) := quotes _ mark
  exact parts_gap layout.gap parts

theorem clausal_layout {src : Passage} (untyped : src.dialect.typed = false) (layout : Layout) (rest : List Char) :
    Clausal src ((layout.text ++ rest).drop 6) (layout.clause.bindings.map some)
      (layout.gap.text ++ layout.quote :: (layout.specifier ++ layout.quote :: rest)) := by
  have behind : (layout.text ++ rest).drop 6 = layout.before.text ++ (layout.clause.text ++ (layout.behind.text ++
      ("from".toList ++ (layout.gap.text ++ layout.quote :: (layout.specifier ++ layout.quote :: rest))))) := by
    rw [layout.text_append, layout.source_append]
    exact List.drop_left' rfl
  rw [behind]
  exact clausal_text untyped layout.before (parts_source layout rest) layout.script layout.ended

theorem stop_specifier (layout : Layout) {rest : List Char} (text : src.text.drop s.token.start = layout.text ++ rest)
    {s' : State} (before : s'.Before src (layout.gap.text ++ layout.quote :: (layout.specifier ++ layout.quote :: rest))) :
    s.token.start + layout.text.length = s'.token.stop := by
  have string := spells_string layout.gap layout.quoted layout.plain rest
  have whole := congrArg List.length text
  have here := congrArg List.length (before.here string)
  have some_text : 0 < layout.text.length := Nat.succ_pos _
  rw [List.length_drop, List.length_append] at whole here
  rw [before.stop string]
  simp only [List.length_cons, List.length_append] at here ⊢
  omega

-- Nothing behind the specifier binds a name, and what is read there cannot go back.
theorem leads_end (stands : s.Stands src) (library : String) (start : Nat) {entries : List Node} {names : List Name}
    (met : entries.map (entryName? src.text) = names.map some) :
    Leads (· = s) (Script.ModuleSyntax.attributes >>= fun attributes => semicolon >>= fun _ =>
      node (.importDeclaration library) start (entries ++ [attributes])) fun n _ =>
        ∃ stop parts, n = .mk (.importDeclaration library) ⟨start, stop⟩ parts ∧
          parts.filterMap (entryName? src.text) = names ∧ s.lastStop ≤ stop := by
  refine .begin stands (Script.ModuleSyntax.reads_attributes.given attributes_unnamed fun attributes nameless => ?_)
  refine Script.Parse.reads_semicolon.pass fun _ => ?_
  rintro s' n s'' reading run
  cases run
  refine ⟨_, _, rfl, ?_, reading.passed⟩
  have bound : entries.filterMap (entryName? src.text) = (entries.map (entryName? src.text)).filterMap id := by
    rw [List.filterMap_map]
    rfl
  rw [List.filterMap_append, bound, met, List.filterMap_map]
  simp [nameless]

theorem leads_layout (untyped : src.dialect.typed = false) (layout : Layout) (stands : s.Stands src) {rest : List Char}
    (text : src.text.drop s.token.start = layout.text ++ rest) :
    Leads (· = s) Script.ModuleSyntax.importDeclaration fun n _ => ∃ stop parts,
      n = .mk (.importDeclaration (String.ofList layout.specifier)) ⟨s.token.start, stop⟩ parts ∧
        parts.filterMap (entryName? src.text) = layout.clause.bindings ∧ s.token.start + layout.text.length ≤ stop := by
  have string := spells_string layout.gap layout.quoted layout.plain rest
  have clausal := @clausal_layout src untyped layout rest
  refine .position (.bind (leads_keyword stands) fun _ => ?_)
  rw [← List.drop_drop, text]
  refine .bind (before_lookahead (before_typed untyped rfl)) fun aliased => .given ?_
  rintro rfl
  refine .otherwise (.bind (before_lookahead (before_typed untyped rfl)) fun typed => .given ?_)
  rintro rfl
  refine .otherwise (.bind (leads_startsPhase clausal.fronts ⟨_, _, string⟩) fun phased => .given ?_)
  rintro rfl
  obtain ⟨word, l, first_rest, first, unquoted⟩ := clausal.fronts.unquoted
  refine .otherwise (before_token first fun t lexeme => .ite (fun quoted => ?_) fun _ => ?_)
  · rw [unquoted t lexeme] at quoted
    cases quoted
  refine .bind clausal.reads fun entries => .given fun met => .each fun gap => ?_
  refine .bind (before_expect (spells_name gap (by decide) (parts_source layout rest))) fun _ => .here fun s₁ before => ?_
  rw [pure_bind]
  refine .token ?_
  rw [before.lexeme string]
  rintro s₁ n s' rfl run
  obtain ⟨u, s₂, moved, run⟩ := eq_of_bind run
  have stands₂ := (reads_advance s₁ before.stands s₁ u s₂ rfl moved).stands
  have last : s₂.lastStop = s₁.token.stop := congrArg State.lastStop (eq_of_advance moved).1
  rw [stop_specifier layout text before, ← last]
  exact leads_end stands₂ _ _ met s₂ n s' rfl run

theorem isString_first (html : Bool) (start start' : Nat) (cs : List Char) :
    (Script.Token.first html start cs).isString = (Script.Token.first html start' cs).isString := by
  unfold Script.Token.first
  split <;> rfl

theorem leads_bare (untyped : src.dialect.typed = false) (isModule : src.dialect.isModule = true) (stands : s.Stands src)
    (bare : (Script.Token.first false 0 (src.text.drop (s.token.start + 6))).isString = true) :
    Leads (· = s) Script.ModuleSyntax.importDeclaration fun n _ => ∀ text, n.parts.filterMap (entryName? text) = [] := by
  have quoted (s' : State) (before : s'.Before src (src.text.drop (s.token.start + 6))) : s'.token.isString = true := by
    obtain ⟨at_, is⟩ := before.token
    have html : Script.Parse.html s' = false := by rw [Script.Parse.html, before.stands.dialect, isModule]; rfl
    rw [is, html, isString_first false at_ 0, bare]
  have other {β : Type} {text : String} {f : Bool → Script.Parse β} {post : β → State → Prop}
      (then_ : Leads (State.Before src (src.text.drop (s.token.start + 6))) (f false) post) :
      Leads (State.Before src (src.text.drop (s.token.start + 6))) (sees text >>= f) post := by
    intro s' b s'' before run
    have string := quoted s' before
    have missing : s'.token.is text = false := by
      unfold Script.Token.isString at string
      split at string
      next value lexeme => rw [Script.Token.is_eq lexeme]; rfl
      next => cases string
    refine then_ s' b s'' before ?_
    rw [← missing]
    exact run
  refine .position (.bind (leads_keyword stands) fun _ => ?_)
  refine .bind (before_lookahead (before_typed untyped rfl)) fun aliased => .given ?_
  rintro rfl
  refine .otherwise (.bind (before_lookahead (before_typed untyped rfl)) fun typed => .given ?_)
  rintro rfl
  have unphased : Leads (State.Before src (src.text.drop (s.token.start + 6))) Script.ModuleSyntax.startsPhase
      fun b s' => b = false ∧ s'.Before src (src.text.drop (s.token.start + 6)) :=
    .look looks_peek fun next => other (other (.pure fun s before => ⟨rfl, before⟩))
  refine .otherwise (.bind unphased fun phased => .given ?_)
  rintro rfl
  refine .otherwise (.here fun s₁ before =>
    .token (.ite (fun _ => ?_) fun named => absurd (quoted s₁ before) named))
  rw [pure_bind]
  refine .token (.weaken (fun _ _ => trivial) ?_)
  split
  · refine Script.Gives.skip fun _ => .bind attributes_unnamed fun attributes nameless => ?_
    refine .skip fun _ => .node fun stop text => ?_
    simp [Node.parts, nameless]
  · exact .failure

end

end Prerender.Import
