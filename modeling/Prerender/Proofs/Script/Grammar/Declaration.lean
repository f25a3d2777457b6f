import Prerender.Proofs.Script.Grammar.Class
import Prerender.Script.Grammar.Declaration

set_option autoImplicit false

namespace Prerender.Script.DeclarationSyntax

open Parse

variable {src : Source} {g : Grammar}

theorem looks_seesModifier : Looks seesModifier := by
  intro s
  refine .look (looks_seesAny _) fun here => .look looks_peek fun next => .look looks_peek fun next => ?_
  exact looks_pure _ s

theorem looks_starts : Looks starts := by
  intro s
  exact .look looks_get fun t => looks_lookaheadOr _ _ s

theorem reads_modifiers (n : Nat) : Reads src false (modifiersCounted n) := by
  induction n with
  | zero => exact fun _ _ => .failure
  | succ n ih =>
      intro s stands
      refine .begin stands (.look looks_seesModifier fun sees => .ite (fun _ => ?_) fun _ => .pure fun _ reading => reading)
      refine .look looks_token fun t => ?_
      split
      · exact reads_advance.pass fun _ => ih.pass fun words => .pure fun _ reading => reading
      · exact .failure

theorem leads_importAlias {s : State} : Leads (Reading src s true []) (importAlias s.token.start)
    fun n => Reading src s true [n] := by
  refine .look (looks_sees _) fun type => .look looks_peek fun next => .when (fun _ => reads_advance.keep) ?_
  refine Pattern.reads_bindingName.then fun name => (reads_expect "=").pass fun _ => ?_
  refine .look (looks_sees _) fun require => .look looks_peek fun next => .ite (fun _ => ?_) fun _ => ?_
  · refine reads_advance.pass fun _ => reads_advance.pass fun _ => Pattern.reads_stringLiteral.then fun source => ?_
    exact (reads_expect ")").pass fun _ => reads_semicolon.pass fun _ => leads_node rfl (.refl _)
  · exact TypeSyntax.reads_entityName.then fun entity => reads_semicolon.pass fun _ => leads_node rfl (.refl _)

variable (sound : g.Sound src)
include sound

theorem reads_declarator : Reads src true (declarator g) := by
  intro s stands
  refine .position (.begin stands ((sound .pattern).then fun target => .look looks_isTyped fun typed => ?_))
  refine .look looks_token fun t => ?_
  extract_lets ends tail
  have finish (n : Node) : Leads (Reading src s true [n]) (ends n) fun n => Reading src s true [n] :=
    leads_optional "=" (sound (.assignment true)) fun value => leads_node rfl (.refl _)
  have rest : Leads (Reading src s true [target]) (tail ()) fun n => Reading src s true [n] := by
    refine .look looks_isTyped fun typed => (reads_eatIf typed ":").pass fun colon => .ite (fun _ => ?_) fun _ => ?_
    · exact (sound .type).then fun type => .bind (leads_node rfl (.refl _)) finish
    · exact finish target
  exact .ite (fun _ => (reads_eat "!").pass fun _ => rest) fun _ => rest

theorem leads_declarators {s : State} (hoisted constant complete : Bool) : Leads (Reading src s false [])
    (declarators g s.token.start hoisted constant complete) fun n => Reading src s true [n] := by
  refine (reads_separated (reads_declarator sound) ",").then fun ds => .look looks_context fun c => ?_
  exact .when (fun _ => (reads_flawIf _).keep) (leads_node rfl (.refl _))

theorem reads_variableList : Reads src true (variableList g) := by
  intro s stands
  refine .position (.look (looks_sees _) fun hoisted => .look (looks_sees _) fun constant => .begin stands ?_)
  refine reads_advance.pass fun _ => ?_
  exact .bind (leads_declarators sound _ _ _) fun ds => reads_semicolon.pass fun _ => .pure fun _ reading => reading

theorem reads_enumKey : Reads src true (enumKey g) := by
  intro s stands
  refine .begin stands (.look (looks_sees _) fun computed => (Pattern.reads_propertyName sound).then fun key => ?_)
  split
  · exact .pure fun _ reading => reading
  · exact .ite (fun _ => .pure fun _ reading => reading) fun _ => .failure

theorem reads_enumMember : Reads src true (enumMember g) := by
  intro s stands
  refine .position (.begin stands ((reads_enumKey sound).then fun key => ?_))
  exact leads_optional "=" (sound (.assignment true)) fun value => leads_node rfl (.refl _)

theorem reads_enumeration : Reads src true (enumeration g) := by
  intro s stands
  refine .position (.begin stands ((reads_eat "const").pass fun _ => (reads_expect "enum").pass fun _ => ?_))
  refine Pattern.reads_bindingName.then fun name => (reads_expect "\x7b").pass fun _ => ?_
  refine (reads_commas (reads_enumMember sound) "\x7d").then fun members => (reads_expect "\x7d").pass fun _ => ?_
  exact leads_node rfl (.refl _)

theorem reads_interface : Reads src true (interface g) := by
  intro s stands
  refine .position (.begin stands ((reads_expect "interface").pass fun _ => Pattern.reads_bindingName.then fun name => ?_))
  refine (TypeSyntax.reads_parameters? sound).then fun generics => ?_
  extract_lets ends
  have finish (bases : List Node) : Leads (Reading src s true (name :: generics :: bases)) (ends bases)
      fun n => Reading src s true [n] := (TypeSyntax.reads_members sound).then fun members => leads_node rfl (.refl _)
  refine leads_eat "extends" ?_ (finish [])
  exact (reads_separated (TypeSyntax.reads_typeReference sound) ",").then fun bases => finish bases

theorem reads_typeAlias : Reads src true (typeAlias g) := by
  intro s stands
  refine .position (.begin stands ((reads_expect "type").pass fun _ => Pattern.reads_bindingName.then fun name => ?_))
  refine (TypeSyntax.reads_parameters? sound).then fun generics => (reads_expect "=").pass fun _ => ?_
  exact (sound .type).then fun type => reads_semicolon.pass fun _ => leads_node rfl (.refl _)

theorem leads_moduleBlock {s : State} (stands : s.Stands src) (more : s.token.lexeme ≠ .finish) :
    Leads (· = s) (moduleBlock g) fun n => Reading src s true [n] := by
  refine .position (.look (looks_sees _) fun isGlobal => .look (looks_sees _) fun isModule => leads_step stands more ?_)
  refine .look looks_token fun t => ?_
  extract_lets isString tail
  have rest (names : List Node) : Leads (Reading src s true []) (tail names) fun n => Reading src s true [n] := by
    refine .look (looks_sees _) fun braced => .ite (fun _ => ?_) fun _ => ?_
    · exact reads_semicolon.pass fun _ => leads_node rfl (.refl _)
    · exact (FunctionSyntax.reads_block sound).then fun body => leads_node rfl (.refl _)
  refine .ite (fun _ => reads_advance.pass fun _ => rest []) fun _ => .ite (fun _ => rest []) fun _ => ?_
  exact (reads_separated Pattern.reads_bindingName ".").ignore rest

theorem reads_declaration : Reads src true (declaration g) := by
  intro s stands
  refine .position (.look looks_isTyped fun typed => .begin stands ?_)
  extract_lets tail
  have rest (words : List String) : Leads (Reading src s false []) (tail words) fun n => Reading src s true [n] := by
    refine .look (looks_sees _) fun isClass => .look (looks_sees _) fun isImport => (reads_flawIf _).pass fun _ => ?_
    refine leads_within (.look looks_peek fun next => ?_)
    refine .look (looks_seesAny _) fun _ => .ite (fun _ => (reads_variableList sound).after) fun _ => ?_
    refine .look (looks_sees _) fun _ => .ite (fun _ => .ite (fun _ => ?_) fun _ => ?_) fun _ => ?_
    · exact (reads_enumeration sound).after
    · exact (reads_variableList sound).after
    refine .look FunctionSyntax.looks_starts fun _ => .ite (fun _ => (FunctionSyntax.reads_function sound _).after) fun _ => ?_
    refine .look (looks_sees _) fun _ => .ite (fun _ => (ClassSyntax.reads_definition sound).after) fun _ => ?_
    refine .ite (fun _ => .failure) fun _ => ?_
    refine .look (looks_sees _) fun _ => .ite (fun _ => (reads_enumeration sound).after) fun _ => ?_
    refine .look (looks_sees _) fun _ => .ite (fun _ => (reads_interface sound).after) fun _ => ?_
    refine .look (looks_sees _) fun _ => .ite (fun _ => (reads_typeAlias sound).after) fun _ => ?_
    refine .here fun s₁ reading => .seesAny (.ite (fun here => ?_) fun _ => ?_)
    · exact (leads_moduleBlock sound reading.stands (Token.more_of_isOneOf here)).widen fun _ _ inner => reading.trans inner
    · exact .resume reading (leads_eat "import" leads_importAlias .failure)
  refine .ite (fun _ => .look looks_get fun t => ?_) fun _ => rest []
  exact (reads_modifiers _).pass fun words => rest words

end Prerender.Script.DeclarationSyntax
