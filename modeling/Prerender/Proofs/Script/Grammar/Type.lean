import Prerender.Proofs.Script.Grammar.Pattern

set_option autoImplicit false

namespace Prerender.Script.TypeSyntax

open Parse

variable {src : Source} {g : Grammar}

theorem looks_seesParameterModifier : Looks seesParameterModifier := by
  intro s
  refine .look (looks_seesAny _) fun here => .ite (fun _ => looks_pure true s) fun _ => ?_
  refine .look (looks_sees "out") fun out => .ite (fun _ => ?_) fun _ => looks_pure false s
  exact .look looks_peek fun next => looks_pure _ s

theorem looks_startsFunction : Looks (startsFunction g) := by
  intro s
  refine .look (looks_seesAny _) fun here => .ite (fun _ => looks_pure true s) fun _ => ?_
  refine .look (looks_sees "abstract") fun abstract => .ite (fun _ => ?_) fun _ => looks_lookaheadOr _ _ s
  exact .look looks_peek fun next => looks_pure _ s

theorem looks_seesMemberModifier (words : List String) : Looks (seesMemberModifier words) := by
  intro s
  refine .look (looks_seesAny words) fun here => .ite (fun _ => ?_) fun _ => looks_pure false s
  exact .look looks_peek fun next => looks_pure _ s

theorem reads_entityName : Reads src true entityName := by
  intro s stands
  refine .position (.token (.ite (fun word => ?_) fun _ => .stop))
  refine leads_step stands (Token.more_of_isWord word) ?_
  refine (reads_skipWhile fun s stands => .begin stands (leads_eat "." ?_ ?_)).pass fun _ => leads_node rfl (.refl _)
  · exact .look looks_token fun t => .ite (fun _ => .pure fun _ reading => reading.forget) fun _ => .failure
  · exact .pure fun _ reading => reading

theorem reads_memberEnd : Reads src false memberEnd := by
  intro s stands
  exact .begin stands (leads_eat "," (.pure fun _ reading => reading.forget) reads_semicolon.after)

theorem reads_mappedSign (text : String) : Reads src false (mappedSign text) := by
  intro s stands
  refine .begin stands (.look (looks_seesAny _) fun sign => .ite (fun _ => ?_) fun _ => ?_)
  · exact reads_advance.pass fun _ => ((reads_expect text).less false).after
  · exact (reads_eat text).pass fun _ => .pure fun _ reading => reading

-- The items between angle brackets, which are taken stands from the node that they are given in.
theorem leads_list {s₀ : State} (close : String) {item : Parse Node} (each : Reads src true item) :
    Leads (Reading src s₀ false []) (list close item) fun l => Reading src s₀ true l.parts := by
  refine .look looks_position fun start => reads_narrow.pass fun _ => (reads_expect "<").pass fun _ => ?_
  refine (reads_commas each close).then fun items => (reads_flawIf _).pass fun _ => ?_
  exact .pure fun _ reading => reading

variable (sound : g.Sound src)
include sound

theorem reads_arguments : Reads src true (arguments g) := by
  intro s stands
  refine .position (.begin stands (.bind (leads_list ">" (sound .type)) fun l => ?_))
  exact (reads_expect ">").pass fun _ => leads_node rfl (.refl _)

theorem reads_argumentsInExpression : Reads src true (argumentsInExpression g) := by
  intro s stands
  refine .position (.begin stands (.bind (leads_list ">" (sound .type)) fun l => ?_))
  refine .look looks_token fun t => .ite (fun _ => ?_) fun _ => .failure
  refine (reads_expect ">").pass fun _ => .look looks_token fun t => .ite (fun _ => ?_) fun _ => .failure
  exact leads_node rfl (.refl _)

theorem reads_parameter : Reads src true (parameter g) := by
  intro s stands
  refine .position (.begin stands ((reads_skipWhile looks_seesParameterModifier.reads).pass fun _ => ?_))
  refine Pattern.reads_bindingName.then fun name => leads_optional "extends" (sound .type) fun constraint => ?_
  exact leads_optional "=" (sound .type) fun default => leads_node rfl (.refl _)

theorem reads_parameters? : Reads src false (parameters? g) := by
  intro s stands
  refine .look looks_isTyped fun typed => .look looks_token fun t => .ite (fun _ => .position ?_) fun _ => ?_
  · refine .begin stands (.bind (leads_list ">" (reads_parameter sound)) fun l => ?_)
    exact (reads_expect ">").pass fun _ => (leads_node rfl (.refl _)).widen fun _ _ reading => reading.forget
  · exact reads_absent s stands

theorem reads_predicate : Reads src true (predicate g) := by
  intro s stands
  refine .position (.look looks_peek fun next => .sees (.ite (fun here => ?_) fun _ => .token ?_))
  · have asserts : s.token.is "asserts" = true := by grind
    refine leads_step stands (Token.more_of_is asserts) (reads_advance.pass fun _ => leads_eat "is" ?_ ?_)
    · exact (sound .type).then fun type => leads_node rfl (.refl _)
    · exact leads_node rfl (.refl _)
  · refine .sees (.ite (fun here => ?_) fun _ => sound .type s stands)
    have more : s.token.lexeme ≠ .finish := fun finish => by simp [Token.isName, Token.is, finish] at here
    refine leads_step stands more (reads_advance.pass fun _ => ?_)
    exact (sound .type).then fun type => leads_node rfl (.refl _)

theorem reads_returnType? : Reads src false (returnType? g) := by
  intro s stands
  refine .begin stands (.look looks_isTyped fun typed => (reads_eatIf typed ":").pass fun colon => ?_)
  refine .ite (fun _ => ?_) fun _ => reads_absent.after
  exact ((reads_within (reads_predicate sound)).less false).after

theorem reads_functionType : Reads src true (functionType g) := by
  intro s stands
  refine .position (.begin stands ((reads_eat "abstract").pass fun _ => (reads_eat "new").pass fun _ => ?_))
  refine (reads_parameters? sound).then fun generics => (Pattern.reads_parameters sound).then fun parameters => ?_
  refine (reads_expect "=>").pass fun _ => (reads_predicate sound).then fun result => leads_node rfl (.refl _)

omit sound in
theorem reads_union {item : Parse Node} (each : Reads src true item) (separator : String) :
    Reads src true (union separator item) := by
  intro s stands
  refine .position (.begin stands ((reads_eat separator).pass fun _ => ?_))
  exact (reads_separated each separator).then fun items => leads_node rfl (.refl _)

theorem reads_type : Reads src true (type g) := by
  intro s stands
  refine .position (.look looks_startsFunction fun starts => .ite (fun _ => reads_functionType sound s stands) fun _ => ?_)
  refine .begin stands ((reads_union (reads_union (sound .typeOperand) "&") "|").then fun subject => ?_)
  refine .look looks_context fun c => .look looks_token fun t => (reads_eatIf _ "extends").pass fun conditional => ?_
  refine .ite (fun _ => ?_) fun _ => .pure fun _ reading => reading
  refine (reads_within (sound .type)).then fun bound => (reads_expect "?").pass fun _ => ?_
  refine (reads_within (sound .type)).then fun yes => (reads_expect ":").pass fun _ => ?_
  exact (reads_within (sound .type)).then fun no => leads_node rfl (.refl _)

theorem reads_argumentsHere? : Reads src false (argumentsHere? g) := by
  intro s stands
  refine .look looks_token fun t => .look looks_token fun u => .ite (fun _ => ?_) fun _ => reads_absent s stands
  exact (reads_arguments sound).less false s stands

theorem reads_typeReference : Reads src true (typeReference g) := by
  intro s stands
  refine .position (.begin stands (reads_entityName.ignore fun name => (reads_argumentsHere? sound).then fun arguments => ?_))
  exact leads_node rfl (.refl _)

theorem reads_importOptions : Reads src true (importOptions g) := by
  intro s stands
  refine .begin stands ((sound (.assignment true)).then fun options => ?_)
  split
  · exact .pure fun _ reading => reading
  · exact .failure

theorem reads_importType : Reads src true (importType g) := by
  intro s stands
  refine .position (.begin stands ((reads_expect "import").pass fun _ => (reads_expect "(").pass fun _ => ?_))
  refine (sound .type).then fun argument => leads_optional "," (reads_importOptions sound) fun options => ?_
  refine (reads_expect ")").pass fun _ => ?_
  extract_lets ends
  have name : Leads (Reading src s true [argument, options]) (ends ()) fun n => Reading src s true [n] :=
    (reads_argumentsHere? sound).then fun arguments => leads_node rfl (.refl _)
  exact leads_eat "." (reads_entityName.ignore fun _ => name) name

theorem reads_template (n : Nat) : Reads src true (templateCounted g n) := by
  induction n with
  | zero => exact fun _ _ => .failure
  | succ n ih =>
      intro s stands
      refine .token ?_
      split
      · rename_i lexeme
        exact leads_step stands (by simp [lexeme]) (.pure fun _ reading => reading)
      · rename_i lexeme
        refine leads_step stands (by simp [lexeme]) ((sound .type).then fun type => .here fun s₁ reading => ?_)
        refine .token (.token ?_)
        split
        · rename_i closes piece
          exact leads_piece reading closes piece (ih.then fun types => .pure fun _ reading => reading)
        · exact .failure
      · exact .failure

theorem reads_mapped : Reads src true (mapped g) := by
  intro s stands
  refine .position (.begin stands ((reads_expect "\x7b").pass fun _ => (reads_mappedSign "readonly").pass fun _ => ?_))
  refine (reads_expect "[").pass fun _ => Pattern.reads_bindingName.then fun name => ?_
  refine (reads_expect "in").pass fun _ => (sound .type).then fun keys => ?_
  refine leads_optional "as" (sound .type) fun renamed => (reads_expect "]").pass fun _ => ?_
  refine (reads_mappedSign "?").pass fun _ => leads_optional ":" (sound .type) fun value => ?_
  refine (reads_eat ";").pass fun _ => (reads_eat ",").pass fun _ => (reads_expect "\x7d").pass fun _ => ?_
  exact leads_node rfl (.refl _)

theorem reads_signature : Reads src true (signature g) := by
  intro s stands
  refine .begin stands ((reads_parameters? sound).then fun generics => (Pattern.reads_parameters sound).then fun parameters => ?_)
  exact (reads_returnType? sound).then fun result => .pure fun _ reading => reading

theorem reads_index : Reads src true (index g) := by
  intro s stands
  refine .begin stands ((reads_expect "[").pass fun _ => (Pattern.reads_annotated sound false).then fun key => ?_)
  exact (reads_expect "]").pass fun _ => leads_optional ":" (sound .type) fun value => .pure fun _ reading => reading

theorem reads_member : Reads src true (member g) := by
  intro s stands
  refine .position (.begin stands ((reads_skipWhile (looks_seesMemberModifier _).reads).pass fun _ => ?_))
  refine .look (looks_seesAny _) fun signs => ?_
  extract_lets ends named
  have finish (parts : List Node) : Leads (Reading src s true parts) (ends parts) fun n => Reading src s true [n] :=
    reads_memberEnd.pass fun _ => leads_node rfl (.refl _)
  refine .look (looks_sees "new") fun new => .look looks_peek fun next => .look (looks_lookaheadOr _ _) fun indexed => ?_
  refine .ite (fun _ => ?_) fun _ => .ite (fun _ => ?_) fun _ => .ite (fun _ => ?_) fun _ => ?_
  · exact (reads_signature sound).then fun parts => finish parts
  · exact reads_advance.pass fun _ => (reads_signature sound).then fun parts => finish parts
  · exact (reads_index sound).then fun parts => finish parts
  refine .look (looks_seesMemberModifier _) fun accessor => .when (fun _ => reads_advance.keep) ?_
  refine (Pattern.reads_propertyName sound).then fun key => (reads_eat "?").pass fun _ => ?_
  refine .look (looks_seesAny _) fun signs => .ite (fun _ => ?_) fun _ => leads_eat ":" ?_ (finish [key])
  · exact (reads_signature sound).then fun parts => finish (key :: parts)
  · exact (sound .type).then fun value => finish [key, value]

theorem reads_members : Reads src true (members g) := by
  intro s stands
  refine .position (.begin stands ((reads_expect "\x7b").pass fun _ => ?_))
  refine (reads_upTo (reads_within (reads_member sound)) ["\x7d"]).then fun members => ?_
  exact (reads_expect "\x7d").pass fun _ => leads_node rfl (.refl _)

theorem reads_tupleElement : Reads src true (tupleElement g) := by
  intro s stands
  refine .position (.begin stands ((reads_eat "...").pass fun _ => .look looks_peek fun next => .look looks_token fun t => ?_))
  extract_lets tail
  have element (named : Bool) : Leads (Reading src s false []) (tail named) fun n => Reading src s true [n] := by
    refine .ite (fun _ => ?_) fun _ => ?_
    · refine reads_advance.pass fun _ => (reads_eat "?").pass fun _ => (reads_expect ":").pass fun _ => ?_
      exact (sound .type).then fun type => leads_node rfl (.refl _)
    · exact (sound .type).then fun type => (reads_eat "?").pass fun _ => leads_node rfl (.refl _)
  refine .ite (fun _ => .ite (fun _ => element true) fun _ => ?_) fun _ => element false
  exact .ite (fun _ => .look (looks_lookaheadOr _ _) element) fun _ => element false

theorem reads_primary : Reads src true (primary g) := by
  intro s stands
  refine .position (.token ?_)
  split
  · rename_i lexeme
    exact .level (leads_single rfl stands (by simp [lexeme]))
  · rename_i lexeme
    exact .level (leads_single rfl stands (by simp [lexeme]))
  · refine .begin stands (.look looks_get fun t => (reads_template sound _).then fun types => leads_node rfl (.refl _))
  · rename_i lexeme
    have more : s.token.lexeme ≠ .finish := by simp [lexeme]
    refine .ite (fun _ => ?_) fun _ => .ite (fun _ => ?_) fun _ => .ite (fun _ => ?_) fun _ => ?_
    · refine .look (looks_lookaheadOr _ _) fun starts => .ite (fun _ => ?_) fun _ => ?_
      · exact reads_mapped sound s stands
      · exact reads_members sound s stands
    · refine leads_step stands more ((reads_commas (reads_tupleElement sound) "]").then fun elements => ?_)
      exact (reads_expect "]").pass fun _ => leads_node rfl (.refl _)
    · exact leads_step stands more ((sound .type).then fun inner => (reads_expect ")").pass fun _ => leads_node rfl (.refl _))
    refine .ite (fun _ => ?_) fun _ => .ite (fun _ => ?_) fun _ => .ite (fun _ => ?_) fun _ => .failure
    · refine leads_step stands more (.look looks_token fun t => ?_)
      extract_lets tail
      split
      · exact reads_advance.pass fun _ => leads_node rfl (.refl _)
      · exact .stop
    · exact leads_step stands more ((sound .typeOperand).then fun inner => leads_node rfl (.refl _))
    · refine leads_step stands more (.look (looks_seesAny _) fun ends => .ite (fun _ => leads_node rfl (.refl _)) fun _ => ?_)
      exact (sound .type).then fun inner => leads_node rfl (.refl _)
  · rename_i lexeme
    have more : s.token.lexeme ≠ .finish := by simp [lexeme]
    refine .ite (fun _ => ?_) fun _ => .ite (fun _ => reads_importType sound s stands) fun _ => .ite (fun _ => ?_) fun _ => ?_
    · refine leads_step stands more (.look (looks_sees "import") fun imported => .ite (fun _ => ?_) fun _ => ?_)
      · exact (reads_importType sound).after
      · exact (reads_typeReference sound).after
    · refine leads_step stands more (.look (looks_sees "is") fun is => .look looks_token fun t => .ite (fun _ => ?_) fun _ => ?_)
      · exact reads_advance.pass fun _ => (sound .type).then fun type => leads_node rfl (.refl _)
      · exact leads_node rfl (.refl _)
    · refine .look looks_peek fun _ => .look looks_peek fun _ => .look looks_peek fun _ => .ite (fun _ => ?_) fun _ => ?_
      · exact reads_predicate sound s stands
      · exact reads_typeReference sound s stands
  · exact .failure

theorem leads_suffix? {s : State} (n : Node) :
    Leads (Reading src s true [n]) (suffix? g s.token.start n) fun m => Reading src s true [m.getD n] := by
  refine .look looks_token fun t => .ite (fun _ => .pure fun _ reading => reading) fun _ => .ite (fun _ => ?_) fun _ => ?_
  · refine reads_advance.pass fun _ => leads_eat "]" ?_ ?_
    · exact .bind (leads_node rfl (.refl _)) fun m => .pure fun _ reading => reading
    · refine (sound .type).then fun index => (reads_expect "]").pass fun _ => ?_
      exact .bind (leads_node rfl (.refl _)) fun m => .pure fun _ reading => reading
  · refine .look looks_peek fun next => .ite (fun _ => ?_) fun _ => .pure fun _ reading => reading
    exact reads_advance.pass fun _ => .bind (leads_node rfl (.refl _)) fun m => .pure fun _ reading => reading

theorem reads_inferBound : Reads src true (inferBound g) := by
  intro s stands
  refine .begin stands ((reads_expect "extends").pass fun _ => (reads_within (sound .type)).then fun bound => ?_)
  refine .look looks_context fun c => .look (looks_sees "?") fun conditional => .guard fun _ => ?_
  exact .pure fun _ reading => reading

theorem reads_operand : Reads src true (operand g) := by
  intro s stands
  refine .position (.seesAny (.ite (fun mark => ?_) fun _ => .begin stands (leads_eat "infer" ?_ ?_)))
  · refine leads_step stands (Token.more_of_isOneOf mark) ?_
    exact (sound .typeOperand).then fun inner => leads_node rfl (.refl _)
  · refine Pattern.reads_bindingName.ignore fun name => (reads_attempt (reads_inferBound sound)).then fun bound => ?_
    cases bound <;> exact leads_node rfl (.refl _)
  · refine leads_within ((reads_primary sound).then fun inner => ?_)
    exact leads_extend (leads_suffix? sound) inner

end Prerender.Script.TypeSyntax
