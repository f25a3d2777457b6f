import Prerender.Proofs.Script.Grammar.Expression
import Prerender.Proofs.Script.Grammar.Module
import Prerender.Script.Grammar.Statement

set_option autoImplicit false

namespace Prerender.Script.StatementSyntax

open Parse

variable {src : Source} {g : Grammar} {s : State}

theorem looks_startsForVariables : Looks startsForVariables := by
  intro s
  refine .look looks_peek fun next => .look (looks_seesAny _) fun _ => .ite (fun _ => looks_pure _ s) fun _ => ?_
  refine .look (looks_sees _) fun _ => .ite (fun _ => looks_pure _ s) fun _ => ?_
  exact .look (looks_sees _) fun _ => .ite (fun _ => looks_pure _ s) fun _ => looks_pure _ s

variable (sound : g.Sound src)
include sound

theorem reads_inner : Reads src.loosely true (Expression.inner g) := (Expression.reads_inner sound).loosen

theorem reads_condition : Reads src.loosely true (condition g) := by
  intro s stands
  refine .begin stands ((reads_expect "(").pass fun _ => (reads_inner sound).then fun e => ?_)
  exact (reads_expect ")").pass fun _ => .pure fun _ reading => reading

theorem reads_body : Reads src.loosely true (body g) := sound (.statement true)

theorem leads_expressionStatement : Leads (Reading src.loosely s false []) (expressionStatement g s.token.start)
    fun n => Reading src.loosely s true [n] := by
  refine (reads_inner sound).then fun e => reads_semicolon.pass fun _ => ?_
  exact leads_node rfl (.refl _)

theorem reads_expressionOrLabeled : Reads src.loosely true (expressionOrLabeled g) := by
  intro s stands
  refine .position (.begin stands ((reads_inner sound).then fun e => ?_))
  have ends : Leads (Reading src.loosely s true [e]) (do semicolon; node .expressionStatement s.token.start [e])
      fun n => Reading src.loosely s true [n] := reads_semicolon.pass fun _ => leads_node rfl (.refl _)
  split
  · rename_i name reference
    have written := Node.written_of_kind reference nofun
    refine leads_eat ":" (.weaken (fun _ reading => reading.as_leaf (.name name) rfl written) ?_) ends
    exact (reads_body sound).then fun b => leads_node rfl (.refl _)
  · exact ends

section
variable (stands : s.Stands src.loosely) (more : s.token.lexeme ≠ .finish)
include stands more

theorem leads_if : Leads (· = s) (ifStatement g s.token.start) fun n => Reading src.loosely s true [n] := by
  refine leads_step stands more ((reads_condition sound).then fun test => (reads_body sound).then fun yes => ?_)
  exact leads_optional "else" (reads_body sound) fun no => leads_node rfl (.refl _)

theorem leads_do : Leads (· = s) (doStatement g s.token.start) fun n => Reading src.loosely s true [n] := by
  refine leads_step stands more ((reads_body sound).then fun b => (reads_expect "while").pass fun _ => ?_)
  refine (reads_condition sound).then fun test => (reads_eat ";").pass fun _ => leads_node rfl (.refl _)

theorem leads_guarded (keyword : String) :
    Leads (· = s) (guardedStatement g s.token.start keyword) fun n => Reading src.loosely s true [n] := by
  refine leads_step stands more ((reads_condition sound).then fun test => (reads_body sound).then fun b => ?_)
  exact leads_node rfl (.refl _)

end

theorem leads_forEach (awaits : Bool) (left : Node) : Leads (Reading src.loosely s true [left])
    (forEach g s.token.start awaits left) fun n => Reading src.loosely s true [n] := by
  refine .look (looks_sees _) fun isOf => (reads_flawIf _).pass fun _ => reads_advance.pass fun _ => ?_
  extract_lets tail
  have rest (right : Node) : Leads (Reading src.loosely s true [left, right]) (tail right) fun n => Reading src.loosely s true [n] := by
    refine (reads_expect ")").pass fun _ => (reads_body sound).then fun b => leads_node rfl (.refl _)
  exact .ite (fun _ => (Expression.reads_argument sound true).loosen.then rest) fun _ => (reads_inner sound).then rest

theorem reads_optionalUntil (symbol : String) : Reads src.loosely false (optionalUntil g symbol) := by
  intro s stands
  refine .look (looks_sees _) fun ends => .ite (fun _ => reads_absent s stands) fun _ => ?_
  exact (reads_inner sound).less false s stands

theorem leads_forLoop (awaits : Bool) (first : Node) : Leads (Reading src.loosely s true [first])
    (forLoop g s.token.start awaits first) fun n => Reading src.loosely s true [n] := by
  refine (reads_flawIf _).pass fun _ => (reads_expect ";").pass fun _ => (reads_optionalUntil sound ";").then fun test => ?_
  refine (reads_expect ";").pass fun _ => (reads_optionalUntil sound ")").then fun step => (reads_expect ")").pass fun _ => ?_
  exact (reads_body sound).then fun b => leads_node rfl (.refl _)

theorem leads_for (stands : s.Stands src.loosely) (more : s.token.lexeme ≠ .finish) :
    Leads (· = s) (forStatement g s.token.start) fun n => Reading src.loosely s true [n] := by
  refine leads_step stands more ((reads_eat "await").pass fun awaits => ?_)
  extract_lets closed tail
  have rest : Leads (Reading src.loosely s true []) (tail ()) fun n => Reading src.loosely s true [n] := by
    refine (reads_expect "(").pass fun _ => .look (looks_sees _) fun async => .look looks_peek fun next => ?_
    extract_lets isOfAsync loop
    have loops : Leads (Reading src.loosely s true []) (loop ()) fun n => Reading src.loosely s true [n] := by
      refine .look looks_startsForVariables fun declares => .ite (fun _ => .here fun s₁ reading => ?_) fun _ => ?_
      · refine .position (.look (looks_sees _) fun hoisted => .look (looks_sees _) fun constant => ?_)
        have strict : s₁.Stands src := reading.stands.as
        refine .begin strict (reads_advance.pass fun _ => ?_)
        refine .bind (leads_within (DeclarationSyntax.leads_declarators sound hoisted constant false)).loosen fun ds => ?_
        refine .look (looks_seesAny _) fun each => .onward reading (.ite (fun _ => leads_forEach sound awaits ds) fun _ => ?_)
        exact (reads_flawIf _).pass fun _ => leads_forLoop sound awaits ds
      · refine (reads_within (sound .expression)).loosen.then fun e => .look (looks_seesAny _) fun each => ?_
        refine .ite (fun _ => (Expression.reads_cover e).loosen.pass fun _ => ?_) fun _ => leads_forLoop sound awaits e
        exact .look (looks_sees _) fun isOf => (reads_flawIf _).pass fun _ => leads_forEach sound awaits e
    refine .look (looks_sees _) fun _ => .ite (fun _ => reads_absent.then (leads_forLoop sound awaits)) fun _ => ?_
    refine .look (looks_sees _) fun _ => .look looks_peek fun next => ?_
    exact .ite (fun _ => reads_advance.pass fun _ => loops) fun _ => loops
  exact .ite (fun _ => .look looks_context fun c => (reads_flawIf _).pass fun _ => rest) fun _ => rest

section
variable (stands : s.Stands src) (more : s.token.lexeme ≠ .finish)
include stands more

omit sound in
theorem leads_jump (keyword : String) :
    Leads (· = s) (jump s.token.start keyword) fun n => Reading src s true [n] := by
  refine leads_step stands more (.look looks_endsStatement fun ends => ?_)
  extract_lets tail
  have rest (label : Node) : Leads (Reading src s true [label]) (tail label) fun n => Reading src s true [n] :=
    reads_semicolon.pass fun _ => leads_node rfl (.refl _)
  exact .ite (fun _ => reads_absent.then rest) fun _ => Pattern.reads_bindingName.then rest

theorem leads_return : Leads (· = s) (returnStatement g s.token.start) fun n => Reading src s true [n] := by
  refine leads_step stands more (.look looks_endsStatement fun ends => ?_)
  extract_lets tail
  have rest (value : Node) : Leads (Reading src s true [value]) (tail value) fun n => Reading src s true [n] :=
    reads_semicolon.pass fun _ => .look looks_context fun c => (reads_flawIf _).pass fun _ => leads_node rfl (.refl _)
  exact .ite (fun _ => reads_absent.then rest) fun _ => (Expression.reads_inner sound).then rest

theorem leads_throw : Leads (· = s) (throwStatement g s.token.start) fun n => Reading src s true [n] := by
  refine leads_step stands more (.look looks_token fun t => (reads_flawIf _).pass fun _ => ?_)
  exact (Expression.reads_inner sound).then fun value => reads_semicolon.pass fun _ => leads_node rfl (.refl _)

end

theorem reads_caseClause : Reads src.loosely true (caseClause g) := by
  intro s stands
  refine .position (.begin stands ?_)
  extract_lets tail
  have rest (test : Node) : Leads (Reading src.loosely s true [test]) (tail test) fun n => Reading src.loosely s true [n] := by
    refine (reads_expect ":").pass fun _ => (reads_upTo (sound (.statement false)) _).then fun statements => ?_
    exact leads_node rfl (.refl _)
  refine leads_eat "default" (reads_absent.then rest) ((reads_expect "case").pass fun _ => ?_)
  exact (reads_inner sound).then rest

theorem reads_catchClause : Reads src true (catchClause g) := by
  intro s stands
  refine .position (.begin stands ?_)
  extract_lets tail
  have rest (used : Bool) (parameter : Node) : Leads (Reading src s used [parameter]) (tail parameter)
      fun n => Reading src s true [n] := by
    refine (FunctionSyntax.reads_block sound).then fun b => ?_
    rw [Bool.or_true]
    exact leads_node rfl (.refl _)
  refine leads_eat "(" ?_ (reads_absent.then (rest false))
  exact (Pattern.reads_annotated sound false).then fun p => (reads_expect ")").pass fun _ => rest true p

theorem leads_switch (stands : s.Stands src.loosely) (more : s.token.lexeme ≠ .finish) : Leads (· = s) (switchStatement g s.token.start) fun n => Reading src.loosely s true [n] := by
  refine leads_step stands more ((reads_condition sound).then fun subject => (reads_expect "\x7b").pass fun _ => ?_)
  refine (reads_upTo (reads_caseClause sound) _).then fun cases_ => (reads_expect "\x7d").pass fun _ => ?_
  exact leads_node rfl (.refl _)

theorem leads_try (stands : s.Stands src) (more : s.token.lexeme ≠ .finish) : Leads (· = s) (tryStatement g s.token.start) fun n => Reading src s true [n] := by
  refine leads_step stands more ((FunctionSyntax.reads_block sound).then fun b => ?_)
  refine leads_optional "catch" (reads_catchClause sound) fun handler => ?_
  refine leads_optional "finally" (FunctionSyntax.reads_block sound) fun final => ?_
  exact (reads_flawIf _).pass fun _ => leads_node rfl (.refl _)

theorem reads_letStatement (alone : Bool) : Reads src.loosely true (letStatement g alone) := by
  intro s stands
  refine .look looks_peek fun next => .ite (fun _ => reads_expressionOrLabeled sound s stands) fun _ => ?_
  exact .begin stands ((reads_flawIf _).pass fun _ => (DeclarationSyntax.reads_variableList sound).loosen.after)

theorem reads_functionStatement (alone : Bool) : Reads src true (functionStatement g alone) := by
  intro s stands
  refine .look (looks_sees _) fun async => .look looks_peek fun next => .begin stands ((reads_flawIf _).pass fun _ => ?_)
  exact (FunctionSyntax.reads_function sound _).after

theorem leads_classStatement {used : Bool} {ds : List Node} (alone : Bool) (are : ∀ d ∈ ds, d.kind = .decorator) :
    Leads (Reading src s used ds) (classStatement g ds alone) fun n => Reading src s true [n] := by
  refine (reads_flawIf _).pass fun _ => .look looks_isTyped fun typed => ?_
  extract_lets tail
  have rest : Leads (Reading src s used ds) (tail ()) fun n => Reading src s true [n] := by
    refine (ClassSyntax.reads_definition sound).then fun c => ?_
    rw [Bool.or_true]
    exact Pattern.leads_decorate are
  rw [Bool.or_false]
  refine .ite (fun _ => (reads_eat _).pass fun _ => ?_) fun _ => rest
  rwa [Bool.or_false]

theorem reads_decoratedStatement (alone : Bool) : Reads src true (decoratedStatement g alone) := by
  intro s stands
  refine .position (.begin stands ((Pattern.reads_decorators sound).given Pattern.gives_decorators fun ds are => ?_))
  refine .look (looks_sees _) fun exports => .ite (fun _ => ?_) fun _ => leads_classStatement sound alone are
  exact ModuleSyntax.leads_exportDeclaration sound ds are

theorem leads_using (stands : s.Stands src) : Leads (· = s) (usingStatement g s.token.start)
    fun n => Reading src s true [n] := by
  refine .begin stands ((reads_eat "await").pass fun _ => (reads_expect "using").pass fun _ => ?_)
  refine .bind (.weaken (fun _ reading => reading.forget) (DeclarationSyntax.leads_declarators sound false true true)) fun ds => ?_
  exact reads_semicolon.pass fun _ => .pure fun _ reading => reading

theorem leads_wordStatement (stands : s.Stands src.loosely) (more : s.token.lexeme ≠ .finish) (alone : Bool) :
    Leads (· = s) (wordStatement g alone) fun n => Reading src.loosely s true [n] := by
  refine .position (.token ?_)
  refine .ite (fun _ => leads_if sound stands more) fun _ => .ite (fun _ => leads_do sound stands more) fun _ => ?_
  refine .ite (fun _ => leads_guarded sound stands more _) fun _ => .ite (fun _ => leads_guarded sound stands more _) fun _ => ?_
  refine .ite (fun _ => leads_for sound stands more) fun _ => .ite (fun _ => (leads_jump stands.as more _).loosen) fun _ => ?_
  refine .ite (fun _ => (leads_jump stands.as more _).loosen) fun _ => .ite (fun _ => (leads_return sound stands.as more).loosen) fun _ => ?_
  refine .ite (fun _ => (leads_throw sound stands.as more).loosen) fun _ => .ite (fun _ => leads_switch sound stands more) fun _ => ?_
  refine .ite (fun _ => (leads_try sound stands.as more).loosen) fun _ => .ite (fun _ => ?_) fun _ => ?_
  · exact leads_step stands more (reads_semicolon.pass fun _ => leads_node rfl (.refl _))
  refine .ite (fun _ => (Leads.begin stands.as (leads_classStatement sound alone nofun)).loosen) fun _ => .ite (fun _ => ?_) fun _ => ?_
  · exact (Leads.begin stands.as (ModuleSyntax.leads_exportDeclaration sound [] nofun)).loosen
  refine .ite (fun _ => (DeclarationSyntax.reads_variableList sound).loosen s stands) fun _ => .ite (fun _ => ?_) fun _ => ?_
  · exact .begin stands ((reads_flawIf _).pass fun _ => (DeclarationSyntax.reads_declaration sound).loosen.after)
  refine .ite (fun _ => reads_letStatement sound alone s stands) fun _ => ?_
  refine .look FunctionSyntax.looks_starts fun _ => .ite (fun _ => (reads_functionStatement sound alone).loosen s stands) fun _ => ?_
  refine .look looks_peek fun next => .ite (fun _ => ModuleSyntax.reads_importDeclaration s stands) fun _ => ?_
  refine .look (looks_lookaheadOr _ _) fun _ => .ite (fun _ => (leads_using sound stands.as).loosen) fun _ => ?_
  refine .look looks_isTyped fun _ => .look DeclarationSyntax.looks_starts fun _ => .ite (fun _ => ?_) fun _ => ?_
  · exact (DeclarationSyntax.reads_declaration sound).loosen s stands
  · exact reads_expressionOrLabeled sound s stands

theorem reads_statement (alone : Bool) : Reads src.loosely true (statement g alone) := by
  intro s stands
  refine .position (.token ?_)
  split
  · rename_i lexeme
    exact leads_wordStatement sound stands (by simp [lexeme]) alone
  refine .look (looks_sees _) fun _ => .ite (fun _ => (FunctionSyntax.reads_block sound).loosen s stands) fun _ => ?_
  refine .begin stands (leads_eat ";" (leads_node rfl (.refl _)) ?_)
  refine .look (looks_sees _) fun _ => .ite (fun _ => (reads_decoratedStatement sound alone).loosen.after) fun _ => ?_
  exact leads_expressionStatement sound

end Prerender.Script.StatementSyntax
