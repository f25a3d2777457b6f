import Prerender.Proofs.Script.Grammar.Declaration
import Prerender.Script.Grammar.Module

set_option autoImplicit false

namespace Prerender.Script

def Node.IsClause (n : Node) : Prop := ∀ m ∈ n.descendants, m.kind.isClausePart = true

theorem Node.isClause_mk {kind : Kind} {span : Span} {parts : List Node} (is : kind.isClausePart = true)
    (are : ∀ part ∈ parts, part.IsClause) : (Node.mk kind span parts).IsClause := by
  intro m member
  rw [descendants] at member
  rcases List.mem_cons.mp member with rfl | member
  · exact is
  · obtain ⟨part, part_in, below⟩ := (mem_descendantsOf parts m).mp member
    exact are part part_in m below

theorem Node.isClause_leaf {kind : Kind} {span : Span} (is : kind.isClausePart = true) :
    (Node.mk kind span []).IsClause := isClause_mk is nofun

namespace ModuleSyntax

open Parse

variable {src : Source} {g : Grammar}

theorem gives_bindingName : Gives Pattern.bindingName Node.IsClause := by
  refine .skip fun t => ?_
  split
  · refine .ite (fun _ => .stop) fun _ => .skip fun c => .skip fun _ => .single fun _ => Node.isClause_leaf rfl
  · exact .failure

theorem gives_wordName : Gives Pattern.wordName Node.IsClause := by
  refine .skip fun t => ?_
  split
  · exact .single fun _ => Node.isClause_leaf rfl
  · exact .failure

theorem gives_stringLiteral : Gives Pattern.stringLiteral Node.IsClause := by
  refine .skip fun t => ?_
  split
  · exact .single fun _ => Node.isClause_leaf rfl
  · exact .failure

theorem gives_absent : Gives absent Node.IsClause := .skip fun _ => .pure (Node.isClause_leaf rfl)

theorem reads_attributeEntry : Reads src true attributeEntry := by
  intro s stands
  refine .position (.token ?_)
  extract_lets tail
  have rest (key : Node) : Leads (Reading src s true [key]) (tail key) fun n => Reading src s true [n] := by
    refine (reads_expect ":").pass fun _ => Pattern.reads_stringLiteral.then fun value => ?_
    exact leads_node rfl (.refl _)
  split
  · rename_i lexeme
    exact .bind (.level (leads_single rfl stands (by simp [lexeme]))) rest
  · exact .bind (Pattern.reads_wordName s stands) rest

theorem gives_attributeEntry : Gives attributeEntry Node.IsClause := by
  refine .skip fun start => .skip fun t => ?_
  extract_lets tail
  have rest (key : Node) (is : key.IsClause) : Gives (tail key) Node.IsClause := by
    refine .skip fun _ => .bind gives_stringLiteral fun value value_is => .node fun _ => ?_
    exact Node.isClause_mk rfl (by simp [is, value_is])
  split
  · exact .bind (.single fun _ => Node.isClause_leaf rfl) rest
  · exact .bind gives_wordName rest

theorem reads_attributes : Reads src false attributes := by
  intro s stands
  refine .position (.look (looks_sees _) fun _ => .look (looks_sees _) fun _ => .look looks_token fun t => ?_)
  refine .ite (fun _ => .begin stands (reads_advance.pass fun _ => ?_)) fun _ => reads_absent s stands
  refine (reads_expect "\x7b").pass fun _ => (reads_commas reads_attributeEntry "\x7d").then fun entries => ?_
  refine (reads_expect "\x7d").pass fun _ => (reads_flawIf _).pass fun _ => ?_
  exact (leads_node rfl (.refl _)).widen fun _ _ reading => reading.less false

theorem gives_attributes : Gives attributes Node.IsClause := by
  refine .skip fun start => .skip fun _ => .skip fun _ => .skip fun t => .ite (fun _ => ?_) fun _ => gives_absent
  refine .skip fun _ => .skip fun _ => .bind (gives_commas gives_attributeEntry "\x7d") fun entries are => ?_
  exact .skip fun _ => .skip fun _ => .node fun _ => Node.isClause_mk rfl are

theorem reads_entryName : Reads src true entryName := by
  intro s stands
  refine .token ?_
  split
  · rename_i lexeme
    exact .level (leads_single rfl stands (by simp [lexeme]))
  · exact Pattern.reads_wordName s stands

theorem gives_entryName : Gives entryName Node.IsClause := by
  refine .skip fun t => ?_
  split
  · exact .single fun _ => Node.isClause_leaf rfl
  · exact gives_wordName

theorem reads_importEntry : Reads src true importEntry := by
  intro s stands
  refine .position (.begin stands (.look (looks_lookaheadOr _ _) fun typed => .when (fun _ => reads_advance.keep) ?_))
  refine .look looks_peek fun next => .ite (fun _ => ?_) fun _ => ?_
  · refine reads_entryName.then fun name => (reads_expect "as").pass fun _ => Pattern.reads_bindingName.then fun bound => ?_
    exact leads_node rfl (.refl _)
  · exact Pattern.reads_bindingName.then fun bound => leads_node rfl (.refl _)

theorem gives_importEntry : Gives importEntry Node.IsClause := by
  refine .skip fun start => .skip fun typed => ?_
  extract_lets tail
  have rest : Gives (tail ()) Node.IsClause := by
    refine .skip fun next => .ite (fun _ => ?_) fun _ => ?_
    · refine .bind gives_entryName fun name is => .skip fun _ => .bind gives_bindingName fun bound bound_is => ?_
      exact .node fun _ => Node.isClause_mk rfl (by simp [is, bound_is])
    · exact .bind gives_bindingName fun bound is => .node fun _ => Node.isClause_mk rfl (by simp [is])
  exact .ite (fun _ => .skip fun _ => rest) fun _ => rest

theorem reads_importAll : Reads src true importAll := by
  intro s stands
  refine .position (.begin stands ((reads_expect "*").pass fun _ => (reads_expect "as").pass fun _ => ?_))
  exact Pattern.reads_bindingName.then fun bound => leads_node rfl (.refl _)

theorem gives_importAll : Gives importAll Node.IsClause :=
  .skip fun _ => .skip fun _ => .skip fun _ => .bind gives_bindingName fun _ is =>
    .node fun _ => Node.isClause_mk rfl (by simp [is])

theorem reads_importList : Reads src true importList := by
  intro s stands
  refine .begin stands ((reads_expect "\x7b").pass fun _ => (reads_commas reads_importEntry "\x7d").then fun entries => ?_)
  exact (reads_expect "\x7d").pass fun _ => .pure fun _ reading => reading

theorem reads_importNamed : Reads src true importNamed := by
  intro s stands
  refine .begin stands (.look (looks_sees _) fun all => .ite (fun _ => ?_) fun _ => reads_importList.after)
  exact reads_importAll.then fun entry => .pure fun _ reading => reading

theorem gives_importNamed : Gives importNamed fun entries => ∀ entry ∈ entries, entry.IsClause := by
  refine .skip fun all => .ite (fun _ => ?_) fun _ => ?_
  · exact .bind gives_importAll fun entry is => .pure (List.forall_mem_singleton.mpr is)
  · exact .skip fun _ => .bind (gives_commas gives_importEntry "\x7d") fun entries are => .skip fun _ => .pure are

theorem reads_importClause : Reads src true importClause := by
  intro s stands
  refine .begin stands (.look looks_token fun t => .ite (fun _ => ?_) fun _ => reads_importNamed.after)
  refine Pattern.reads_bindingName.then fun default => leads_eat "," ?_ (.pure fun _ reading => reading)
  exact reads_importNamed.then fun entries => .pure fun _ reading => reading

theorem gives_importClause : Gives importClause fun entries => ∀ entry ∈ entries, entry.IsClause := by
  refine .skip fun t => .ite (fun _ => ?_) fun _ => gives_importNamed
  refine .bind gives_bindingName fun default is => .skip fun more => .ite (fun _ => ?_) fun _ => ?_
  · exact .bind gives_importNamed fun entries are => .pure (List.forall_mem_cons.mpr ⟨is, are⟩)
  · exact .pure (List.forall_mem_singleton.mpr is)

theorem looks_startsPhase : Looks startsPhase := by
  intro s
  refine .look looks_peek fun next => .look (looks_sees _) fun _ => .ite (fun _ => looks_pure _ s) fun _ => ?_
  refine .look (looks_sees _) fun _ => .ite (fun _ => .ite (fun _ => ?_) fun _ => looks_pure _ s) fun _ => looks_pure _ s
  exact looks_lookaheadOr _ _ s

-- What stands where an import begins: an alias, or a declaration around the parts of its clause.
def IsImport (src : Source) (s : State) (n : Node) (s' : State) : Prop :=
  Reading src s true [n] s' ∨ ∃ source parts, n = .mk (.importDeclaration source) ⟨s.token.start, s'.lastStop⟩ parts ∧
    Reading src s true parts s' ∧ ∀ part ∈ parts, part.IsClause

theorem leads_importNode {s : State} {source : String} {parts : List Node} (are : ∀ part ∈ parts, part.IsClause) :
    Leads (Reading src s true parts) (node (.importDeclaration source) s.token.start parts) (IsImport src s) := by
  rintro s₁ n s' reading run
  cases run
  exact .inr ⟨source, parts, rfl, reading, are⟩

theorem leads_importDeclaration {s : State} (stands : s.Stands src) :
    Leads (· = s) importDeclaration (IsImport src s) := by
  refine .position (.begin stands ((reads_expect "import").pass fun _ => .look (looks_lookaheadOr _ _) fun aliased => ?_))
  refine .ite (fun _ => DeclarationSyntax.leads_importAlias.widen fun _ _ reading => .inl reading) fun _ => ?_
  refine .look (looks_lookaheadOr _ _) fun typed => ?_
  extract_lets named tail
  have ends (entries : List Node) (are : ∀ entry ∈ entries, entry.IsClause) :
      Leads (Reading src s true entries) (named entries) (IsImport src s) := by
    refine .look looks_token fun t => ?_
    split
    · refine reads_advance.pass fun _ => reads_attributes.given gives_attributes fun attributes is => ?_
      exact reads_semicolon.pass fun _ => leads_importNode (List.forall_mem_append.mpr ⟨are, List.forall_mem_singleton.mpr is⟩)
    · exact .failure
  have rest : Leads (Reading src s true []) (tail ()) (IsImport src s) := by
    refine .look looks_token fun t => .ite (fun _ => ends [] nofun) fun _ => ?_
    exact reads_importClause.given gives_importClause fun entries are => (reads_expect "from").pass fun _ => ends entries are
  refine .ite (fun _ => reads_advance.pass fun _ => rest) fun _ => .look looks_startsPhase fun phased => ?_
  exact .ite (fun _ => reads_advance.pass fun _ => rest) fun _ => rest

theorem reads_importDeclaration : Reads src.loosely true importDeclaration := by
  rintro s stands t n s' rfl run
  rcases leads_importDeclaration stands.as t n s' rfl run with reading | ⟨source, parts, rfl, reading, are⟩
  · exact reading.loosen
  have clause : ∀ m ∈ Node.descendantsOf parts, m.kind.isClausePart = true := by
    intro m member
    obtain ⟨part, part_in, below⟩ := (Node.mem_descendantsOf parts m).mp member
    exact are part part_in m below
  have formed : (Node.mk (.importDeclaration source) ⟨t.token.start, s'.lastStop⟩ parts).Formed src :=
    ⟨reading.row.within, reading.row.ordered.imp fun parted => parted.imp_right fun parted => parted.imp_right .inr,
      nofun, nofun, nofun, fun _ => clause, fun _ => ⟨t, s', stands.as, rfl, run⟩⟩
  exact { reading.loosen with
    row := .single (.inr ⟨reading.used rfl, Nat.le_refl _, Nat.le_refl _⟩)
      (Node.sound_of_parts formed reading.row.sound) nofun }

theorem reads_exportEntry : Reads src true exportEntry := by
  intro s stands
  refine .position (.begin stands (.look (looks_lookaheadOr _ _) fun typed => .when (fun _ => reads_advance.keep) ?_))
  refine reads_entryName.then fun name => leads_eat "as" ?_ (leads_node rfl (.refl _))
  exact reads_entryName.then fun exported => leads_node rfl (.refl _)

theorem leads_exportList {s : State} : Leads (Reading src s true []) (exportList s.token.start)
    fun n => Reading src s true [n] := by
  refine (reads_expect "\x7b").pass fun _ => (reads_commas reads_exportEntry "\x7d").then fun entries => ?_
  refine (reads_expect "\x7d").pass fun _ => leads_eat "from" ?_ ?_
  · refine Pattern.reads_stringLiteral.then fun source => reads_attributes.then fun attributes => ?_
    exact reads_semicolon.pass fun _ => leads_node rfl (by simp [nodes])
  · exact (reads_flawIf _).pass fun _ => reads_semicolon.pass fun _ => leads_node rfl (.refl _)

theorem leads_exportAll {s : State} : Leads (Reading src s true []) (exportAll s.token.start)
    fun n => Reading src s true [n] := by
  refine (reads_expect "*").pass fun _ => ?_
  extract_lets tail
  have rest (name : Node) : Leads (Reading src s true [name]) (tail name) fun n => Reading src s true [n] := by
    refine (reads_expect "from").pass fun _ => Pattern.reads_stringLiteral.then fun source => ?_
    refine reads_attributes.then fun attributes => reads_semicolon.pass fun _ => leads_node rfl (.refl _)
  refine leads_eat "as" (.here fun s₁ reading => .position (.begin reading.stands (reads_entryName.then fun name => ?_))) ?_
  · exact .bind (leads_node rfl (.refl _)) fun entry => .onward reading (rest entry)
  · exact reads_absent.then rest

variable (sound : g.Sound src)
include sound

theorem leads_exportDefault {s : State} (ds : List Node) (are : ∀ d ∈ ds, d.kind = .decorator) :
    Leads (Reading src s true ds) (exportDefault g s.token.start ds) fun n => Reading src s true [n] := by
  refine (reads_expect "default").pass fun _ => (Pattern.reads_decorators sound).given Pattern.gives_decorators fun ds' are' => ?_
  refine .look looks_peek fun next => ?_
  extract_lets tail
  have rest (value : Node) : Leads (Reading src s true [value]) (tail value) fun n => Reading src s true [n] :=
    leads_node rfl (.refl _)
  have decorated (c : Node) : Leads (Reading src s true (ds ++ ds' ++ [c])) (Pattern.decorate (ds ++ ds') c >>= tail)
      fun n => Reading src s true [n] :=
    .bind (Pattern.leads_decorate (List.forall_mem_append.mpr ⟨are, are'⟩)) rest
  -- Decorators in front of anything else are left out of the tree.
  have alone (value : Node) : Leads (Reading src s true (ds ++ ds' ++ [value])) (tail value)
      fun n => Reading src s true [n] := leads_node rfl (List.sublist_append_right _ _)
  refine .look (looks_sees _) fun _ => .look looks_isTyped fun _ => .look (looks_sees _) fun _ => ?_
  refine .look looks_isTyped fun _ => .look (looks_sees _) fun _ => .look FunctionSyntax.looks_starts fun _ => ?_
  refine .ite (fun _ => (ClassSyntax.reads_definition sound).then decorated) fun _ => ?_
  refine .ite (fun _ => reads_advance.pass fun _ => (ClassSyntax.reads_definition sound).then decorated) fun _ => ?_
  refine .ite (fun _ => (DeclarationSyntax.reads_interface sound).then alone) fun _ => ?_
  refine .ite (fun _ => (FunctionSyntax.reads_function sound _).then alone) fun _ => ?_
  exact (sound (.assignment true)).then fun e => reads_semicolon.pass fun _ => alone e

theorem leads_exportDeclaration {s : State} {used : Bool} (ds : List Node) (are : ∀ d ∈ ds, d.kind = .decorator) :
    Leads (Reading src s used ds) (exportDeclaration g s.token.start ds) fun n => Reading src s true [n] := by
  refine (reads_expect "export").pass fun _ => .look looks_isTyped fun typed => .look looks_peek fun next => ?_
  rw [Bool.or_true]
  have bare : ∀ s', Reading src s true ds s' → Reading src s true [] s' :=
    fun _ reading => reading.sublist (List.nil_sublist ds)
  have alone {kind : Kind} (plain : kind.isPlain = true) (value : Node) :
      Leads (Reading src s true (ds ++ [value])) (node kind s.token.start [value])
        fun n => Reading src s true [n] := leads_node plain (List.sublist_append_right _ _)
  refine .look (looks_sees _) fun _ => .ite (fun _ => leads_exportDefault sound ds are) fun _ => ?_
  refine .look (looks_sees _) fun _ => .ite (fun _ => leads_exportAll.weaken bare) fun _ => ?_
  refine .look (looks_sees _) fun _ => .ite (fun _ => leads_exportList.weaken bare) fun _ => ?_
  refine (reads_eatIf typed "=").pass fun assigned => .ite (fun _ => ?_) fun _ => ?_
  · exact (sound .expression).then fun e => reads_semicolon.pass fun _ => alone rfl e
  refine .look (looks_sees _) fun _ => .ite (fun _ => reads_advance.pass fun _ => reads_advance.pass fun _ => ?_) fun _ => ?_
  · exact Pattern.reads_bindingName.then fun name => reads_semicolon.pass fun _ => alone rfl name
  refine .look (looks_sees _) fun _ => .ite (fun _ => reads_advance.pass fun _ => ?_) fun _ => ?_
  · exact .look (looks_sees _) fun _ => .ite (fun _ => leads_exportAll.weaken bare) fun _ => leads_exportList.weaken bare
  refine (Pattern.reads_decorators sound).given Pattern.gives_decorators fun ds' are' => ?_
  refine (DeclarationSyntax.reads_declaration sound).then fun d => ?_
  exact .bind (Pattern.leads_decorate (List.forall_mem_append.mpr ⟨are, are'⟩)) fun d => leads_node rfl (.refl _)

end ModuleSyntax
end Prerender.Script
