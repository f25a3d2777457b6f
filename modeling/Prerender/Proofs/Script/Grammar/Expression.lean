import Prerender.Proofs.Script.Grammar.Class
import Prerender.Script.Grammar.Expression

set_option autoImplicit false

namespace Prerender.Script.Expression

open Parse

variable {src : Source} {g : Grammar}

instance : Holds (List (Option String) × List Node) := ⟨fun pieces => pieces.2⟩

theorem reads_memberName : Reads src true memberName := by
  intro s stands
  refine .token ?_
  split
  · rename_i lexeme
    exact .level (leads_single rfl stands (by simp [lexeme]))
  · rename_i lexeme
    exact .level (leads_single rfl stands (by simp [lexeme]))
  · exact .failure

theorem reads_variableName : Reads src true variableName := by
  intro s stands
  refine .token ?_
  split
  · rename_i lexeme
    refine .look looks_context fun c => .guard fun _ => .level ?_
    exact leads_single rfl stands (by simp [lexeme])
  · exact .failure

-- A callee and its type arguments, which may have been read as one expression.
theorem leads_split {s₀ : State} {e : Node} : Leads (Reading src s₀ true [e]) (split e)
    fun parts => Reading src s₀ true [parts.1, parts.2] := by
  unfold split
  split
  · rename_i is parts
    refine .pure fun s reading => ?_
    have row := reading.row.opened (Node.written_of_kind is nofun) (by rw [is]; rfl)
    exact { reading with row := parts ▸ row }
  · exact reads_absent.then fun nothing => .pure fun _ reading => reading

theorem leads_chain {s : State} (x : Chained) :
    Leads (Reading src s true [x.1]) (chain s.token.start x) fun n => Reading src s true [n] :=
  .ite (fun _ => leads_node rfl (.refl _)) fun _ => .pure fun _ reading => reading

theorem reads_covers (covers : State → List Nat) :
    Reads src false (modify fun s => { s with covers := covers s } : Parse Unit) := by
  rintro s stands t u s' rfl run
  cases run
  exact (Reading.begin stands).change rfl rfl rfl

theorem reads_cover (e : Node) : Reads src false (cover e) := by
  intro s stands
  exact .ite (fun _ => reads_covers _ s stands) fun _ => .failure

variable (sound : g.Sound src)
include sound

theorem reads_inner : Reads src true (inner g) := reads_within (sound .expression)

theorem reads_argument (returnType : Bool) : Reads src true (argument g returnType) := reads_within (sound (.assignment returnType))

theorem reads_spread : Reads src true (spread g) := by
  intro s stands
  refine .position (.begin stands ((reads_expect "...").pass fun _ => ?_))
  exact (reads_argument sound true).then fun e => leads_node rfl (.refl _)

theorem reads_spreadOrArgument : Reads src true (spreadOrArgument g) := by
  intro s stands
  refine .look (looks_sees _) fun spreads => .ite (fun _ => ?_) fun _ => ?_
  · exact reads_spread sound s stands
  · exact reads_argument sound true s stands

theorem reads_arguments : Reads src true (arguments g) := by
  intro s stands
  refine .begin stands ((reads_expect "(").pass fun _ => (reads_commas (reads_spreadOrArgument sound) ")").then fun items => ?_)
  exact (reads_expect ")").pass fun _ => .pure fun _ reading => reading

theorem reads_templateCounted (n : Nat) : Reads src true (templateCounted g n) := by
  induction n with
  | zero => exact fun _ _ => .failure
  | succ n ih =>
      intro s stands
      refine .token ?_
      split
      · rename_i lexeme
        exact leads_step stands (by simp [lexeme]) (.pure fun _ reading => reading)
      · rename_i lexeme
        refine leads_step stands (by simp [lexeme]) ((reads_inner sound).then fun e => .here fun s₁ reading => ?_)
        refine .token (.token ?_)
        split
        · rename_i closes piece
          exact leads_piece reading closes piece (ih.then fun rest => .pure fun _ reading => reading)
        · exact .failure
      · exact .failure

theorem reads_template (tagged : Bool) : Reads src true (template g tagged) := by
  intro s stands
  refine .position (.begin stands (.look looks_get fun t => (reads_templateCounted sound _).then fun pieces => ?_))
  exact (reads_flawIf _).pass fun _ => leads_node rfl (.refl _)

theorem reads_element : Reads src false (element g) := by
  intro s stands
  refine .look (looks_sees _) fun hole => .ite (fun _ => reads_absent s stands) fun _ => ?_
  exact (reads_spreadOrArgument sound).less false s stands

theorem reads_array : Reads src true (array g) := by
  intro s stands
  refine .position (.begin stands ((reads_expect "[").pass fun _ => (reads_commas (reads_element sound) "]").then fun items => ?_))
  exact (reads_expect "]").pass fun _ => leads_node rfl (.refl _)

theorem reads_parenthesized : Reads src true (parenthesized g) := by
  intro s stands
  refine .position (.begin stands ((reads_expect "(").pass fun _ => (reads_inner sound).then fun e => ?_))
  exact (reads_expect ")").pass fun _ => leads_node rfl (.refl _)

theorem leads_shorthandProperty {s s₁ : State} {key : Node} (name : String) (named : Reading src s true [key] s₁)
    (plain : key.isPlainName = true) :
    Leads (· = s₁) (shorthand g s.token.start name key) fun n => Reading src s true [n] := by
  have target := named.again.as_leaf (.reference name) rfl (Node.written_of_plain plain)
  refine .look looks_context fun c => .guard fun _ => .resume target (leads_eat "=" ?_ (leads_shorthand named plain))
  refine (reads_argument sound true).then fun value => .bind (leads_node rfl (.refl _)) fun assignment => ?_
  exact (reads_covers _).pass fun _ => leads_shorthand named plain

theorem reads_property : Reads src true (property g) := by
  intro s stands
  refine .position (.look (looks_sees _) fun spreads => .ite (fun _ => ?_) fun _ => ?_)
  · exact reads_spread sound s stands
  refine .begin stands (FunctionSyntax.reads_form.pass fun form => .here fun s₁ formed => .token ?_)
  refine .look (looks_sees _) fun computed => .bind (Pattern.leads_propertyName sound formed.stands) fun key => ?_
  refine .here fun s₂ ⟨named, plain⟩ => ?_
  have keyed : Reading src s true [key] s₂ := formed.trans named
  split
  · exact .failure
  extract_lets ends
  have finish (f : Node) : Leads (Reading src s true [key, f]) (ends f) fun n => Reading src s true [n] :=
    .guard fun _ => leads_node rfl (.refl _)
  refine .look (looks_seesAny _) fun callable => .ite (fun _ => .resume keyed ?_) fun _ => .resume keyed ?_
  · split
    · exact (FunctionSyntax.reads_accessor sound _).then fun f => finish f
    · exact (FunctionSyntax.reads_method sound _ _).then fun f => finish f
  · refine leads_eat ":" ?_ ?_
    · exact (reads_argument sound true).then fun value => leads_node rfl (.refl _)
    · rw [if_neg Bool.false_ne_true]
      split
      · rename_i name escaped lexeme _
        have plain := plain (by simp [Token.isWord, lexeme])
        exact .here fun s₃ keyed => leads_shorthandProperty sound name keyed plain
      · exact .failure

omit sound in
theorem gives_property : Gives (property g) fun n => n.isLeftOut = false := by
  refine .skip fun start => .skip fun spreads => .ite (fun _ => ?_) fun _ => ?_
  · exact .skip fun _ => .skip fun _ => .skip fun _ => .node fun _ => rfl
  refine .skip fun form => .skip fun t => .skip fun computed => .skip fun key => ?_
  split
  · exact .failure
  extract_lets ends
  have finish (f : Node) : Gives (ends f) fun n => n.isLeftOut = false :=
    .ite (fun _ => .skip fun _ => .node fun _ => rfl) fun _ => .node fun _ => rfl
  refine .skip fun callable => .ite (fun _ => ?_) fun _ => .skip fun colon => .ite (fun _ => ?_) fun _ => ?_
  · split
    · exact .skip fun f => finish f
    · exact .skip fun f => finish f
  · exact .skip fun value => .node fun _ => rfl
  split
  · refine .skip fun c => .ite (fun _ => .skip fun _ => ?_) fun _ => ?_
    all_goals
      refine .skip fun equals => .ite (fun _ => ?_) fun _ => .node fun _ => rfl
      exact .skip fun _ => .skip fun _ => .skip fun _ => .node fun _ => rfl
  · exact .failure

theorem reads_object : Reads src true (object g) := by
  intro s stands
  refine .position (.bind (reads_expect "\x7b" s stands) fun _ => .here fun s₁ opened => ?_)
  have properties := (reads_commas (reads_property sound) "\x7d" s₁ opened.stands).both
    ((gives_commas gives_property "\x7d").weaken fun _ _ => trivial)
  refine .bind properties fun items => .here fun s₂ ⟨read, written⟩ => ?_
  refine .bind (reads_expect "\x7d" s₂ read.stands) fun _ => .here fun s₃ closed => ?_
  have whole : Reading src s true items.1 s₃ :=
    ((opened.trans read).trans closed).sublist (List.sublist_append_left items.1 [])
  have opens : s.token.start < s₁.token.start := Nat.lt_of_lt_of_le (opened.used rfl) opened.stands.behind
  have closes : s₂.lastStop < s₃.lastStop := Nat.lt_of_le_of_lt read.stands.behind (closed.used rfl)
  have room : s.token.start + 1 < s₃.lastStop :=
    Nat.lt_of_le_of_lt (Nat.lt_of_lt_of_le opens read.onward) (closed.used rfl)
  rintro t n s' rfl run
  cases run
  have formed : (Node.mk (.object items.2) ⟨s.token.start, t.lastStop⟩ items.1).Formed src := by
    refine ⟨whole.row.within, ?_, nofun, fun _ => ⟨room, fun part part_in => ?_⟩, fun _ => whole.row.snug rfl, nofun, nofun⟩
    · exact whole.row.ordered.imp fun parted => parted.imp_right fun parted => parted.imp_right .inr
    · have solid := written part part_in
      have inside := (read.row.within part part_in).resolve_left (by simp [solid])
      exact ⟨solid, Nat.lt_of_lt_of_le opens inside.2.1, Nat.lt_of_le_of_lt inside.2.2 closes⟩
  exact { whole with
    row := .single (.inr ⟨whole.used rfl, Nat.le_refl _, Nat.le_refl _⟩)
      (Node.sound_of_parts formed whole.row.sound) fun strict =>
        Node.snug_of_parts rfl (fun part part_in => (whole.row.within part part_in).imp_right fun inside => inside.2.2)
          (whole.row.snug strict) }

theorem leads_index {s : State} (e : Node) : Leads (Reading src s true [e]) (index g s.token.start e)
    fun n => Reading src s true [n] := by
  refine (reads_expect "[").pass fun _ => (reads_inner sound).then fun i => (reads_expect "]").pass fun _ => ?_
  exact leads_node rfl (.refl _)

theorem leads_tagged {s : State} (e : Node) : Leads (Reading src s true [e]) (tagged g s.token.start e)
    fun n => Reading src s true [n] := by
  refine .bind leads_split fun parts => ?_
  exact (reads_template sound true).then fun t => leads_node rfl (.refl _)

omit sound in
theorem leads_found {s₀ : State} {p : Parse Node} {ns : List Node} {x : Chained} {chained : Bool}
    (leads : Leads (Reading src s₀ true ns) p fun n => Reading src s₀ true [n]) :
    Leads (Reading src s₀ true ns) (p >>= fun n => pure (some (n, chained)))
      fun y => Reading src s₀ true [(y.getD x).1] := .bind leads fun _ => .pure fun _ reading => reading

omit sound in
theorem leads_nothing {s₀ : State} {x : Chained} : Leads (Reading src s₀ true [x.1]) (pure none)
    fun y => Reading src s₀ true [(y.getD x).1] := .pure fun _ reading => reading

theorem leads_memberStep {s : State} (x : Chained) : Leads (Reading src s true [x.1])
    (memberStep g s.token.start x) fun y => Reading src s true [(y.getD x).1] := by
  obtain ⟨e, chained⟩ := x
  have named (b : Bool) : Leads (Reading src s true [e])
      (memberName >>= fun name => node .member s.token.start [e, name] >>= fun n => pure (some (n, b)))
      fun y => Reading src s true [(y.getD (e, chained)).1] :=
    reads_memberName.then fun name => leads_found (leads_node rfl (.refl _))
  refine .look looks_token fun t => .look looks_context fun c => ?_
  refine .ite (fun _ => reads_advance.pass fun _ => named _) fun _ => .ite (fun _ => ?_) fun _ => ?_
  · refine .look looks_peek fun next => ?_
    split
    · exact reads_advance.pass fun _ => named _
    · exact reads_advance.pass fun _ => named _
    · exact .ite (fun _ => reads_advance.pass fun _ => leads_found (leads_index sound e)) fun _ => leads_nothing
  refine .ite (fun _ => leads_found (leads_index sound e)) fun _ => .ite (fun _ => ?_) fun _ => ?_
  · exact (reads_flawIf _).pass fun _ => leads_found (leads_tagged sound e)
  refine .look looks_isTyped fun typed => .ite (fun _ => leads_nothing) fun _ => .ite (fun _ => ?_) fun _ => ?_
  · exact reads_advance.pass fun _ => leads_found (leads_node rfl (.refl _))
  refine .ite (fun _ => ?_) fun _ => leads_nothing
  refine (reads_attempt (TypeSyntax.reads_argumentsInExpression sound)).then fun arguments => ?_
  cases arguments with
  | some arguments => exact leads_found (leads_instantiation (.refl _))
  | none => exact leads_nothing

theorem leads_callStep {s : State} (x : Chained) : Leads (Reading src s true [x.1])
    (callStep g s.token.start x) fun y => Reading src s true [(y.getD x).1] := by
  refine .bind (leads_memberStep sound x) fun y => ?_
  cases y with
  | some y => exact .pure fun _ reading => reading
  | none =>
      obtain ⟨e, chained⟩ := x
      refine leads_eat "?." ?_ (.look (looks_sees _) fun called => .ite (fun _ => ?_) fun _ => leads_nothing)
      · rw [if_pos rfl]
        refine .look looks_isTyped fun typed => .look (looks_seesAny _) fun angled => ?_
        extract_lets tail
        have rest (generics : Node) : Leads (Reading src s true [e, generics]) (tail generics)
            fun y => Reading src s true [(y.getD (e, chained)).1] := by
          refine .look looks_token fun t => .ite (fun _ => reads_flaw.pass fun _ => ?_) fun _ => ?_
          · refine .weaken (fun _ reading => reading.sublist ?_) (leads_found (leads_tagged sound e))
            exact List.sublist_append_left [e] [generics]
          · exact (reads_arguments sound).then fun as => leads_found (leads_node rfl (.refl _))
        refine .ite (fun _ => ?_) fun _ => reads_absent.then fun generics => rest generics
        exact (TypeSyntax.reads_argumentsInExpression sound).then fun generics => rest generics
      · refine .bind leads_split fun parts => (reads_arguments sound).then fun as => ?_
        exact leads_found (leads_node rfl (.refl _))

theorem reads_construct : Reads src true (construct g) := by
  intro s stands
  refine .position (.begin stands ((reads_expect "new").pass fun _ => leads_eat "." ?_ ?_))
  · exact (reads_expect "target").pass fun _ => leads_node rfl (.refl _)
  · refine (sound .constructed).then fun e => .look (looks_sees _) fun chains => (reads_flawIf _).pass fun _ => ?_
    refine .bind leads_split fun parts => .look (looks_sees _) fun called => .ite (fun _ => ?_) fun _ => ?_
    · exact (reads_arguments sound).then fun as => leads_node rfl (.refl _)
    · exact leads_node rfl (.refl _)

theorem reads_importExpression : Reads src true (importExpression g) := by
  intro s stands
  refine .position (.begin stands ((reads_expect "import").pass fun _ => ?_))
  refine (reads_eat ".").pass fun dot => ?_
  extract_lets tail
  have rest (called : Bool) : Leads (Reading src s true []) (tail called) fun n => Reading src s true [n] := by
    refine .ite (fun _ => (reads_expect "(").pass fun _ => ?_) fun _ => leads_node rfl (.refl _)
    refine (reads_commas (reads_argument sound true) ")").then fun items => (reads_expect ")").pass fun _ => ?_
    exact .ite (fun _ => leads_node rfl (.refl _)) fun _ => .failure
  refine .ite (fun _ => .look (looks_seesAny _) fun phased => .ite (fun _ => ?_) fun _ => ?_) fun _ => rest true
  · exact reads_advance.pass fun _ => rest true
  · exact (reads_expect "meta").pass fun _ => rest false

theorem leads_word {s : State} (stands : s.Stands src) (more : s.token.lexeme ≠ .finish) :
    Leads (· = s) (word g) fun n => Reading src s true [n] := by
  have single {kind : Kind} (leaf : kind.isLeaf = true) : Leads (· = s) (single kind)
      fun n => Reading src s true [n] := .level (leads_single leaf stands more)
  refine .position (.token (.ite (fun _ => FunctionSyntax.reads_function sound _ s stands) fun _ => ?_))
  refine .look FunctionSyntax.looks_starts fun starts => ?_
  refine .ite (fun _ => FunctionSyntax.reads_function sound _ s stands) fun _ => ?_
  refine .ite (fun _ => ClassSyntax.reads_definition sound s stands) fun _ => ?_
  refine .ite (fun _ => reads_construct sound s stands) fun _ => .ite (fun _ => reads_importExpression sound s stands) fun _ => ?_
  refine .ite (fun _ => single rfl) fun _ => .ite (fun _ => single rfl) fun _ => ?_
  refine .ite (fun _ => single rfl) fun _ => .ite (fun _ => single rfl) fun _ => .ite (fun _ => ?_) fun _ => ?_
  · refine leads_step stands more (.look (looks_seesAny _) fun follows => (reads_flawIf _).pass fun _ => ?_)
    exact leads_node rfl (.refl _)
  · exact reads_variableName s stands

omit sound in
theorem leads_regex {s : State} {t : Token} (stands : s.Stands src) (read : s.token.asRegex? = some t) :
    Leads (· = s) (reread t >>= fun _ => single .regex) fun n => Reading src s true [n] := by
  obtain ⟨of, same⟩ := stands.token.asRegex? read
  have regex : t.lexeme = .regex := by
    obtain ⟨n, -, rfl⟩ := Option.map_eq_some_iff.mp read
    rfl
  have now : Leads (· = s) (reread t) fun _ s' => s'.token = t := by
    rintro s u s' rfl run
    rw [(eq_of_reread run).1]
  refine .bind ((leads_reread (.begin stands) of same).both now) fun _ => .here fun s₁ ⟨reading, is⟩ => ?_
  have more : s₁.token.lexeme ≠ .finish := by simp [is, regex]
  exact (Leads.level (leads_single rfl reading.stands more)).widen fun n _ inner => reading.trans inner

theorem leads_symbol {s : State} (stands : s.Stands src) : Leads (· = s) (symbol g) fun n => Reading src s true [n] := by
  refine .token (.ite (fun _ => reads_parenthesized sound s stands) fun _ => ?_)
  refine .ite (fun _ => reads_array sound s stands) fun _ => .ite (fun _ => reads_object sound s stands) fun _ => ?_
  refine .ite (fun _ => ?_) fun _ => .ite (fun _ => ?_) fun _ => .failure
  · split
    · rename_i t read
      exact leads_regex stands read
    · exact .failure
  · refine .begin stands ((Pattern.reads_decorators sound).given Pattern.gives_decorators fun ds are => ?_)
    exact (ClassSyntax.reads_definition sound).then fun c => Pattern.leads_decorate are

theorem reads_primary : Reads src true (primary g) := by
  intro s stands
  refine .token ?_
  split
  · rename_i lexeme
    exact leads_word sound stands (by simp [lexeme])
  · exact leads_symbol sound stands
  · rename_i lexeme
    exact .level (leads_single rfl stands (by simp [lexeme]))
  · rename_i lexeme
    exact .level (leads_single rfl stands (by simp [lexeme]))
  · rename_i lexeme
    exact .level (leads_single rfl stands (by simp [lexeme]))
  · exact reads_template sound false s stands
  · exact .failure

theorem reads_constructed : Reads src true (constructed g) := by
  intro s stands
  refine .position (.begin stands ((reads_primary sound).then fun e => ?_))
  exact .bind (leads_extend (leads_memberStep sound) (e, false)) leads_chain

theorem reads_leftHand : Reads src true (leftHand g) := by
  intro s stands
  refine .position (.begin stands ((reads_primary sound).then fun e => ?_))
  exact .bind (leads_extend (leads_callStep sound) (e, false)) leads_chain

theorem reads_suffixed : Reads src true (suffixed g) := by
  intro s stands
  refine .position (.begin stands ((reads_leftHand sound).then fun e => ?_))
  refine .look looks_token fun t => .look (looks_seesAny _) fun suffix => .ite (fun _ => .ite (fun _ => ?_) fun _ => ?_) fun _ => ?_
  · exact reads_advance.pass fun _ => leads_node rfl (.refl _)
  · exact .failure
  · exact .pure fun _ reading => reading

theorem reads_assertion : Reads src true (assertion g) := by
  intro s stands
  refine .position (.begin stands (reads_narrow.pass fun _ => (reads_expect "<").pass fun _ => ?_))
  refine (reads_eat "const").pass fun constant => ?_
  extract_lets tail
  have rest (type : Node) : Leads (Reading src s true [type]) (tail type) fun n => Reading src s true [n] :=
    (reads_expect ">").pass fun _ => (sound .unary).then fun e => leads_node rfl (.refl _)
  refine .ite (fun _ => reads_absent.then fun type => rest type) fun _ => ?_
  exact (sound .type).then fun type => rest type

theorem reads_unary : Reads src true (unary g) := by
  intro s stands
  refine .position (.token (.ite (fun operator => ?_) fun _ => .ite (fun operator => ?_) fun _ => ?_))
  · exact leads_step stands (Token.more_of_isOneOf operator) ((sound .unary).then fun e => leads_node rfl (.refl _))
  · refine leads_step stands (Token.more_of_isOneOf operator) ((sound .unary).then fun e => ?_)
    exact .ite (fun _ => leads_node rfl (.refl _)) fun _ => .failure
  refine .ite (fun _ => .look looks_dialect fun d => ?_) fun _ => .look looks_context fun c => ?_
  · refine .ite (fun _ => sound (.jsx false) s stands) fun _ => .ite (fun _ => reads_assertion sound s stands) fun _ => .failure
  · refine .ite (fun awaits => ?_) fun _ => reads_suffixed sound s stands
    have awaits : s.token.is "await" = true := (Bool.and_eq_true_iff.mp awaits).1
    exact leads_step stands (Token.more_of_is awaits) ((sound .unary).then fun e => leads_node rfl (.refl _))

theorem leads_binaryStep {s : State} (above : Nat) (left : Node) : Leads (Reading src s true [left])
    (binaryStep g s.token.start above left) fun n => Reading src s true [n.getD left] := by
  have found {kind : Kind} {parts : List Node} (plain : kind.isPlain = true) : Leads (Reading src s true parts)
      (node kind s.token.start parts >>= fun n => pure (some n)) fun n => Reading src s true [n.getD left] :=
    .bind (leads_node plain (.refl _)) fun _ => .pure fun _ reading => reading
  refine .here fun s₁ reading => .token ?_
  have nothing : Leads (· = s₁) (pure none) fun n => Reading src s true [n.getD left] :=
    .pure fun _ same => same ▸ reading
  extract_lets t tail
  have ascribed (type : Node) : Leads (Reading src s true [left, type]) (tail type)
      fun n => Reading src s true [n.getD left] := found rfl
  split
  · exact nothing
  refine .ite (fun _ => nothing) fun _ => .look looks_context fun c => .ite (fun _ => nothing) fun _ => ?_
  refine .ite (fun _ => .look looks_isTyped fun typed => .ite (fun _ => nothing) fun _ => .resume reading ?_) fun _ => ?_
  · refine reads_advance.pass fun _ => (reads_eat "const").pass fun constant => .ite (fun _ => ?_) fun _ => ?_
    · exact reads_absent.then fun type => ascribed type
    · exact (sound .type).then fun type => ascribed type
  · refine .bind (leads_reread reading reading.stands.token.widened (Token.widened_start _)) fun _ => ?_
    refine reads_advance.pass fun _ => (sound (.binary _)).then fun right => (reads_flawIf _).pass fun _ => ?_
    exact (reads_flawIf _).pass fun _ => found rfl

theorem reads_operand : Reads src true (operand g) := by
  intro s stands
  refine .token (.look looks_context fun c => ?_)
  split
  · rename_i lexeme _
    refine .bind (.level (leads_single rfl stands (by simp [lexeme]))) fun key => .look (looks_sees _) fun _ => ?_
    exact .ite (fun _ => .pure fun _ reading => reading) fun _ => .failure
  · exact sound .unary s stands

theorem reads_binary (above : Nat) : Reads src true (binary g above) := by
  intro s stands
  refine .position (.begin stands ((reads_operand sound).then fun e => ?_))
  exact leads_extend (leads_binaryStep sound above) e

theorem reads_head : Reads src true (head g) := by
  have signature : Reads src true (do
      let generics ← TypeSyntax.parameters? g
      let parameters ← Pattern.parameters g
      flawIf (parameters.parts.any FunctionSyntax.isReceiver)
      let result ← TypeSyntax.returnType? g
      return [generics, parameters, result]) := by
    intro s stands
    refine .begin stands ((TypeSyntax.reads_parameters? sound).then fun generics => ?_)
    refine (Pattern.reads_parameters sound).then fun parameters => (reads_flawIf _).pass fun _ => ?_
    exact (TypeSyntax.reads_returnType? sound).then fun result => .pure fun _ reading => reading
  intro s stands
  refine .begin stands ((reads_eat "async").pass fun async => (reads_within signature).then fun parts => ?_)
  refine .look looks_token fun t => (reads_expect "=>").pass fun _ => (reads_flawIf _).pass fun _ => ?_
  exact .pure fun _ reading => reading

theorem leads_arrowBody {s : State} (async returnType : Bool) (parts : List Node) :
    Leads (Reading src s true parts) (arrowBody g s.token.start async parts returnType)
      fun n => Reading src s true [n] := by
  have body : Reads src true (do if ← sees "\x7b" then FunctionSyntax.body g else g (.assignment returnType)) := by
    intro s stands
    refine .look (looks_sees _) fun braced => .ite (fun _ => ?_) fun _ => sound (.assignment returnType) s stands
    exact FunctionSyntax.reads_body sound s stands
  exact (reads_within body).then fun body => leads_node rfl (.refl _)

-- What has been read as a head is put back if its body does not bear it out.
theorem leads_possibleArrow {s : State} (stands : s.Stands src) (returnType : Bool) :
    Leads (· = s) (possibleArrow g returnType) fun f => Reading src s f.isSome (nodes f) := by
  refine .state (.position (.bind (leads_attempt (reads_head sound s stands)) fun read => ?_))
  cases read with
  | none => exact .pure fun _ same => by rw [same]; exact .begin stands
  | some read =>
      obtain ⟨async, parts⟩ := read
      have arrow : Leads (Reading src s true parts) (arrowBody g s.token.start async parts returnType)
          fun f => Reading src s true [f] := leads_arrowBody sound async returnType parts
      refine .ite (fun _ => ?_) fun _ => .bind arrow fun f => .pure fun _ reading => reading
      have checked : Leads (Reading src s true parts) (do
          let f ← arrowBody g s.token.start async parts returnType
          if ← sees ":" then return f else failure) fun f => Reading src s true [f] :=
        .bind arrow fun f => .look (looks_sees _) fun colon => .ite (fun _ => .pure fun _ reading => reading) fun _ => .failure
      refine .bind (leads_attempt checked) fun whole => ?_
      cases whole with
      | none =>
          refine .ite (fun _ => ?_) fun other => absurd rfl other
          intro t r s' _ run
          cases run
          exact .begin stands
      | some f => exact .ite (fun none => nomatch none) fun _ => .pure fun _ reading => reading

theorem leads_arrow? {s : State} (stands : s.Stands src) (returnType : Bool) :
    Leads (· = s) (arrow? g returnType) fun f => Reading src s f.isSome (nodes f) := by
  have nothing : Leads (· = s) (pure none) fun (f : Option Node) => Reading src s f.isSome (nodes f) :=
    .begin stands (.pure fun _ reading => reading)
  refine .look (looks_seesAny _) fun starts => .ite (fun _ => .look (looks_lookaheadOr _ _) fun likelihood => ?_) fun _ => nothing
  cases likelihood with
  | no => exact nothing
  | maybe => exact leads_possibleArrow sound stands returnType
  | yes =>
      refine .position (.bind (reads_head sound s stands) fun head => ?_)
      exact .bind (leads_arrowBody sound _ _ _) fun f => .pure fun _ reading => reading

theorem leads_fromParameter {s : State} {parameter : Node} (async returnType : Bool)
    (written : parameter.isLeftOut = false) : Leads (Reading src s true [parameter])
      (fromParameter g s.token.start async parameter returnType) fun n => Reading src s true [n] := by
  refine .look looks_token fun t => (reads_expect "=>").pass fun _ => (reads_flawIf _).pass fun _ => ?_
  refine reads_absent.given gives_absent fun nothing out => ?_
  refine .weaken (fun s' reading => ?_) (leads_arrowBody sound async returnType _)
  exact (reading.wrap .parameters rfl written).cons_leftOut out

theorem reads_asyncArrow (returnType : Bool) : Reads src true (asyncArrow g returnType) := by
  intro s stands
  refine .position (.begin stands ((reads_expect "async").pass fun _ => ?_))
  refine (reads_within Pattern.reads_bindingName).given Pattern.gives_bindingName.within fun parameter written => ?_
  exact leads_fromParameter sound true returnType written

theorem reads_yield : Reads src true (yieldExpression g) := by
  intro s stands
  refine .position (.begin stands ((reads_expect "yield").pass fun _ => .look looks_token fun t => .ite (fun _ => ?_) fun _ => ?_))
  · exact leads_node rfl (.refl _)
  · refine (reads_eat "*").pass fun delegates => .look looks_token fun t => ?_
    extract_lets tail
    have rest (ends : Bool) : Leads (Reading src s true []) (tail ends) fun n => Reading src s true [n] :=
      .ite (fun _ => (sound (.assignment true)).then fun e => leads_node rfl (.refl _)) fun _ => leads_node rfl (.refl _)
    split
    · exact rest true
    · exact .look (looks_seesAny _) rest

theorem reads_assignment (returnType : Bool) : Reads src true (assignment g returnType) := by
  intro s stands
  refine .position (.look looks_context fun c => .look (looks_sees _) fun yields => .ite (fun _ => ?_) fun _ => ?_)
  · exact reads_yield sound s stands
  refine .bind (leads_arrow? sound stands returnType) fun arrow => ?_
  cases arrow with
  | some f => exact .pure fun _ reading => reading
  | none =>
    refine .look (looks_lookaheadOr _ _) fun starts => .ite (fun _ => (reads_asyncArrow sound returnType).after) fun _ => ?_
    refine (sound (.binary 0)).then fun left => .here fun s₁ reading => .token ?_
    extract_lets t
    split
    · rename_i name is _
      have written : left.isLeftOut = false := by
        unfold isReference at is
        split at is
        · rename_i reference
          exact Node.written_of_kind reference nofun
        · cases is
      have parameter := reading.as_leaf (.binding name) rfl written
      refine .look looks_context fun c => .resume parameter ((reads_flawIf _).pass fun _ => ?_)
      exact leads_fromParameter sound false returnType rfl
    refine .ite (fun _ => .resume reading ?_) fun _ => .ite (fun _ => .ite (fun _ => ?_) fun _ => .failure) fun _ => ?_
    · refine (reads_cover left).pass fun _ => reads_advance.pass fun _ => (sound (.assignment returnType)).then fun right => ?_
      exact leads_node rfl (.refl _)
    · refine .bind (leads_reread reading reading.stands.token.widened (Token.widened_start _)) fun _ => ?_
      exact reads_advance.pass fun _ => (sound (.assignment returnType)).then fun right => leads_node rfl (.refl _)
    refine .ite (fun _ => .resume reading ?_) fun _ => .pure fun _ same => same ▸ reading
    refine reads_advance.pass fun _ => (reads_within (sound (.assignment false))).then fun yes => (reads_expect ":").pass fun _ => ?_
    exact (sound (.assignment returnType)).then fun no => leads_node rfl (.refl _)

theorem reads_expression : Reads src true (expression g) := by
  intro s stands
  refine .position (.begin stands ((reads_separated (sound (.assignment true)) ",").then fun es => ?_))
  split
  · exact .pure fun _ reading => reading
  · exact leads_node rfl (.refl _)

end Prerender.Script.Expression
