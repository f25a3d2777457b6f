import Prerender.Proofs.Script.Reading

set_option autoImplicit false

namespace Prerender.Script.Pattern

open Parse

variable {src : Source} {g : Grammar}

theorem reads_bindingName : Reads src true bindingName := by
  intro s stands
  refine .token ?_
  split
  · rename_i name escaped lexeme
    refine .ite (fun _ => .stop) fun _ => .level (.look looks_context fun c => ?_)
    exact .bind (level_flawIf _) fun _ => leads_single rfl stands (by simp [lexeme])
  · exact .failure

theorem gives_bindingName : Gives bindingName fun n => n.isLeftOut = false := by
  refine .skip fun t => ?_
  split
  · exact .ite (fun _ => .stop) fun _ => .skip fun c => .skip fun _ => .single fun _ => rfl
  · exact .failure

theorem reads_wordName : Reads src true wordName := by
  intro s stands
  refine .token ?_
  split
  · rename_i lexeme
    exact .level (leads_single rfl stands (by simp [lexeme]))
  · exact .failure

theorem reads_stringLiteral : Reads src true stringLiteral := by
  intro s stands
  refine .token ?_
  split
  · rename_i lexeme
    exact .level (leads_single rfl stands (by simp [lexeme]))
  · exact .failure

variable (sound : g.Sound src)
include sound

theorem reads_propertyName : Reads src true (propertyName g) := by
  intro s stands
  refine .token ?_
  split
  case h_6 =>
    refine .begin stands ((reads_expect "[").pass fun _ => ?_)
    refine (reads_within (sound (.assignment true))).then fun key => (reads_expect "]").pass fun _ => ?_
    exact .pure fun _ reading => reading
  all_goals
    rename_i lexeme
    exact .level (leads_single rfl stands (by simp [lexeme]))

theorem leads_propertyName {s : State} (stands : s.Stands src) : Leads (· = s) (propertyName g) fun key s' =>
    Reading src s true [key] s' ∧ (s.token.isWord = true → key.isPlainName = true) := by
  refine (reads_propertyName sound s stands).both ?_
  refine .token ?_
  split
  case h_1 =>
    rintro t key s' rfl run _
    obtain ⟨u, t', saw, run⟩ := eq_of_bind run
    cases saw
    obtain ⟨u, t', moved, run⟩ := eq_of_bind run
    cases run
    rfl
  all_goals
    rename_i lexeme
    exact fun _ _ _ _ _ word => by simp_all [Token.isWord]

theorem reads_annotated (optional : Bool) : Reads src true (annotated g optional) := by
  intro s stands
  refine .position (.begin stands ((sound .pattern).then fun target => .look looks_isTyped fun typed => ?_))
  refine .ite (fun _ => ?_) fun _ => .pure fun _ reading => reading
  extract_lets tail
  have typed : Leads (Reading src s true [target]) (tail ()) fun n => Reading src s true [n] :=
    leads_eat ":" ((sound .type).then fun type => leads_node rfl (.refl _)) (.pure fun _ reading => reading)
  exact .ite (fun _ => (reads_eat "?").pass fun _ => typed) fun _ => typed

theorem leads_withDefault {s : State} {target : Node} :
    Leads (Reading src s true [target]) (withDefault g s.token.start target) fun n => Reading src s true [n] := by
  refine leads_eat "=" ?_ (.pure fun _ reading => reading)
  exact (reads_within (sound (.assignment true))).then fun value => leads_node rfl (.refl _)

theorem reads_element (optional : Bool) : Reads src true (element g optional) := by
  intro s stands
  exact .position (.begin stands ((reads_annotated sound optional).then fun target => leads_withDefault sound))

theorem reads_rest : Reads src true (rest g) := by
  intro s stands
  refine .position (.begin stands ((reads_expect "...").pass fun _ => ?_))
  refine (reads_annotated sound false).then fun target => .look (looks_sees "=") fun flawed => ?_
  refine (reads_flawIf flawed).pass fun _ => ?_
  exact .bind (leads_withDefault sound) fun whole => leads_node rfl (.refl _)

theorem reads_property : Reads src true (property g) := by
  intro s stands
  refine .position (.look (looks_sees "...") fun isRest => .ite (fun _ => ?_) fun _ => .token ?_)
  · refine .begin stands ((reads_rest sound).then fun r => (reads_flawIf _).pass fun _ => ?_)
    exact .pure fun _ reading => reading
  refine .bind (leads_propertyName sound stands) fun key => .here fun s₁ ⟨keyed, plain⟩ => ?_
  refine .look (looks_sees ":") fun colon => ?_
  split
  · rename_i name escaped lexeme _
    have plain := plain (by simp [Token.isWord, lexeme])
    have bound := keyed.again.as_leaf (.binding name) rfl (Node.written_of_plain plain)
    refine .look looks_context fun c => .resume bound ((reads_flawIf _).pass fun _ => ?_)
    exact .bind (leads_withDefault sound) fun value => leads_shorthand keyed plain
  · refine .resume keyed ((reads_expect ":").pass fun _ => ?_)
    exact (reads_element sound false).then fun value => leads_node rfl (.refl _)

theorem reads_item : Reads src false (item g) := by
  intro s stands
  refine .begin stands (.look (looks_sees ",") fun comma => .ite (fun _ => reads_absent.after) fun _ => ?_)
  refine .look (looks_sees "...") fun isRest => .ite (fun _ => ?_) fun _ => ?_
  · exact ((reads_rest sound).less false).after
  · exact ((reads_element sound false).less false).after

theorem reads_target : Reads src true (target g) := by
  intro s stands
  refine .position (.begin stands (leads_eat "\x7b" ?_ (leads_eat "[" ?_ reads_bindingName.after)))
  · refine (reads_commas (reads_property sound) "\x7d").then fun properties => (reads_expect "\x7d").pass fun _ => ?_
    exact (reads_flawIf _).pass fun _ => leads_node rfl (.refl _)
  · refine (reads_commas (reads_item sound) "]").then fun properties => (reads_expect "]").pass fun _ => ?_
    exact (reads_flawIf _).pass fun _ => leads_node rfl (.refl _)

theorem reads_decorator : Reads src true (decorator g) := by
  intro s stands
  refine .position (.begin stands ((reads_expect "@").pass fun _ => ?_))
  exact (reads_within (sound .leftHand)).then fun e => leads_node rfl (.refl _)

omit sound in
theorem gives_decorator : Gives (decorator g) fun d => d.kind = .decorator :=
  .skip fun _ => .skip fun _ => .skip fun _ => .node fun _ => rfl

theorem reads_decorators : Reads src false (decorators g) := by
  have counted (n : Nat) : Reads src false (decoratorsCounted g n) := by
    induction n with
    | zero => exact fun _ _ => .failure
    | succ n ih =>
        intro s stands
        refine .begin stands (.look (looks_sees "@") fun sign => .ite (fun _ => ?_) fun _ => .pure fun _ reading => reading)
        exact (reads_decorator sound).then fun d => ih.then fun ds => .pure fun _ reading => reading.forget
  exact fun s stands => .look looks_get fun t => counted t.limit s stands

omit sound in
theorem gives_decorators : Gives (decorators g) fun ds => ∀ d ∈ ds, d.kind = .decorator := by
  have counted (n : Nat) : Gives (decoratorsCounted g n) fun ds => ∀ d ∈ ds, d.kind = .decorator := by
    induction n with
    | zero => exact .failure
    | succ n ih =>
        refine .skip fun sign => .ite (fun _ => ?_) fun _ => .pure nofun
        exact .bind gives_decorator fun d is => .bind ih fun ds are => .pure (List.forall_mem_cons.mpr ⟨is, are⟩)
  exact .skip fun t => counted t.limit

omit sound in
theorem leads_decorate {s₀ : State} {ds : List Node} {n : Node} (decorators : ∀ d ∈ ds, d.kind = .decorator) :
    Leads (Reading src s₀ true (ds ++ [n])) (decorate ds n) fun n => Reading src s₀ true [n] := by
  cases ds with
  | nil => exact .pure fun _ reading => reading
  | cons d ds =>
      have written : d.isLeftOut = false := Node.written_of_kind (decorators d List.mem_cons_self) nofun
      intro s n' s' reading run
      cases run
      obtain ⟨row, after, before⟩ := reading.row.from_first written
      exact { reading with
        row := .single (.inr ⟨before, after, Nat.le_refl _⟩) (Node.sound_node rfl row) (Node.snug_node rfl row) }

omit sound in
theorem looks_seesModifier (words : List String) : Looks (seesModifier words) := by
  intro s
  refine .look (looks_seesAny words) fun sees => .ite (fun _ => ?_) fun _ => looks_pure false s
  exact .look looks_peek fun next => looks_pure _ s

theorem reads_parameter : Reads src true (parameter g) := by
  intro s stands
  refine .begin stands ((reads_decorators sound).given gives_decorators fun ds are => .look looks_isTyped fun typed => ?_)
  refine .when (fun _ => (reads_skipWhile (looks_seesModifier _).reads).keep) (.look (looks_sees "...") fun isRest => ?_)
  refine .ite (fun _ => ?_) fun _ => ?_
  · exact (reads_rest sound).then fun r => leads_decorate are
  · exact (reads_element sound true).then fun e => leads_decorate are

theorem reads_receiver? : Reads src false (receiver? g) := by
  intro s stands
  refine .look looks_isTyped fun typed => .sees (.ite (fun here => .position ?_) fun _ => ?_)
  · have this : s.token.is "this" = true := (Bool.and_eq_true_iff.mp here).2
    refine .bind (.level (leads_single rfl stands (Token.more_of_is this))) fun this => ?_
    extract_lets tail
    have ends (r : Node) : Leads (Reading src s true [r]) (tail r) fun r s' => Reading src s false (nodes r) s' := by
      refine .look (looks_sees ")") fun closes => .when (fun _ => ((reads_expect ",").less false).keep) ?_
      exact .pure fun _ reading => reading.forget
    refine leads_eat ":" ((sound .type).then fun type => ?_) (ends this)
    exact .bind (leads_node rfl (.refl _)) ends
  · exact .begin stands (.pure fun _ reading => reading)

theorem reads_parameters : Reads src true (parameters g) := by
  intro s stands
  refine .position (.begin stands ((reads_expect "(").pass fun _ => (reads_receiver? sound).then fun receiver => ?_))
  refine (reads_commas (reads_parameter sound) ")").then fun items => (reads_expect ")").pass fun _ => ?_
  refine (reads_flawIf _).pass fun _ => ?_
  cases receiver <;> exact leads_node rfl (.refl _)

end Prerender.Script.Pattern
