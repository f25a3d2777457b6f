import Prerender.Proofs.Script.Grammar.Function
import Prerender.Script.Grammar.Class

set_option autoImplicit false

namespace Prerender.Script.ClassSyntax

open Parse

variable {src : Source} {g : Grammar}

theorem looks_seesModifier : Looks seesModifier := by
  intro s
  refine .look looks_isTyped fun typed => .look (looks_seesAny _) fun here => .ite (fun _ => ?_) fun _ => ?_
  · exact .look looks_peek fun next => .look (looks_sees _) fun isStatic => looks_pure _ s
  · exact looks_pure false s

theorem reads_modifiers (n : Nat) : Reads src false (modifiersCounted n) := by
  induction n with
  | zero => exact fun _ _ => .failure
  | succ n ih =>
      intro s stands
      refine .begin stands (.look looks_seesModifier fun sees => .ite (fun _ => ?_) fun _ => .pure fun _ reading => reading)
      refine .look looks_token fun t => ?_
      split
      · exact reads_advance.pass fun _ => ih.pass fun words => .pure fun _ reading => reading
      · exact .failure

variable (sound : g.Sound src)
include sound

theorem leads_namedMember {s : State} (isStatic : Bool) : Leads (Reading src s false [])
    (namedMember g s.token.start isStatic) fun n => Reading src s true [n] := by
  refine FunctionSyntax.reads_form.pass fun form => .look (looks_sees _) fun computed => ?_
  refine (Pattern.reads_propertyName sound).then fun key => (reads_flawIf _).pass fun _ => ?_
  extract_lets isConstructor method field tail
  have endsMethod (f : Node) : Leads (Reading src s true [key, f]) (method f) fun n => Reading src s true [n] :=
    .when (fun _ => reads_semicolon.keep) (leads_node rfl (.refl _))
  have endsField (type : Node) : Leads (Reading src s true [key, type]) (field type) fun n => Reading src s true [n] :=
    leads_optional "=" (reads_within (sound (.assignment true))) fun value => reads_semicolon.pass fun _ => leads_node rfl (.refl _)
  have rest : Leads (Reading src s true [key]) (tail ()) fun n => Reading src s true [n] := by
    refine .look (looks_seesAny _) fun callable => .ite (fun _ => (reads_flawIf _).pass fun _ => ?_) fun _ => ?_
    · split
      · exact (FunctionSyntax.reads_accessor sound _).then fun f => endsMethod f
      · exact (FunctionSyntax.reads_method sound _ _).then fun f => endsMethod f
    · refine .ite (fun _ => .failure) fun _ => (reads_flawIf _).pass fun _ => .look looks_isTyped fun typed => ?_
      refine (reads_eatIf typed ":").pass fun colon => .ite (fun _ => ?_) fun _ => ?_
      · exact (sound .type).then fun type => endsField type
      · exact reads_absent.then fun type => endsField type
  refine (reads_flawIf _).pass fun _ => .look looks_isTyped fun typed => .ite (fun _ => ?_) fun _ => rest
  refine (reads_eat "?").pass fun _ => .look looks_token fun t => .ite (fun _ => ?_) fun _ => rest
  exact (reads_eat "!").pass fun _ => rest

theorem reads_base : Reads src true (base g) := by
  intro s stands
  refine .position (.begin stands ((sound .leftHand).then fun e => ?_))
  refine .look looks_isTyped fun typed => .look (looks_seesAny _) fun angled => .ite (fun _ => ?_) fun _ => ?_
  · exact (TypeSyntax.reads_arguments sound).then fun arguments => leads_instantiation (.refl _)
  · exact .pure fun _ reading => reading

theorem reads_heritage (n : Nat) : Reads src false (heritageCounted g n) := by
  induction n with
  | zero => exact fun _ _ => .failure
  | succ n ih =>
      intro s stands
      refine .position (.begin stands (leads_eat "extends" ?_ ?_))
      · refine (reads_separated (reads_base sound) ",").then fun bases => (reads_flawIf _).pass fun _ => ?_
        refine .bind (leads_node rfl (.refl _)) fun heritage => ih.then fun tail => (reads_flawIf _).pass fun _ => ?_
        exact .pure fun _ reading => reading.forget
      · refine .look looks_isTyped fun typed => (reads_eatIf typed "implements").pass fun implements => ?_
        refine .ite (fun _ => ?_) fun _ => .pure fun _ reading => reading
        refine (reads_separated (TypeSyntax.reads_typeReference sound) ",").then fun types => ?_
        refine .bind (leads_node rfl (.refl _)) fun implemented => ih.then fun tail => (reads_flawIf _).pass fun _ => ?_
        exact .pure fun _ reading => reading.forget

theorem reads_member : Reads src true (member g) := by
  intro s stands
  refine .begin stands (leads_eat ";" reads_absent.after ?_)
  refine (Pattern.reads_decorators sound).given Pattern.gives_decorators fun ds are => .here fun s₁ reading => .position ?_
  have alone {p : Parse Node} (leads : Leads (Reading src s₁ false []) p fun n => Reading src s₁ true [n]) :
      Leads (Reading src s₁ false []) p fun n => Reading src s true [n] :=
    leads.widen fun n _ inner => (reading.trans inner).sublist (List.sublist_append_right ds [n])
  refine .look looks_get fun t => .begin reading.stands ((reads_modifiers _).pass fun words => ?_)
  refine .look (looks_sees _) fun braced => .ite (fun _ => ?_) fun _ => ?_
  · exact alone (reads_within (FunctionSyntax.reads_block sound)).after
  refine .look looks_isTyped fun typed => .look (looks_lookaheadOr _ _) fun indexed => .ite (fun _ => ?_) fun _ => ?_
  · exact alone ((TypeSyntax.reads_index sound).then fun parts =>
      TypeSyntax.reads_memberEnd.pass fun _ => leads_node rfl (.refl _))
  · exact .bind (leads_namedMember sound _) fun n => .onward reading (Pattern.leads_decorate are)

theorem reads_definition : Reads src true (definition g) := by
  intro s stands
  refine .position (.begin stands ((reads_expect "class").pass fun _ => .look (looks_sees _) fun isHeritage => ?_))
  refine .look looks_token fun t => ?_
  extract_lets ends
  have finish (name : Node) : Leads (Reading src s true [name]) (ends name) fun n => Reading src s true [n] := by
    refine (TypeSyntax.reads_parameters? sound).then fun generics => .look looks_get fun t => ?_
    refine (reads_heritage sound _).then fun heritage => (reads_expect "\x7b").pass fun _ => ?_
    refine (reads_upTo (reads_member sound) ["\x7d"]).then fun members => (reads_expect "\x7d").pass fun _ => ?_
    exact leads_node rfl (List.sublist_append_right [name] _)
  refine .ite (fun _ => ?_) fun _ => ?_
  · exact Pattern.reads_bindingName.then fun name => finish name
  · exact reads_absent.then fun name => finish name

end Prerender.Script.ClassSyntax
