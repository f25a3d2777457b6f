import Prerender.Proofs.Script.Grammar.Type
import Prerender.Script.Grammar.Jsx

set_option autoImplicit false

namespace Prerender.Script.Jsx

open Parse

variable {src : Source} {g : Grammar}

theorem moved_inTags {s₀ s s' : State} {used : Bool} {ns : List Node} {u : Unit}
    (reading : Reading src s₀ used ns s) (solid : s.token.start < s.token.stop)
    (run : advanceInTags s = some (u, s')) : Reading src s₀ true ns s' ∧ s'.lastStop = s.token.stop := by
  obtain ⟨t, s₁, saw, run⟩ := eq_of_bind run
  cases saw
  obtain ⟨rfl, known⟩ := eq_of_moveTo run
  obtain ⟨of, behind⟩ := reading.stands.token.nextInTags
  exact ⟨reading.move_solid of known behind rfl rfl solid, rfl⟩

theorem leads_advanceInTags {s₀ s : State} {used : Bool} {ns : List Node} {text : String}
    (reading : Reading src s₀ used ns s) (is : s.token.is text = true) :
    Leads (· = s) advanceInTags fun _ => Reading src s₀ true ns := by
  rintro s u s' rfl run
  exact (moved_inTags reading (reading.stands.token.solid_of_is is) run).1

theorem leads_nextInAttribute {s₀ s : State} {used : Bool} {ns : List Node} (reading : Reading src s₀ used ns s) :
    Leads (· = s) (moveTo (s.token.nextInAttribute (html s))) fun _ => Reading src s₀ used ns := by
  rintro s u s' rfl run
  obtain ⟨rfl, known⟩ := eq_of_moveTo run
  obtain ⟨of, behind⟩ := reading.stands.token.nextInAttribute (html s)
  exact reading.move of known behind rfl rfl

theorem leads_text {s : State} (stands : s.Stands src) (text : s.token.lexeme = .jsxText) : Leads (· = s) advanceInTags
    fun _ => Reading src s true [.mk .jsxText ⟨s.token.start, s.token.stop⟩ []] := by
  rintro s u s' rfl run
  have solid := stands.solid (by simp [text])
  obtain ⟨reading, last⟩ := moved_inTags (.begin stands) solid run
  exact { reading with
    row := .leaf rfl (.inr ⟨solid, Nat.le_refl _, last ▸ Nat.le_refl _⟩) }

theorem reads_close (symbol : String) (inTags : Bool) : Reads src true (close symbol inTags) := by
  intro s stands
  refine .ite (fun _ => ?_) fun _ => reads_expect symbol s stands
  exact .sees (.ite (fun is => leads_advanceInTags (.begin stands) is) fun _ => .failure)

theorem leads_leaf {kind : Kind} {s : State} {ns : List Node} (leaf : kind.isLeaf = true) :
    Leads (Reading src s true ns) (node kind s.token.start []) fun n => Reading src s true [n] := by
  intro t n s' reading run
  cases run
  exact { reading with
    row := .leaf leaf (.inr ⟨reading.used rfl, Nat.le_refl _, Nat.le_refl _⟩) }

theorem reads_namePart : Reads src true namePart := by
  intro s stands
  obtain ⟨of, same⟩ := stands.token.asJsxName
  refine .token (.bind (leads_reread (.begin stands) of same) fun _ => .here fun s₁ reading => .token ?_)
  split
  · rename_i lexeme
    have facing := Nat.lt_of_le_of_lt reading.onward (reading.stands.facing (by simp [lexeme]))
    exact .resume reading (leads_advance facing (.pure fun _ reading => reading))
  · exact .failure

theorem reads_nameParts (n : Nat) : Reads src false (namePartsCounted n) := by
  induction n with
  | zero => exact fun _ _ => .failure
  | succ n ih =>
      intro s stands
      refine .begin stands (leads_eat "." ?_ (.pure fun _ reading => reading))
      exact reads_namePart.pass fun part => ih.pass fun parts => .pure fun _ reading => reading.forget

theorem reads_attributeName : Reads src true attributeName := by
  intro s stands
  refine .position (.begin stands (reads_namePart.pass fun first => leads_eat ":" ?_ (leads_leaf rfl)))
  exact reads_namePart.pass fun second => leads_leaf rfl

theorem reads_elementName : Reads src true elementName := by
  intro s stands
  refine .position (.begin stands (reads_namePart.pass fun first => leads_eat ":" ?_ ?_))
  · exact reads_namePart.pass fun second => leads_leaf rfl
  · exact .look looks_get fun t => (reads_nameParts t.limit).pass fun members => leads_leaf rfl

variable (sound : g.Sound src)
include sound

theorem reads_expression : Reads src true (expression g) := by
  intro s stands
  refine .begin stands ((reads_within (sound .expression)).then fun e => (reads_flawIf _).pass fun _ => ?_)
  exact .pure fun _ reading => reading

theorem reads_container (inTags : Bool) : Reads src true (container g inTags) := by
  intro s stands
  refine .position (.begin stands ((reads_expect "\x7b").pass fun _ => .look (looks_sees _) fun closes => ?_))
  refine .ite (fun _ => ?_) fun _ => ?_
  · exact (reads_flawIf _).pass fun _ => (reads_close _ inTags).pass fun _ => leads_node rfl (.refl _)
  · extract_lets tail
    have rest : Leads (Reading src s true []) (tail ()) fun n => Reading src s true [n] :=
      (reads_expression sound).then fun e => (reads_close _ inTags).pass fun _ => leads_node rfl (.refl _)
    exact .ite (fun _ => (reads_eat "...").pass fun _ => rest) fun _ => rest

theorem reads_attributeEntry : Reads src true (attributeEntry g) := by
  intro s stands
  refine .position (.begin stands (leads_eat "\x7b" ?_ (reads_attributeName.then fun name => ?_)))
  · refine (reads_expect "...").pass fun _ => (reads_expression sound).then fun e => (reads_expect "\x7d").pass fun _ => ?_
    exact leads_node rfl (.refl _)
  refine .here fun s₁ reading => .look (looks_sees _) fun valued => .ite (fun _ => .token (.state ?_)) fun _ => ?_
  · refine .bind (leads_nextInAttribute reading) fun _ => .here fun s₂ reading => .token ?_
    extract_lets tail
    have rest (value : Node) : Leads (Reading src s true [name, value]) (tail value) fun n => Reading src s true [n] :=
      leads_node rfl (.refl _)
    split
    · rename_i lexeme
      refine .bind (.level (leads_single rfl reading.stands (by simp [lexeme]))) fun value => ?_
      exact .onward reading (rest value)
    · refine .look (looks_sees _) fun _ => .ite (fun _ => .resume reading ?_) fun _ => ?_
      · exact (reads_container sound false).then rest
      refine .look (looks_sees _) fun _ => .ite (fun _ => .resume reading ?_) fun _ => .stop
      exact (sound (.jsx false)).then rest
  · exact .resume reading (leads_node rfl (.refl _))

theorem reads_attributes (n : Nat) : Reads src false (attributesCounted g n) := by
  induction n with
  | zero => exact fun _ _ => .failure
  | succ n ih =>
      intro s stands
      refine .begin stands (.look (looks_seesAny _) fun closes => .ite (fun _ => .pure fun _ reading => reading) fun _ => ?_)
      exact (reads_attributeEntry sound).then fun a => ih.then fun as => .pure fun _ reading => reading.forget

theorem reads_children (n : Nat) : Reads src false (childrenCounted g n) := by
  induction n with
  | zero => exact fun _ _ => .failure
  | succ n ih =>
      intro s stands
      refine .token ?_
      split
      · rename_i text
        refine .token (.bind (leads_text stands text) fun _ => ?_)
        exact ih.then fun children => .pure fun _ reading => reading.forget
      · refine .begin stands (.look (looks_sees _) fun _ => .ite (fun _ => ?_) fun _ => ?_)
        · exact (reads_container sound true).then fun c => ih.then fun cs => .pure fun _ reading => reading.forget
        refine .look (looks_sees _) fun _ => .ite (fun _ => .look looks_peek fun next => .ite (fun _ => ?_) fun _ => ?_) fun _ => .failure
        · exact .pure fun _ reading => reading
        · exact (sound (.jsx true)).then fun e => ih.then fun es => .pure fun _ reading => reading.forget

theorem reads_element (inTags : Bool) : Reads src true (element g inTags) := by
  intro s stands
  refine .position (.begin stands ((reads_expect "<").pass fun _ => .here fun s₁ reading => .sees (.ite (fun is => ?_) fun _ => ?_)))
  · refine .bind (leads_advanceInTags reading is) fun _ => .look looks_get fun t => ?_
    refine (reads_children sound _).then fun children => (reads_expect "<").pass fun _ => (reads_expect "/").pass fun _ => ?_
    exact (reads_close _ inTags).pass fun _ => leads_node rfl (.refl _)
  refine .resume reading (reads_elementName.then fun name => .look looks_isTyped fun typed => .look looks_token fun t => ?_)
  extract_lets tail
  have rest (generics : Node) : Leads (Reading src s true [name, generics]) (tail generics)
      fun n => Reading src s true [n] := by
    refine .look looks_get fun t => (reads_attributes sound _).then fun attributes => leads_eat "/" ?_ ?_
    · exact (reads_close _ inTags).pass fun _ => leads_node rfl (.refl _)
    refine (reads_close _ true).pass fun _ => .look looks_get fun t => (reads_children sound _).then fun children => ?_
    refine (reads_expect "<").pass fun _ => (reads_expect "/").pass fun _ => reads_elementName.ignore fun closing => ?_
    exact (reads_flawIf _).pass fun _ => (reads_close _ inTags).pass fun _ => leads_node rfl (.refl _)
  refine .ite (fun _ => ?_) fun _ => reads_absent.then rest
  exact (TypeSyntax.reads_arguments sound).then rest

end Prerender.Script.Jsx
