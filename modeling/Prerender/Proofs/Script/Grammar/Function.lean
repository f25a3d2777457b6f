import Prerender.Proofs.Script.Grammar.Type
import Prerender.Script.Grammar.Function

set_option autoImplicit false

namespace Prerender.Script

open Parse

variable {src : Source} {g : Grammar}

namespace FunctionSyntax

instance : Holds Form := ⟨fun _ => []⟩
instance : Bare Form := ⟨fun _ => rfl⟩

theorem looks_starts : Looks starts := by
  intro s
  refine .look (looks_sees _) fun here => .ite (fun _ => looks_pure true s) fun _ => ?_
  exact .look looks_peek fun next => .look (looks_sees _) fun async => looks_pure _ s

theorem reads_form : Reads src false form := by
  intro s stands
  refine .look looks_peek fun next => .look (looks_sees _) fun async => .begin stands (.ite (fun _ => ?_) fun _ => ?_)
  · exact reads_advance.pass fun _ => (reads_eat "*").pass fun generator => .pure fun _ reading => reading
  · refine .look (looks_seesAny _) fun accessor => .ite (fun _ => ?_) fun _ => ?_
    · exact .look (looks_sees _) fun getter => reads_advance.pass fun _ => .pure fun _ reading => reading
    · exact (reads_eat "*").pass fun generator => .pure fun _ reading => reading

variable (sound : g.Sound src)
include sound

-- Statements are read loosely, and all of them end before the brace behind them.
theorem reads_block : Reads src true (block g) := by
  intro s stands
  refine .position (.bind (reads_expect "\x7b" s stands) fun _ => .here fun s₁ opened => ?_)
  refine .bind (reads_upTo (sound (.statement false)) ["\x7d"] s₁ opened.stands.as) fun statements => .here fun s₂ read => ?_
  refine .bind (reads_expect "\x7d" s₂ read.stands) fun _ => .here fun s₃ closed => ?_
  rintro t n s' rfl run
  cases run
  have whole : Reading src.loosely s true statements t :=
    ((opened.loosen.trans read).trans closed).sublist (List.sublist_append_left statements [])
  have within : s.token.start < t.lastStop := whole.used rfl
  have formed : (Node.mk .block ⟨s.token.start, t.lastStop⟩ statements).Sound src.loosely.toSource :=
    Node.sound_node rfl whole.row
  have snug : (Node.mk .block ⟨s.token.start, t.lastStop⟩ statements).Snug := by
    intro m member is
    rw [Node.descendants] at member
    rcases List.mem_cons.mp member with rfl | below
    · cases is
    · exact Nat.lt_of_le_of_lt (read.row.stops below is) (Nat.lt_of_le_of_lt read.stands.behind (closed.used rfl))
  exact ⟨whole.stands.as, whole.onward, whole.passed,
    .single (.inr ⟨within, Nat.le_refl _, Nat.le_refl _⟩) formed fun _ => snug, fun _ => within⟩

theorem reads_body : Reads src true (body g) := reads_within (reads_block sound)

theorem reads_signature (async generator : Bool) : Reads src true (signature g async generator) := by
  refine reads_within fun s stands => .begin stands ((TypeSyntax.reads_parameters? sound).then fun generics => ?_)
  refine (Pattern.reads_parameters sound).then fun parameters => (TypeSyntax.reads_returnType? sound).then fun result => ?_
  refine .look (looks_sees _) fun braced => .look looks_isTyped fun typed => .ite (fun _ => ?_) fun _ => ?_
  · exact (reads_body sound).then fun body => .pure fun _ reading => reading
  · exact .ite (fun _ => reads_absent.then fun body => .pure fun _ reading => reading) fun _ => .stop

theorem reads_function (use : Use) : Reads src true (function g use) := by
  intro s stands
  refine .position (.begin stands ((reads_eat "async").pass fun async => (reads_expect "function").pass fun _ => ?_))
  refine (reads_eat "*").pass fun generator => .look looks_token fun t => ?_
  extract_lets ends
  have finish (name : Node) : Leads (Reading src s true [name]) (ends name) fun n => Reading src s true [n] := by
    refine .guard fun _ => (reads_signature sound async generator).then fun parts => ?_
    exact .when (fun _ => reads_semicolon.keep) (leads_node rfl (List.sublist_append_right [name] parts))
  refine .ite (fun _ => .ite (fun _ => ?_) fun _ => ?_) fun _ => reads_absent.then fun name => finish name
  · exact (reads_within Pattern.reads_bindingName).then fun name => finish name
  · exact Pattern.reads_bindingName.then fun name => finish name

theorem reads_method (async generator : Bool) : Reads src true (method g async generator) := by
  intro s stands
  exact .position (.begin stands ((reads_signature sound async generator).then fun parts => leads_node rfl (.refl _)))

theorem reads_accessor (isGetter : Bool) : Reads src true (accessor g isGetter) := by
  intro s stands
  refine .begin stands ((reads_method sound false false).then fun f => ?_)
  extract_lets parameters ends
  exact .ite (fun _ => (reads_flawIf _).pass fun _ => .pure fun _ reading => reading)
    fun _ => (reads_flawIf _).pass fun _ => .pure fun _ reading => reading

end FunctionSyntax
end Prerender.Script
