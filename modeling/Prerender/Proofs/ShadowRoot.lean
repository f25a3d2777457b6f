import Prerender.ShadowRoot

set_option autoImplicit false

namespace Prerender.ShadowRoot

theorem resolve_eq_resolveRenamed_iff (choice : Choice) (tag renamed : String) :
    choice.resolve renamed = choice.resolveRenamed tag renamed ↔
      ∀ lists mode, choice = .perTag lists → lists.find? tag = some mode → (lists.find? renamed).getD lists.default = mode := by
  cases choice with
  | enabled on => cases on <;> simp [Choice.resolve, Choice.resolveRenamed]
  | mode m => simp [Choice.resolve, Choice.resolveRenamed]
  | perTag lists =>
      have injective (m n : Mode) : m.serialization = n.serialization ↔ m = n := by
        cases m <;> cases n <;> decide
      have only : (∀ others mode, Choice.perTag lists = .perTag others → others.find? tag = some mode →
          (others.find? renamed).getD others.default = mode) ↔
          ∀ mode, lists.find? tag = some mode → (lists.find? renamed).getD lists.default = mode :=
        ⟨fun all mode => all lists mode rfl, fun all others mode same => Choice.perTag.inj same ▸ all mode⟩
      rw [only]
      cases old : lists.find? tag with
      | none => cases new : lists.find? renamed <;> simp [Choice.resolve, Choice.resolveRenamed, old, new]
      | some mode => simp [Choice.resolve, Choice.resolveRenamed, old, injective]

theorem resolveRenamed_self (choice : Choice) (tag : String) : choice.resolveRenamed tag tag = choice.resolve tag :=
  ((resolve_eq_resolveRenamed_iff choice tag tag).mpr fun lists mode _ found => by
    rw [found, Option.getD_some]).symm

end Prerender.ShadowRoot
