import Prerender.Proofs.Rendering.Greeting

set_option autoImplicit false

namespace Prerender.Rendering

open Markup.OpenTag (IsTag IsName)
open Markup.Entity (escape)
open Renderer (greeter)

theorem run_serialization {options : Options} {renderer : Renderer} {tag : String} {props : Props} {rendered : Rendered}
    (ran : run options renderer tag props = .ok rendered) :
    rendered.tag = Tag.rename options.renames tag ∧
      rendered.serialization = options.shadowRoot.resolveRenamed tag (Tag.rename options.renames tag) := by
  rw [run_eq, receive.eq_def] at ran
  dsimp only at ran
  split at ran
  next => cases ran
  next =>
    split at ran
    next => cases ran
    next =>
      split at ran
      next => cases ran
      next =>
        obtain rfl := Except.ok.inj ran
        exact ⟨rfl, rfl⟩

/-- What the renderer picks for the element it is handed is what its answer is split by, if and only if the
choice does not list the component's old name or says the same about its new one. -/
theorem serialization_agrees_iff (options : Options) (renderer : Renderer) (tag : String) (props : Props) :
    let renamed := Tag.rename options.renames tag
    let picked := (request options renderer tag props).shadowRoot.resolve renamed
    let used := options.shadowRoot.resolveRenamed tag renamed
    (∀ rendered, run options renderer tag props = .ok rendered →
      rendered.tag = renamed ∧ rendered.serialization = used) ∧
    (picked = used ↔ ∀ lists mode, options.shadowRoot = .perTag lists → lists.find? tag = some mode →
      (lists.find? renamed).getD lists.default = mode) := by
  intro renamed picked used
  exact ⟨fun rendered ran => run_serialization ran,
    ShadowRoot.resolve_eq_resolveRenamed_iff options.shadowRoot tag renamed⟩

theorem run_disagreeing {options : Options} {tag renamed : String} {props : Props}
    (is : Tag.rename options.renames tag = renamed) (isTag : IsTag renamed) (intact : renamed ≠ "broken-component")
    (names : ∀ a ∈ props.asked greeter.encode, IsName a.1) (whole : ∀ a ∈ props.asked greeter.encode, '\n' ∉ a.2.toList)
    (picked : options.shadowRoot.resolve renamed = .declarative)
    (used : options.shadowRoot.resolveRenamed tag renamed = .scoped) :
    ∃ rendered, run options greeter tag props = .ok rendered ∧ rendered.serialization = .scoped ∧
      Text.contains Markup.templateOpen rendered.markup.html.toList = true := by
  have other : Serialization.scoped ≠ .declarative := nofun
  have split := split_other (greeted renamed props) isTag (texted_names names) (texted_whole.mpr whole)
    (escape (props.children.getD "")).toList .declarative other
  rw [linesOf_filling (greeted renamed props) (texted_whole.mpr whole), ← response_of_resolve picked] at split
  obtain ⟨styles, ran⟩ := run_of_split is isTag intact names used split
  refine ⟨_, ran, rfl, ?_⟩
  obtain ⟨behind, first⟩ := Text.join_cons ['\n'] "  <template shadowrootmode=\"open\">".toList
    ((shadowLines (greeted renamed props) (escape (props.children.getD "")).toList).drop 1)
  rw [Text.contains_iff, Markup.html, Markup.joinLines, String.toList_ofList]
  exact templateOpen_infix.trans ⟨[], behind, first.symm⟩

def listedByOldName : Options :=
  ⟨"lib", Registry.ofNames ["MyA"], .perTag ⟨[], ["my-a"], .declarative⟩, .react, [("my-a", "v2-a")]⟩

theorem run_listedByOldName :
    ∃ rendered, run listedByOldName greeter "my-a" Props.empty = .ok rendered ∧ rendered.serialization = .scoped ∧
      Text.contains Markup.templateOpen rendered.markup.html.toList = true := by
  have is : Tag.rename listedByOldName.renames "my-a" = "v2-a" := by decide
  have isTag : IsTag "v2-a" := .of_all rfl rfl rfl
  have asked : Props.empty.asked greeter.encode = [] := rfl
  refine run_disagreeing is isTag (by decide) ?_ ?_ (by decide) (by decide)
  · rw [asked]
    nofun
  · rw [asked]
    nofun

theorem serialization_agrees_listed :
    (∃ rendered, run listedByOldName greeter "my-a" Props.empty = .ok rendered ∧ rendered.tag = "v2-a" ∧
      rendered.serialization = listedByOldName.shadowRoot.resolveRenamed "my-a" "v2-a") ∧
    listedByOldName.shadowRoot.resolve "v2-a" ≠ listedByOldName.shadowRoot.resolveRenamed "my-a" "v2-a" := by
  have is : Tag.rename listedByOldName.renames "my-a" = "v2-a" := by decide
  obtain ⟨rendered, ran, -⟩ := run_listedByOldName
  obtain ⟨found, agrees⟩ := serialization_agrees_iff listedByOldName greeter "my-a" Props.empty
  rw [is] at found agrees
  refine ⟨⟨rendered, ran, found rendered ran⟩, fun same => ?_⟩
  exact absurd (agrees.mp same ⟨[], ["my-a"], .declarative⟩ .scoped rfl (by decide)) (by decide)

theorem serialization_disagrees :
    (¬ ∀ (choice : ShadowRoot.Choice) (renames : Tag.Renames) (tag : String),
      choice.resolve (Tag.rename renames tag) = choice.resolveRenamed tag (Tag.rename renames tag)) ∧
    ∃ rendered, run listedByOldName greeter "my-a" Props.empty = .ok rendered ∧
      rendered.serialization = .scoped ∧ Text.contains Markup.templateOpen rendered.markup.html.toList = true := by
  refine ⟨fun all => ?_, run_listedByOldName⟩
  exact absurd (all listedByOldName.shadowRoot listedByOldName.renames "my-a") (by decide)

end Prerender.Rendering
