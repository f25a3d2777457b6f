import Prerender.Proofs.Markup.OpenTag
import Prerender.Rendering

set_option autoImplicit false

namespace Prerender

open Markup (OpenTag closeTag)
open Markup.OpenTag (IsTag IsName opening written writtenAll)
open Markup.Entity (escape decode escapeChars)

def Value.isAbsent : Value → Bool
  | .bool false => true
  | .undefined => true
  | _ => false

def Props.asked (encode : Value → String) (props : Props) : List (String × String) :=
  let reserved := ["children", "key", "ref", "style", "suppressHydrationWarning", "dangerouslySetInnerHTML"]
  ((props.values.filter fun p => p.1 ∉ reserved && !p.2.isAbsent).map fun p =>
    (if p.1 = "className" then "class" else p.1, p.2.attributeText?.getD (encode p.2))) ++
  ((props.style.map Style.css).filter (· ≠ "")).toList.map ("style", ·)

namespace Rendering

variable (encode : Value → String) (tag : String) (props : Props)

theorem attributeText?_eq (value : Value) :
    attributeText? encode value = if value.isAbsent then none else some (value.attributeText?.getD (encode value)) := by
  cases value with
  | bool b => cases b <;> rfl
  | _ => rfl

theorem style_asked :
    (match props.style with
      | none => []
      | some style => if style.css = "" then [] else [("style", style.css)]) =
    ((props.style.map Style.css).filter (· ≠ "")).toList.map ("style", ·) := by
  cases props.style with
  | none => rfl
  | some style =>
      by_cases empty : style.css = ""
      · simp [Option.filter, empty]
      · simp [Option.filter, empty]

theorem attributeList_asked : attributeList encode props = props.asked encode := by
  have values : (props.values.filterMap fun p =>
      if p.1 ∈ unwritten then none else (attributeText? encode p.2).map fun text => (Element.domName p.1, text)) =
      (props.values.filter fun p => p.1 ∉ unwritten && !p.2.isAbsent).map fun p =>
        (Element.domName p.1, p.2.attributeText?.getD (encode p.2)) := by
    induction props.values with
    | nil => rfl
    | cons entry values ih =>
        rcases entry with ⟨name, value⟩
        rw [List.filterMap_cons, ih, List.filter_cons]
        by_cases reserved : name ∈ unwritten
        · simp [reserved]
        · cases absent : value.isAbsent <;> simp [reserved, absent, attributeText?_eq]
  exact congrArg₂ (· ++ ·) values (style_asked props)

def texted (attributes : List (String × String)) : List (String × Option String) :=
  attributes.map fun a => (a.1, some a.2)

theorem texted_names {attributes : List (String × String)} (names : ∀ a ∈ attributes, IsName a.1) :
    ∀ a ∈ texted attributes, IsName a.1 := by
  intro a here
  obtain ⟨b, member, rfl⟩ := List.mem_map.mp here
  exact names b member

theorem attributeSource_toList (a : String × String) : (attributeSource a).toList = written (a.1, some a.2) := by
  simp [attributeSource, written, Markup.Entity.escape]

theorem attributes_toList : (attributes encode props).toList = writtenAll (texted (props.asked encode)) := by
  rw [attributes, attributeList_asked, String.toList_join, List.flatMap_map, writtenAll, texted, List.flatMap_map]
  exact List.flatMap_congr fun a _ => attributeSource_toList a

theorem source_toList :
    (source encode tag props).toList =
      opening tag (texted (props.asked encode)) ++ ((escape (props.children.getD "")).toList ++ closeTag tag) := by
  simp [source, opening, closeTag, attributes_toList]

theorem read?_source (isTag : IsTag tag) (names : ∀ a ∈ props.asked encode, IsName a.1) :
    OpenTag.read? (source encode tag props).toList =
      some (⟨tag, texted (props.asked encode)⟩, (escape (props.children.getD "")).toList ++ closeTag tag) := by
  rw [source_toList]
  exact OpenTag.read?_opening isTag (texted_names names) _

/-- The element of a component is read as a tag of its name with exactly the attributes that the props ask
for, if and only if all these names can be read. What stands between that tag and the last closing one then is
the text of the children, escaped; it is never mistaken for markup. -/
theorem parse?_source_iff (renderer : Renderer) :
    let html := source renderer.encode tag props
    let found : OpenTag := ⟨tag, texted (props.asked renderer.encode)⟩
    let children := props.children.getD ""
    (OpenTag.parse? html = some found ↔ IsTag tag ∧ ∀ a ∈ props.asked renderer.encode, IsName a.1) ∧
    (OpenTag.parse? html = some found → ∃ rest, OpenTag.read? html.toList = some (found, rest) ∧
      Text.cutLast? (closeTag tag) rest = some ((escape children).toList, []) ∧
      decode (escape children) = children) := by
  intro html found children
  have named (read : OpenTag.parse? html = some found) : IsTag tag ∧ ∀ a ∈ props.asked renderer.encode, IsName a.1 := by
    obtain ⟨⟨host, rest⟩, is, same⟩ := Option.map_eq_some_iff.mp read
    obtain ⟨isTag, names⟩ := OpenTag.read?_named is
    obtain rfl : host = found := same
    exact ⟨isTag, fun a here => names (a.1, some a.2) (List.mem_map_of_mem here)⟩
  refine ⟨⟨named, fun ⟨isTag, names⟩ => ?_⟩, fun read => ?_⟩
  · rw [OpenTag.parse?, read?_source renderer.encode tag props isTag names, Option.map_some]
  · obtain ⟨isTag, names⟩ := named read
    refine ⟨_, read?_source renderer.encode tag props isTag names, ?_, Markup.Entity.decode_escape children⟩
    have once : '<' ∉ '/' :: tag.toList ++ ['>'] ++ [] := by
      simpa using isTag.not_mem (c := '<') rfl
    have cut := Text.cutLast?_append (escape children).toList once
    rwa [List.append_nil] at cut

def sharp : Props :=
  ⟨[("className", .string "a\"> <b"), ("key", .null), ("first", .string "&amp;' b=c"), ("hidden", .bool false)],
    some [("zIndex", .number (.int 2))], some "</x-y> &lt;"⟩

theorem parse?_source_sharp :
    OpenTag.parse? (source Renderer.greeter.encode "x-y" sharp) =
      some ⟨"x-y", [("class", some "a\"> <b"), ("first", some "&amp;' b=c"), ("style", some "z-index: 2;")]⟩ ∧
    decode (escape "</x-y> &lt;") = "</x-y> &lt;" := by
  have asked : sharp.asked Renderer.greeter.encode =
      [("class", "a\"> <b"), ("first", "&amp;' b=c"), ("style", "z-index: 2;")] := by
    decide
  have isTag : IsTag "x-y" := .of_all rfl rfl rfl
  have names : ∀ a ∈ sharp.asked Renderer.greeter.encode, IsName a.1 := by
    rw [asked]
    simp only [List.forall_mem_cons]
    exact ⟨.of_all (by decide) rfl, .of_all (by decide) rfl, .of_all (by decide) rfl, nofun⟩
  obtain ⟨reads, follows⟩ := parse?_source_iff "x-y" sharp Renderer.greeter
  have read := reads.mpr ⟨isTag, names⟩
  obtain ⟨_, _, _, children⟩ := follows read
  rw [asked] at read
  exact ⟨read, children⟩

end Rendering
end Prerender
