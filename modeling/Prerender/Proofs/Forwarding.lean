import Prerender.Proofs.Element.Html
import Prerender.Proofs.RequestTime

set_option autoImplicit false

namespace Prerender

open Element (Attr AttrValue Child)
open Markup.Entity (escape)

namespace Forward

def spreads : Forward → List Attr
  | .props => [.spread "props"]
  | .fixed _ => []

def children : Forward → List Child
  | .props => [.expression "children"]
  | .fixed text => text.toList.map .text

end Forward

namespace Declaration

open RequestTime (template innerHtml?_append hostAttr_ne_innerHtml)

def markAttr : Attr := .named "suppressHydrationWarning" (.flag true)

def hostAttrs (host : Markup.OpenTag) (style : Option Style) : List Attr :=
  host.attributes.map (hostAttr style) ++
    ((style.filter fun _ => !host.attributes.any fun a => a.1 == "style").map fun s =>
      .named "style" (.style s)).toList

theorem hostElement_eq (tag : String) (host : Markup.OpenTag) (style : Option Style) (forward : Forward) :
    hostElement tag host style forward =
      ⟨.intrinsic tag, hostAttrs host style ++ forward.spreads ++ [markAttr], []⟩ := by
  cases style with
  | none => cases forward <;> simp [hostElement, hostAttrs, Forward.spreads, mark, Element.attr, Element.spread,
      Element.intrinsic, markAttr]
  | some own =>
      cases styled : host.attributes.any fun a => a.1 == "style" <;> cases forward <;>
        simp [hostElement, hostAttrs, Forward.spreads, mark, Element.attr, Element.spread, Element.intrinsic, markAttr,
          styled, Option.filter]

def sheets (styles : List StyleSheet) : Element :=
  styles.foldl (fun e sheet => e.nest (sheetElement sheet))
    (mark ((Element.intrinsic "div").attr "style" (.style [("display", .string "contents")])))

theorem renderElement_shadow (tag : String) (serialization : Serialization) (host : Markup.OpenTag) (between : String)
    (styles : List StyleSheet) (style : Option Style) (forward : Forward) :
    renderElement ⟨tag, serialization, .shadow host between, styles⟩ style forward =
      ⟨.intrinsic tag, hostAttrs host style ++ forward.spreads ++ [markAttr],
        (template between).toChild :: forward.children⟩ := by
  match forward with
  | .props | .fixed none | .fixed (some text) =>
      simp only [renderElement, hostElement_eq]
      rfl

theorem renderElement_scoped (tag : String) (serialization : Serialization) (host : Markup.OpenTag) (inner : String)
    (styles : List StyleSheet) (style : Option Style) (forward : Forward) :
    renderElement ⟨tag, serialization, .scoped host inner, styles⟩ style forward =
      (sheets styles).nest ⟨.intrinsic tag, hostAttrs host style ++ forward.spreads ++
        [markAttr, .named "dangerouslySetInnerHTML" (.innerHtml inner)], []⟩ := by
  simp only [renderElement, hostElement_eq, Element.attr, List.append_assoc]
  rfl

theorem innerHtml?_hostAttrs (host : Markup.OpenTag) (style : Option Style) :
    Element.innerHtml? (hostAttrs host style ++ [markAttr]) = none := by
  rw [← List.append_nil (hostAttrs host style ++ [markAttr])]
  refine innerHtml?_append (fun a member name html => ?_) []
  simp only [hostAttrs, List.append_assoc, List.mem_append] at member
  rcases member with read | own | marked
  · obtain ⟨written, -, rfl⟩ := List.mem_map.mp read
    exact hostAttr_ne_innerHtml style written name html
  · obtain ⟨own, -, rfl⟩ := Option.map_eq_some_iff.mp (Option.mem_toList.mp own)
    nofun
  · obtain rfl := List.mem_singleton.mp marked
    nofun

theorem hostAttrs_settled (host : Markup.OpenTag) (style : Option Style) (forward : Forward) (others : List Attr) :
    (hostAttrs host style ++ forward.spreads ++ others).filter Attr.isNamed =
      (hostAttrs host style ++ others).filter Attr.isNamed := by
  have spread : forward.spreads.filter Attr.isNamed = [] := by cases forward <;> rfl
  rw [List.filter_append, List.filter_append, spread, List.append_nil, ← List.filter_append]

def front (tag : String) (host : Markup.OpenTag) (style : Option Style) (between : String) : String :=
  "<" ++ tag ++ String.join ((hostAttrs host style ++ [markAttr]).map Attr.html) ++ ">" ++
    (template between).toChild.html

theorem html_shadow (tag : String) (serialization : Serialization) (host : Markup.OpenTag) (between : String)
    (styles : List StyleSheet) (style : Option Style) (forward : Forward) :
    (renderElement ⟨tag, serialization, .shadow host between, styles⟩ style forward).html =
      front tag host style between ++ Child.htmlAll forward.children ++ ("</" ++ tag ++ ">") := by
  have attrs := hostAttrs_settled host style forward [markAttr]
  have written : String.join ((hostAttrs host style ++ forward.spreads ++ [markAttr]).map Attr.html) =
      String.join ((hostAttrs host style ++ [markAttr]).map Attr.html) := by
    rw [← Element.join_named, attrs, Element.join_named]
  have content : Element.innerHtml? (hostAttrs host style ++ forward.spreads ++ [markAttr]) = none := by
    rw [← Element.innerHtml?_named, attrs, Element.innerHtml?_named, innerHtml?_hostAttrs]
  rw [renderElement_shadow, Element.html_eq, written, content, Option.getD_none, Child.htmlAll, front]
  simp only [String.append_assoc, Element.Tag.name]

theorem settled_scoped (tag : String) (serialization : Serialization) (host : Markup.OpenTag) (inner : String)
    (styles : List StyleSheet) (style : Option Style) (forward other : Forward) :
    let element := renderElement ⟨tag, serialization, .scoped host inner, styles⟩ style
    (element forward).toChild.settled = (element other).toChild.settled := by
  intro element
  simp only [element, renderElement_scoped, Element.nest, Element.child, Element.toChild, Child.settled,
    Child.settledAll_append, Child.settledAll, hostAttrs_settled]

/-- The element that forwards what it is given and the one without children have the same HTML. Children that are
known come right before the last closing tag if the markup is that of a shadow root, and are not written
otherwise. -/
theorem html_forward (rendered : Rendered) (style : Option Style) :
    let html (forward : Forward) : String := (renderElement rendered style forward).html
    let close := "</" ++ rendered.tag ++ ">"
    html .props = html (.fixed none) ∧
    match rendered.markup with
    | .shadow _ _ => ∃ front, html (.fixed none) = front ++ close ∧
        ∀ text, html (.fixed (some text)) = front ++ escape text ++ close
    | .scoped _ _ => ∀ text, html (.fixed (some text)) = html (.fixed none) := by
  obtain ⟨tag, serialization, markup, styles⟩ := rendered
  match markup with
  | .shadow host between =>
      intro html close
      have shadow (forward : Forward) : html forward =
          front tag host style between ++ Child.htmlAll forward.children ++ close :=
        html_shadow tag serialization host between styles style forward
      have known (text : String) : Child.htmlAll (Forward.children (.fixed (some text))) = escape text :=
        String.append_empty
      refine ⟨(shadow .props).trans (shadow (.fixed none)).symm, front tag host style between, ?_, fun text => ?_⟩
      · rw [shadow, Forward.children, Option.toList_none, List.map_nil, Child.htmlAll, String.append_empty]
      · rw [shadow, known]
  | .scoped host inner =>
      intro html close
      have same (forward : Forward) : html forward = html (.fixed none) :=
        Element.html_of_settled (settled_scoped tag serialization host inner styles style forward (.fixed none))
      exact ⟨same .props, fun text => same (.fixed (some text))⟩

end Declaration
end Prerender
