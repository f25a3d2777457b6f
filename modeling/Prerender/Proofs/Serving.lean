import Prerender.Proofs.Marking
import Prerender.Proofs.Markup.OpenTag

set_option autoImplicit false

namespace Prerender

open Element (Attr)
open Markup (OpenTag)
open Markup.OpenTag (IsTag IsName opening written writtenAll)

namespace Declaration

-- What a page has in place of an attribute that was rendered. A style is written anew from its object, which is
-- that of the call if there is one.
def served? (style : Option Style) : String × Option String → Option (String × Option String)
  | (name, text) =>
      if name ∈ Element.clientOnly then none
      else if name = "style" then some (name, some (style.getD (Style.parseCss (text.getD ""))).css)
      else some (Element.domName name, some (text.getD ""))

def served (style : Option Style) (host : OpenTag) : OpenTag :=
  ⟨host.name, host.attributes.filterMap (served? style) ++
    if host.attributes.any fun a => a.1 == "style" then []
    else style.toList.map fun own => ("style", some own.css)⟩

theorem writtenAll_one (name text : String) :
    writtenAll [(name, some text)] = (" " ++ name ++ "=\"" ++ Markup.Entity.escape text ++ "\"").toList := by
  have blank : " ".toList = [' '] := rfl
  have equals : "=\"".toList = ['=', '"'] := rfl
  have quote : "\"".toList = ['"'] := rfl
  simp only [String.toList_append, Markup.Entity.escape, String.toList_ofList, writtenAll, List.flatMap_singleton, written,
    blank, equals, quote, List.append_assoc, List.cons_append, List.nil_append]

theorem hostAttr_served (style : Option Style) (a : String × Option String) :
    (hostAttr style a).html.toList = writtenAll (served? style a).toList := by
  obtain ⟨name, text⟩ := a
  by_cases isStyle : name = "style"
  · subst isStyle
    have known : "style" ∉ Element.clientOnly := by decide
    have kept : Element.domName "style" = "style" := by decide
    rw [hostAttr, if_pos rfl, styleAttr, Attr.html, if_neg known, served?, if_neg known, if_pos rfl, kept]
    exact (writtenAll_one _ _).symm
  · by_cases isClass : name = "class"
    · subst isClass
      have known : "className" ∉ Element.clientOnly ∧ "class" ∉ Element.clientOnly := by decide
      rw [hostAttr, if_neg isStyle, if_pos rfl, Attr.html, if_neg known.1, served?, if_neg known.2, if_neg isStyle]
      exact (writtenAll_one _ _).symm
    · by_cases hidden : name ∈ Element.clientOnly
      · rw [hostAttr, if_neg isStyle, if_neg isClass, Attr.html, if_pos hidden, served?, if_pos hidden]
        rfl
      · rw [hostAttr, if_neg isStyle, if_neg isClass, Attr.html, if_neg hidden, served?, if_neg hidden, if_neg isStyle]
        exact (writtenAll_one _ _).symm

theorem join_served (style : Option Style) (attributes : List (String × Option String)) :
    (String.join ((attributes.map (hostAttr style)).map Attr.html)).toList =
      writtenAll (attributes.filterMap (served? style)) := by
  rw [List.map_map]
  exact Markup.OpenTag.toList_join_written fun a _ => hostAttr_served style a

theorem hostAttrs_html (host : OpenTag) (style : Option Style) {others : List Attr}
    (unwritten : String.join (others.map Attr.html) = "") :
    (String.join ((hostAttrs host style ++ others).map Attr.html)).toList =
      writtenAll (served style host).attributes := by
  have added : (String.join ((((style.filter fun _ => !host.attributes.any fun a => a.1 == "style").map fun s =>
      Attr.named "style" (.style s)).toList).map Attr.html)).toList =
      writtenAll (if host.attributes.any fun a => a.1 == "style" then []
        else style.toList.map fun own => ("style", some own.css)) := by
    cases style with
    | none => cases host.attributes.any fun a => a.1 == "style" <;> rfl
    | some own =>
        cases rendered : host.attributes.any fun a => a.1 == "style" with
        | true => rfl
        | false =>
            have html := hostAttr_served (some own) ("style", none)
            simpa [Option.filter, hostAttr, styleAttr, served?, Element.clientOnly, String.join] using html
  rw [hostAttrs, List.append_assoc, List.map_append, List.map_append, String.join_append, String.join_append, unwritten,
    String.append_empty, String.toList_append, join_served, added, served, Markup.OpenTag.writtenAll_append]

theorem served_named (style : Option Style) {host : OpenTag} (names : ∀ a ∈ host.attributes, IsName a.1) :
    ∀ a ∈ (served style host).attributes, IsName a.1 := by
  have own : IsName "style" := .of_all (by decide) (by decide)
  have class_named : IsName "class" := .of_all (by decide) (by decide)
  intro a member
  rcases List.mem_append.mp member with rendered | added
  · obtain ⟨⟨name, text⟩, here, is⟩ := List.mem_filterMap.mp rendered
    have named : IsName name := names (name, text) here
    simp only [served?] at is
    split at is
    · cases is
    · split at is
      next isStyle =>
        obtain rfl := Option.some.inj is
        exact named
      next =>
        obtain rfl := Option.some.inj is
        dsimp only [Element.domName]
        split
        · exact class_named
        · exact named
  · split at added
    · cases added
    · obtain ⟨_, -, rfl⟩ := List.mem_map.mp added
      exact own

theorem parse?_host {host : OpenTag} {style : Option Style} (isTag : IsTag host.name)
    (names : ∀ a ∈ host.attributes, IsName a.1) {others : List Attr}
    (unwritten : String.join (others.map Attr.html) = "") (children : List Element.Child) :
    OpenTag.parse? (⟨.intrinsic host.name, hostAttrs host style ++ others, children⟩ : Element).html =
      some (served style host) := by
  have read (rest : List Char) := Markup.OpenTag.read?_opening isTag (served_named style names) rest
  have attrs := hostAttrs_html host style unwritten
  have less : "<".toList = ['<'] := rfl
  have greater : ">".toList = ['>'] := rfl
  rw [OpenTag.parse?, Element.html_eq]
  simp only [String.toList_append, attrs, Element.Tag.name, less, greater]
  simp only [opening, List.append_assoc, List.cons_append, List.nil_append] at read ⊢
  rw [read, Option.map_some]
  rfl

theorem markup_unwritten (html : String) :
    String.join ([markAttr, .named "dangerouslySetInnerHTML" (.innerHtml html)].map Attr.html) = "" := by
  have markup : (Attr.named "dangerouslySetInnerHTML" (.innerHtml html)).html = "" := by
    rw [Attr.html, if_neg (by decide)]
    rfl
  rw [List.map_cons, List.map_cons, markup]
  rfl

theorem nest_html (styles : List StyleSheet) (host : Element) :
    ∃ front, ((sheets styles).nest host).html = front ++ host.html ++ "</div>" := by
  have plain : Element.innerHtml? [.named "style" (.style contents), markAttr] = none := rfl
  have close : "</" ++ "div" ++ ">" = "</div>" := rfl
  refine ⟨"<div" ++ String.join ([.named "style" (.style contents), markAttr].map Attr.html) ++ ">" ++
    Element.Child.htmlAll (styles.map fun sheet => (sheetElement sheet).toChild), ?_⟩
  have start : "<" ++ "div" = "<div" := rfl
  rw [sheets_eq, Element.nest, Element.child, Element.html_eq, plain, Option.getD_none, Element.Child.htmlAll_append,
    ← close, ← start]
  simp only [Element.Child.htmlAll, Element.html, Element.Tag.name, String.append_assoc, String.empty_append]

/-- What a renderer's line is read as comes out of the page again. The tag at the head of a host with a shadow root,
or of the last element in the wrapper of any other, is read with the same name and the same attributes in the same
order; those without a text have an empty one, `className` is `class`, what only React reads is gone, and a style has
the CSS of its object, that of the call if there is one, which is added if no style was rendered. -/
theorem parse?_served (line : String) (t : OpenTag) (read : OpenTag.parse? line = some t) (rendered : Rendered)
    (named : rendered.tag = t.name) (host : rendered.markup.host = t) (style : Option Style) (children : Option String) :
    let element := renderElement rendered style (.fixed children)
    match rendered.markup with
    | .shadow _ _ => OpenTag.parse? element.html = some (served style t)
    | .scoped _ _ => ∃ front last, element.html = front ++ last.html ++ "</div>" ∧
        element.children.getLast? = some last ∧ OpenTag.parse? last.html = some (served style t) := by
  obtain ⟨isTag, names⟩ : IsTag t.name ∧ ∀ a ∈ t.attributes, IsName a.1 := by
    obtain ⟨⟨_, _⟩, head, rfl⟩ := Option.map_eq_some_iff.mp read
    exact Markup.OpenTag.read?_named head
  obtain ⟨tag, serialization, markup, styles⟩ := rendered
  obtain rfl : tag = t.name := named
  match markup with
  | .shadow found between =>
      obtain rfl : found = t := host
      intro element
      have unwritten : String.join ([markAttr].map Attr.html) = "" := rfl
      simp only [element, renderElement_shadow, Forward.spreads, List.append_nil]
      exact parse?_host isTag names unwritten _
  | .scoped found inner =>
      obtain rfl : found = t := host
      intro element
      simp only [element, renderElement_scoped, Forward.spreads, List.append_nil]
      obtain ⟨front, whole⟩ := nest_html styles ⟨.intrinsic _, hostAttrs _ style ++
        [markAttr, .named "dangerouslySetInnerHTML" (.innerHtml inner)], []⟩
      exact ⟨front, _, whole, List.getLast?_concat, parse?_host isTag names (markup_unwritten inner) []⟩

def roughLine : String :=
  " <x-a_b TITLE = 'a&quot;b' key=1 className=\"q\" style='color : red' hidden data-x=\">\" style suppressHydrationWarning class=c>tail"

def rough : OpenTag :=
  ⟨"x-a", [("_b", none), ("TITLE", some "a\"b"), ("key", some "1"), ("className", some "q"), ("style", some "color : red"),
    ("hidden", none), ("data-x", some ">"), ("style", none), ("suppressHydrationWarning", none), ("class", some "c")]⟩

theorem parse?_served_rough :
    OpenTag.parse? roughLine = some rough ∧
    OpenTag.parse? (renderElement ⟨"x-a", .declarative, .shadow rough "<p></p>", []⟩ none (.fixed (some "<"))).html =
      some ⟨"x-a", [("_b", some ""), ("TITLE", some "a\"b"), ("class", some "q"), ("style", some "color: red;"),
        ("hidden", some ""), ("data-x", some ">"), ("style", some ""), ("class", some "c")]⟩ ∧
    ∃ last, (renderElement ⟨"x-a", .scoped, .scoped rough "<p></p>", [⟨none, none, "p\x7b\x7d"⟩]⟩
        (some [("top", .string "0")]) (.fixed none)).children.getLast? = some last ∧
      OpenTag.parse? last.html =
        some ⟨"x-a", [("_b", some ""), ("TITLE", some "a\"b"), ("class", some "q"), ("style", some "top: 0;"),
          ("hidden", some ""), ("data-x", some ">"), ("style", some "top: 0;"), ("class", some "c")]⟩ := by
  have read : OpenTag.parse? roughLine = some rough := by decide +kernel
  have around := parse?_served roughLine rough read ⟨"x-a", .declarative, .shadow rough "<p></p>", []⟩ rfl rfl none (some "<")
  refine ⟨read, Eq.trans around (by decide +kernel), ?_⟩
  obtain ⟨-, last, -, is, tag⟩ := parse?_served roughLine rough read
    ⟨"x-a", .scoped, .scoped rough "<p></p>", [⟨none, none, "p\x7b\x7d"⟩]⟩ rfl rfl (some [("top", .string "0")]) none
  exact ⟨last, is, tag.trans (by decide +kernel)⟩

end Declaration

end Prerender
