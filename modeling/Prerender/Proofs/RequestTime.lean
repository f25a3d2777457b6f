import Prerender.Proofs.Rendering.Greeting
import Prerender.RequestTime

set_option autoImplicit false

namespace Prerender

open Markup (OpenTag closeTag)
open Markup.OpenTag (IsTag IsName)
open Markup.Entity (escape)

namespace Props

theorem asked_name {encode : Value → String} {props : Props} {a : String × String} (member : a ∈ props.asked encode) :
    a.1 ≠ "className" ∧ a.1 ∉ Element.clientOnly ∧ (a.1 = "style" → ∃ style ∈ props.style, a.2 = style.css) := by
  rcases List.mem_append.mp member with value | style
  · obtain ⟨⟨name, value⟩, kept, rfl⟩ := List.mem_map.mp value
    have free := (List.mem_filter.mp kept).2
    simp only [Bool.and_eq_true, decide_eq_true_eq, List.mem_cons, List.not_mem_nil, or_false, not_or] at free
    obtain ⟨⟨_, key, ref, style, mark, _⟩, -⟩ := free
    by_cases className : name = "className"
    · simp only [if_pos className]
      exact ⟨by decide, by decide, fun same => absurd same (by decide)⟩
    · simp only [if_neg className, Element.clientOnly, List.mem_cons, List.not_mem_nil, or_false, not_or]
      exact ⟨className, ⟨key, ref, mark⟩, fun same => absurd same style⟩
  · obtain ⟨css, found, rfl⟩ := List.mem_map.mp style
    obtain ⟨given, -⟩ := Option.filter_eq_some_iff.mp (Option.mem_toList.mp found)
    obtain ⟨own, is, text⟩ := Option.map_eq_some_iff.mp given
    have other : "style" ≠ "className" ∧ "style" ∉ Element.clientOnly := by decide
    exact ⟨other.1, other.2, fun _ => ⟨own, is, text.symm⟩⟩

theorem style_mem_asked {encode : Value → String} {props : Props} {style : Style} (own : style ∈ props.style)
    (written : style.css ≠ "") : ("style", style.css) ∈ props.asked encode := by
  refine List.mem_append_right _ (List.mem_map_of_mem (Option.mem_toList.mpr ?_))
  rw [Option.mem_def.mp own, Option.map_some]
  exact Option.filter_eq_some_iff.mpr ⟨rfl, decide_eq_true written⟩

end Props

namespace RequestTime

open Rendering (texted greeted marked plain)
open Renderer (greeter styleLine greetingLine)
open Declaration (hostAttr hostElement)

theorem named_html {name text : String} {value : Element.AttrValue} (known : name ∉ Element.clientOnly)
    (written : value.written = .text text) :
    (Element.Attr.named name value).html = Rendering.attributeSource (Element.domName name, text) := by
  rw [Element.Attr.html, if_neg known, written, Rendering.attributeSource]

theorem hostAttr_html {props : Props} {encode : Value → String} {a : String × String} (member : a ∈ props.asked encode) :
    (hostAttr props.style (a.1, some a.2)).html = Rendering.attributeSource a := by
  obtain ⟨name, text⟩ := a
  obtain ⟨className, known, styled⟩ := Props.asked_name member
  have kept : Element.domName name = name := if_neg className
  by_cases style : name = "style"
  · obtain ⟨own, is, rfl⟩ := styled style
    rw [hostAttr, if_pos style, Declaration.styleAttr, Option.mem_def.mp is, style]
    exact named_html (by decide) rfl
  by_cases isClass : name = "class"
  · rw [hostAttr, if_neg style, if_pos isClass, isClass]
    exact named_html (by decide) rfl
  · rw [hostAttr, if_neg style, if_neg isClass, named_html known rfl, kept]
    rfl

theorem hostElement_attrs (tag : String) {host : OpenTag} {style : Option Style} (children : Option String)
    (has : ∀ own ∈ style, ∃ text, ("style", text) ∈ host.attributes) :
    (hostElement tag host style (.fixed children)).attrs =
      host.attributes.map (hostAttr style) ++ [.named "suppressHydrationWarning" (.flag true)] := by
  cases style with
  | none => rfl
  | some own =>
      obtain ⟨text, member⟩ := has own rfl
      have any : (host.attributes.any fun a => a.1 == "style") = true :=
        List.any_eq_true.mpr ⟨_, member, beq_self_eq_true "style"⟩
      simp only [hostElement, any, if_true]
      rfl

theorem innerHtml?_append {attrs : List Element.Attr} (texts : ∀ a ∈ attrs, ∀ name html, a ≠ .named name (.innerHtml html))
    (others : List Element.Attr) : Element.innerHtml? (attrs ++ others) = Element.innerHtml? others := by
  induction attrs with
  | nil => rfl
  | cons a attrs ih =>
      rw [List.forall_mem_cons] at texts
      rw [← ih texts.2]
      match a with
      | .named name (.innerHtml html) => exact absurd rfl (texts.1 name html)
      | .spread _ | .named _ (.text _) | .named _ (.flag _) | .named _ (.style _) | .named _ (.expression _)
        | .named _ (.value _) => rfl

theorem hostAttr_ne_innerHtml (style : Option Style) (a : String × Option String) (name html : String) :
    hostAttr style a ≠ .named name (.innerHtml html) := by
  obtain ⟨written, text⟩ := a
  by_cases isStyle : written = "style"
  · rw [hostAttr, if_pos isStyle, Declaration.styleAttr]
    nofun
  by_cases isClass : written = "class"
  · rw [hostAttr, if_neg isStyle, if_pos isClass]
    nofun
  · rw [hostAttr, if_neg isStyle, if_neg isClass]
    nofun

section Page

variable {options : Options} (tag : String) {props : Props}

theorem greeted_style (styled : ∀ style ∈ props.style, style.css ≠ "") :
    ∀ own ∈ props.style, ∃ text, ("style", text) ∈ (marked (greeted tag props) .declarative).attributes := by
  intro own is
  have asked : ("style", own.css) ∈ props.asked greeter.encode := Props.style_mem_asked is (styled own is)
  exact ⟨some own.css, List.mem_append_left _ (List.mem_map_of_mem asked)⟩

theorem hostElement_html (styled : ∀ style ∈ props.style, style.css ≠ "") :
    String.join ((hostElement tag (marked (greeted tag props) .declarative) props.style (.fixed props.children)).attrs.map
      Element.Attr.html) = Rendering.attributes greeter.encode props ++ " class=\"hydrated\" s-id=\"1\"" := by
  have asked : ((texted (props.asked greeter.encode)).map (hostAttr props.style)).map Element.Attr.html =
      (props.asked greeter.encode).map Rendering.attributeSource := by
    rw [texted, List.map_map, List.map_map]
    exact List.map_congr_left fun a member => hostAttr_html member
  have added : String.join (((Renderer.marks tag .declarative).map (hostAttr props.style)).map Element.Attr.html) =
      " class=\"hydrated\" s-id=\"1\"" := by
    have attrs : (Renderer.marks tag .declarative).map (hostAttr props.style) =
        [.named "className" (.text "hydrated"), .named "s-id" (.text "1")] := rfl
    rw [attrs]
    decide
  have host : (marked (greeted tag props) .declarative).attributes =
    texted (props.asked greeter.encode) ++ Renderer.marks tag .declarative := rfl
  have unwritten : String.join ([.named "suppressHydrationWarning" (.flag true)].map Element.Attr.html) = "" := by
    decide
  rw [hostElement_attrs tag props.children (greeted_style tag styled), List.map_append, String.join_append, unwritten,
    String.append_empty, host, List.map_append, List.map_append, String.join_append, asked, added, Rendering.attributes,
    Rendering.attributeList_asked]

def template (between : String) : Element :=
  (Declaration.mark ((Element.intrinsic "template").attr "shadowrootmode" (.text "open"))).attr
    "dangerouslySetInnerHTML" (.innerHtml between)

theorem template_html (between : String) :
    (template between).toChild.html = "<template shadowrootmode=\"open\">" ++ between ++ "</template>" := by
  have attrs : (template between).attrs.map Element.Attr.html = [" shadowrootmode=\"open\"", "", ""] := by
    have written : (Element.Attr.named "shadowrootmode" (.text "open")).html = " shadowrootmode=\"open\"" ∧
        (Element.Attr.named "suppressHydrationWarning" (.flag true)).html = "" := by
      decide
    have replaced : (Element.Attr.named "dangerouslySetInnerHTML" (.innerHtml between)).html = "" := by
      rw [Element.Attr.html, if_neg (by decide)]
      rfl
    exact congrArg₂ _ written.1 (congrArg₂ _ written.2 (congrArg₂ _ replaced rfl))
  have opening : "<" ++ "template" ++ String.join [" shadowrootmode=\"open\"", "", ""] ++ ">" =
      "<template shadowrootmode=\"open\">" := rfl
  have close : "</" ++ "template" ++ ">" = "</template>" := rfl
  have content : Element.innerHtml? (template between).attrs = some between := rfl
  have name : (template between).tag.name = "template" := rfl
  rw [Element.toChild, Element.Child.html, attrs, content, name, opening, Option.getD_some, ← close]
  simp only [String.append_assoc]

theorem renderElement_shadow (tag : String) (serialization : Serialization) (host : OpenTag) (between : String)
    (styles : List StyleSheet) (style : Option Style) (children : Option String) :
    Declaration.renderElement ⟨tag, serialization, .shadow host between, styles⟩ style (.fixed children) =
      ⟨.intrinsic tag, (hostElement tag host style (.fixed children)).attrs,
        (template between).toChild :: children.toList.map .text⟩ := by
  have base : (hostElement tag host style (.fixed children)).tag = .intrinsic tag ∧
      (hostElement tag host style (.fixed children)).children = [] := by
    cases style with
    | none => exact ⟨rfl, rfl⟩
    | some own =>
        simp only [hostElement]
        split <;> exact ⟨rfl, rfl⟩
  cases children <;> simp [Declaration.renderElement, Element.nest, Element.child, base, template]

theorem renderElement_html (styled : ∀ style ∈ props.style, style.css ≠ "") (between : String) (styles : List StyleSheet) :
    (Declaration.renderElement ⟨tag, .declarative, .shadow (marked (greeted tag props) .declarative) between, styles⟩
      props.style (.fixed props.children)).html =
      "<" ++ tag ++ Rendering.attributes greeter.encode props ++ " class=\"hydrated\" s-id=\"1\">" ++
        "<template shadowrootmode=\"open\">" ++ between ++ "</template>" ++ escape (props.children.getD "") ++
        "</" ++ tag ++ ">" := by
  have attrs := hostElement_attrs tag props.children (greeted_style tag styled)
  have plain : Element.innerHtml? (hostElement tag (marked (greeted tag props) .declarative) props.style
      (.fixed props.children)).attrs = none := by
    rw [attrs, innerHtml?_append]
    · rfl
    · intro a here
      obtain ⟨read, -, rfl⟩ := List.mem_map.mp here
      exact hostAttr_ne_innerHtml props.style read
  have content : Element.Child.htmlAll ((template between).toChild :: props.children.toList.map .text) =
      (template between).toChild.html ++ escape (props.children.getD "") := by
    cases props.children with
    | none => rfl
    | some text =>
        simp only [Option.toList_some, List.map_cons, List.map_nil, Element.Child.htmlAll, Element.Child.html,
          String.append_empty, Option.getD_some]
  have mark : " class=\"hydrated\" s-id=\"1\">" = " class=\"hydrated\" s-id=\"1\"" ++ ">" := rfl
  rw [renderElement_shadow, Element.html, Element.toChild, Element.Child.html, plain, Option.getD_none, content,
    template_html, hostElement_html tag styled, mark]
  simp only [String.append_assoc, Element.Tag.name]

theorem renderHtml_shadow (styled : ∀ style ∈ props.style, style.css ≠ "") {between : String} {styles : List StyleSheet}
    (ran : Rendering.run options greeter tag props =
      .ok ⟨tag, .declarative, .shadow (marked (greeted tag props) .declarative) between, styles⟩) :
    renderHtml options greeter props (.server tag) = .ok (
      "<" ++ tag ++ Rendering.attributes greeter.encode props ++ " class=\"hydrated\" s-id=\"1\">" ++
        "<template shadowrootmode=\"open\">" ++ between ++ "</template>" ++ escape (props.children.getD "") ++
        "</" ++ tag ++ ">") := by
  rw [renderHtml, render, ran]
  exact congrArg Except.ok (renderElement_html tag styled between styles)

end Page

theorem response_declarative {options : Options} {tag : String} {props : Props} (isTag : IsTag tag)
    (declarative : options.shadowRoot.resolve tag = .declarative) :
    Rendering.response options tag props =
      "<" ++ tag ++ Rendering.attributes greeter.encode props ++ " class=\"hydrated\" s-id=\"1\">\n" ++
        "  <template shadowrootmode=\"open\">\n" ++ (styleLine ++ "\n" ++ greetingLine (greeted tag props)) ++ "\n" ++
        "  </template>\n  <!--r.1-->\n  " ++ escape (props.children.getD "") ++ "\n</" ++ tag ++ ">" := by
  have attrs : String.join ((greeted tag props).attributes.map Renderer.hostAttribute) =
      Rendering.attributes greeter.encode props := by
    rw [Rendering.attributes, Rendering.attributeList_asked, greeted, texted, List.map_map]
    rfl
  have style : "    <style>:host\x7bdisplay:block\x7d</style>\n" = styleLine ++ "\n" := rfl
  have close : "</div>\n" = "</div>" ++ "\n" := rfl
  have name : (greeted tag props).name = tag := rfl
  rw [Rendering.response, declarative, ← Renderer.answer_declarative (greeted tag props) isTag, String.ofList_toList,
    attrs, style, close, name]
  unfold greetingLine
  simp only [String.append_assoc]

/-- What is written for a component with a shadow root, whenever it can be rendered: its opening tag with the
attributes of the props, the lines that the renderer put into the template, as they are, and the children as
text. -/
theorem renderHtml_declarative (options : Options) (tag : String) (props : Props) (isTag : IsTag tag)
    (other : tag ≠ "template") (unrenamed : Tag.rename options.renames tag = tag)
    (declarative : options.shadowRoot.resolve tag = .declarative)
    (names : ∀ a ∈ props.asked greeter.encode, IsName a.1) (styled : ∀ style ∈ props.style, style.css ≠ "")
    (rendered : Rendered) (ran : Rendering.run options greeter tag props = .ok rendered) :
    let opening := "<" ++ tag ++ Rendering.attributes greeter.encode props ++ " class=\"hydrated\" s-id=\"1\">"
    let children := escape (props.children.getD "")
    ∃ output between, greeter.render (Rendering.request options greeter tag props) = .ok output ∧
      output.html = some (opening ++ "\n" ++ "  <template shadowrootmode=\"open\">\n" ++ between ++ "\n" ++
        "  </template>\n  <!--r.1-->\n  " ++ children ++ "\n</" ++ tag ++ ">") ∧
      renderHtml options greeter props (.server tag) = .ok (opening ++ "<template shadowrootmode=\"open\">" ++
        between ++ "</template>" ++ children ++ "</" ++ tag ++ ">") := by
  intro opening children
  have intact := Rendering.run_intact isTag unrenamed names ran
  have whole : ∀ a ∈ props.asked greeter.encode, '\n' ∉ a.2.toList := by
    intro a member here
    obtain ⟨line, failed⟩ := Rendering.run_broken isTag intact unrenamed names ⟨a, member, here⟩
    cases ran.symm.trans failed
  obtain ⟨_, answers⟩ := Rendering.render_request unrenamed isTag intact names
  obtain ⟨styles, split⟩ := Rendering.run_declarative isTag intact unrenamed names whole declarative other
  refine ⟨_, styleLine ++ "\n" ++ greetingLine (greeted tag props), answers, ?_, renderHtml_shadow tag styled split⟩
  have line : " class=\"hydrated\" s-id=\"1\">\n" = " class=\"hydrated\" s-id=\"1\">" ++ "\n" := rfl
  rw [response_declarative isTag declarative, line]
  simp only [opening, children, String.append_assoc]

def tricky : Props :=
  ⟨[("first", .string "</template></my-component>"), ("hidden", .bool true)], some [("zIndex", .number (.int 2))],
    some "<!--"⟩

theorem renderHtml_tricky : ∃ between,
    renderHtml plain greeter tricky (.server "my-component") = .ok ("<" ++ "my-component" ++
      " first=\"&lt;/template&gt;&lt;/my-component&gt;\" hidden=\"true\" style=\"z-index: 2;\"" ++
      " class=\"hydrated\" s-id=\"1\">" ++ "<template shadowrootmode=\"open\">" ++ between ++ "</template>" ++
      "&lt;!--" ++ "</" ++ "my-component" ++ ">") := by
  have isTag : IsTag "my-component" := .of_all rfl rfl rfl
  have asked : tricky.asked greeter.encode =
      [("first", "</template></my-component>"), ("hidden", "true"), ("style", "z-index: 2;")] := by
    decide
  have names : ∀ a ∈ tricky.asked greeter.encode, IsName a.1 := by
    rw [asked]
    simp only [List.forall_mem_cons]
    exact ⟨.of_all (by decide) rfl, .of_all (by decide) rfl, .of_all (by decide) rfl, nofun⟩
  have whole : ∀ a ∈ tricky.asked greeter.encode, '\n' ∉ a.2.toList := by
    rw [asked]
    decide
  have styled : ∀ style ∈ tricky.style, style.css ≠ "" := by
    intro style own
    obtain rfl : [("zIndex", .number (.int 2))] = style := Option.some.inj own
    decide
  have attributes : Rendering.attributes greeter.encode tricky =
      " first=\"&lt;/template&gt;&lt;/my-component&gt;\" hidden=\"true\" style=\"z-index: 2;\"" := by
    rw [Rendering.attributes, Rendering.attributeList_asked, asked]
    decide
  have children : escape (tricky.children.getD "") = "&lt;!--" := by decide
  have unrenamed : Tag.rename plain.renames "my-component" = "my-component" := rfl
  obtain ⟨rendered, ran, -⟩ := Rendering.run_whole isTag (by decide) unrenamed names whole
  obtain ⟨_, between, _, _, page⟩ :=
    renderHtml_declarative plain "my-component" tricky isTag (by decide) unrenamed rfl names styled rendered ran
  rw [attributes, children] at page
  exact ⟨between, page⟩

theorem renderHtml_template :
    let opening := "<template class=\"hydrated\" s-id=\"1\">"
    (∃ rendered, Rendering.run plain greeter "template" Props.empty = .ok rendered) ∧
    ¬ ∃ output between, greeter.render (Rendering.request plain greeter "template" Props.empty) = .ok output ∧
      output.html = some (opening ++ "\n" ++ "  <template shadowrootmode=\"open\">\n" ++ between ++ "\n" ++
        "  </template>\n  <!--r.1-->\n  " ++ "\n</template>") ∧
      renderHtml plain greeter Props.empty (.server "template") =
        .ok (opening ++ "<template shadowrootmode=\"open\">" ++ between ++ "</template>" ++ "</template>") := by
  intro opening
  have asked : Props.empty.asked greeter.encode = [] := rfl
  have names : ∀ a ∈ Props.empty.asked greeter.encode, IsName a.1 := by
    rw [asked]
    nofun
  have whole : ∀ a ∈ Props.empty.asked greeter.encode, '\n' ∉ a.2.toList := by
    rw [asked]
    nofun
  have isTag := Rendering.isTemplate
  have intact : "template" ≠ "broken-component" := by decide
  have unrenamed : Tag.rename plain.renames "template" = "template" := rfl
  have styled : ∀ style ∈ Props.empty.style, style.css ≠ "" := nofun
  obtain ⟨styles, ran⟩ := Rendering.run_template isTag intact unrenamed names whole rfl rfl
  refine ⟨⟨_, ran⟩, ?_⟩
  rintro ⟨output, between, rendered, html, page⟩
  obtain ⟨_, answers⟩ := Rendering.render_request unrenamed isTag intact names
  obtain rfl := Except.ok.inj (answers.symm.trans rendered)
  have response : Rendering.response plain "template" Props.empty =
      opening ++ "\n" ++ "  <template shadowrootmode=\"open\">\n" ++ (styleLine ++ "\n" ++ greetingLine ⟨"template", []⟩) ++
        "\n" ++ "  </template>\n  <!--r.1-->\n  " ++ "\n</template>" := by
    rw [response_declarative isTag rfl]
    decide +kernel
  have front := (String.append_left_inj _).mp ((String.append_left_inj _).mp
    ((String.append_left_inj _).mp (response.symm.trans (Option.some.inj html))))
  obtain rfl := (String.append_right_inj _).mp front
  have written := Except.ok.inj ((renderHtml_shadow "template" styled ran).symm.trans page)
  exact absurd written (by decide +kernel)

end RequestTime
end Prerender
