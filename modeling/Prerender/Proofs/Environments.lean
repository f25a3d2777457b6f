import Prerender.Proofs.Declarations
import Prerender.Proofs.RequestTime

set_option autoImplicit false

namespace Prerender

open Element (Attr Child)
open Markup.Entity (escape)
open Renderer (greeter)
open Rendering (plain)

namespace Props

theorem values_ofValues (values : List (String × Value)) (children : Option String) :
    (ofValues values children).values = values.filter fun p => p.1 ≠ "style" && p.1 ≠ "children" := by
  have step (props : Props) : (values.foldl (fun props p => props.add p.1 p.2) props).values =
      props.values ++ values.filter fun p => p.1 ≠ "style" && p.1 ≠ "children" := by
    induction values generalizing props with
    | nil => simp
    | cons entry values ih =>
        obtain ⟨key, value⟩ := entry
        rw [List.foldl_cons, ih, List.filter_cons]
        by_cases style : key = "style"
        · simp [add, style]
        by_cases children : key = "children"
        · cases value <;> simp [add, children]
        · simp [add, style, children]
  exact step ⟨[], none, children⟩

def live (encode : Value → String) (props : Props) : List (String × String) :=
  ((props.values.filter fun p => p.1 ∉ Element.clientOnly && !p.2.isAbsent).map fun p =>
    (Element.domName p.1, p.2.attributeText?.getD (encode p.2))) ++
  (props.style.map Style.css).toList.map ("style", ·)

def isHanded (a : String × String) : Bool := a.1 ≠ "dangerouslySetInnerHTML" && a ≠ ("style", "")

section
variable {encode : Value → String} {props : Props}

theorem domName_cases (name : String) :
    (name = "className" ∧ Element.domName name = "class") ∨ (name ≠ "className" ∧ Element.domName name = name) := by
  by_cases isClass : name = "className"
  · exact .inl ⟨isClass, if_pos isClass⟩
  · exact .inr ⟨isClass, if_neg isClass⟩

theorem isHanded_value {name : String} (other : name ≠ "style") (text : String) :
    isHanded (Element.domName name, text) = decide (name ≠ "dangerouslySetInnerHTML") := by
  rcases domName_cases name with ⟨rfl, same⟩ | ⟨-, same⟩
  · rw [same]
    rfl
  · simp [isHanded, same, other]

theorem asked_eq_filter_live (apart : ∀ p ∈ props.values, p.1 ≠ "style" ∧ p.1 ≠ "children") :
    props.asked encode = (props.live encode).filter isHanded := by
  rw [asked, live, List.filter_append]
  refine congrArg₂ _ ?_ ?_
  · rw [List.filter_map, List.filter_filter]
    refine congrArg _ (List.filter_congr fun p member => ?_)
    obtain ⟨style, children⟩ := apart p member
    rw [Function.comp, isHanded_value style]
    by_cases markup : p.1 = "dangerouslySetInnerHTML" <;> simp [Element.clientOnly, style, children, markup]
  · cases props.style with
    | none => rfl
    | some style =>
        by_cases empty : style.css = ""
        · simp [Option.filter, empty, isHanded]
        · simp [Option.filter, empty, isHanded]

theorem live_handed_iff (apart : ∀ p ∈ props.values, p.1 ≠ "style" ∧ p.1 ≠ "children") :
    (∀ a ∈ props.live encode, isHanded a = true) ↔
      (∀ value, ("dangerouslySetInnerHTML", value) ∈ props.values → value.isAbsent = true) ∧
        ∀ style ∈ props.style, style.css ≠ "" := by
  rw [live, List.forall_mem_append]
  refine and_congr ⟨fun handed value member => ?_, fun absent a member => ?_⟩ ?_
  · by_contra written
    have kept : ("dangerouslySetInnerHTML", value) ∈
        props.values.filter fun p => p.1 ∉ Element.clientOnly && !p.2.isAbsent :=
      List.mem_filter.mpr ⟨member, by simp [Element.clientOnly, written]⟩
    have handed := handed _ (List.mem_map_of_mem kept)
    rw [isHanded_value (apart _ member).1] at handed
    exact absurd rfl (of_decide_eq_true handed)
  · obtain ⟨p, kept, rfl⟩ := List.mem_map.mp member
    obtain ⟨member, written⟩ := List.mem_filter.mp kept
    rw [isHanded_value (apart p member).1, decide_eq_true_iff]
    intro markup
    have nothing := absent p.2 (markup ▸ member)
    simp [nothing] at written
  · cases props.style with
    | none => simp
    | some style => simp [isHanded]

end

end Props

namespace RequestTime

theorem clientElement_eq (tag : String) (props : Props) :
    clientElement tag props =
      ⟨.intrinsic tag, (props.values.map fun p => .named p.1 (.value p.2)) ++
        (props.style.map fun style => .named "style" (.style style)).toList, props.children.toList.map .text⟩ := by
  unfold clientElement
  rw [Element.intrinsic, Declaration.foldl_attr, List.nil_append]
  cases props.style <;> cases props.children <;> simp [Element.attr, Element.child]

theorem value_html (p : String × Value) :
    (Attr.named p.1 (.value p.2)).html =
      if p.1 ∉ Element.clientOnly && !p.2.isAbsent then
        Rendering.attributeSource (Element.domName p.1, p.2.attributeText?.getD (Value.Envelope.encode p.2))
      else "" := by
  obtain ⟨name, value⟩ := p
  by_cases known : name ∈ Element.clientOnly
  · simp [Attr.html, known]
  cases absent : value.isAbsent with
  | true =>
      have nothing : (Element.AttrValue.value value).written = .nothing := by
        cases value with
        | undefined => rfl
        | bool b => cases b with
          | false => rfl
          | true => cases absent
        | _ => cases absent
      simp [Attr.html, nothing]
  | false =>
      have text : (Element.AttrValue.value value).written =
          .text (value.attributeText?.getD (Value.Envelope.encode value)) := by
        cases value with
        | undefined => cases absent
        | bool b => cases b with
          | false => cases absent
          | true => rfl
        | _ => rfl
      rw [named_html known text]
      simp [known]

def written (tag : String) (attributes : List (String × String)) (text : String) : String :=
  "<" ++ tag ++ String.join (attributes.map Rendering.attributeSource) ++ ">" ++ escape text ++ "</" ++ tag ++ ">"

theorem join_ite {α : Type} (keep : α → Bool) (write : α → String) (xs : List α) :
    String.join (xs.map fun x => if keep x then write x else "") = String.join ((xs.filter keep).map write) := by
  induction xs with
  | nil => rfl
  | cons x xs ih =>
      rw [List.map_cons, String.join_cons, ih, List.filter_cons]
      by_cases kept : keep x = true
      · rw [if_pos kept, if_pos kept, List.map_cons, String.join_cons]
      · rw [if_neg kept, if_neg kept, String.empty_append]

theorem live_html (tag : String) (props : Props) :
    String.join (((clientElement tag props).attrs).map Attr.html) =
      String.join ((props.live Value.Envelope.encode).map Rendering.attributeSource) := by
  have values : (props.values.map fun p => Attr.named p.1 (.value p.2)).map Attr.html = props.values.map fun p =>
      if p.1 ∉ Element.clientOnly && !p.2.isAbsent then
        Rendering.attributeSource (Element.domName p.1, p.2.attributeText?.getD (Value.Envelope.encode p.2))
      else "" := by
    rw [List.map_map]
    exact List.map_congr_left fun p _ => value_html p
  have style : (props.style.map fun style => Attr.named "style" (.style style)).toList.map Attr.html =
      ((props.style.map Style.css).toList.map ("style", ·)).map Rendering.attributeSource := by
    cases props.style with
    | none => rfl
    | some style => exact congrArg (fun s => [s]) (named_html (by decide) rfl)
  rw [clientElement_eq, List.map_append, values, style, String.join_append, join_ite, Props.live, List.map_append,
    String.join_append, List.map_map (l := props.values.filter _)]
  rfl

theorem clientElement_html (tag : String) (props : Props) :
    (clientElement tag props).html = written tag (props.live Value.Envelope.encode) (props.children.getD "") := by
  have plain : Element.innerHtml? (clientElement tag props).attrs = none := by
    rw [clientElement_eq, ← List.append_nil (_ ++ _)]
    refine innerHtml?_append (fun a member name html => ?_) []
    rcases List.mem_append.mp member with value | style
    · obtain ⟨p, -, rfl⟩ := List.mem_map.mp value
      nofun
    · obtain ⟨style, -, rfl⟩ := Option.map_eq_some_iff.mp (Option.mem_toList.mp style)
      nofun
  have content : Child.htmlAll (clientElement tag props).children = escape (props.children.getD "") := by
    rw [clientElement_eq]
    cases props.children with
    | none => rfl
    | some text => exact String.append_empty
  have name : (clientElement tag props).tag.name = tag := by rw [clientElement_eq]; rfl
  rw [Element.html, Element.toChild, Child.html, plain, Option.getD_none, content, name, live_html, written]

theorem join_filter_iff {α : Type} (keep : α → Bool) {write : α → String} (occupied : ∀ x, write x ≠ "") (xs : List α) :
    String.join (xs.map write) = String.join ((xs.filter keep).map write) ↔ ∀ x ∈ xs, keep x = true := by
  have shorter : (String.join ((xs.filter keep).map write)).length + (xs.filter (!keep ·)).length ≤
      (String.join (xs.map write)).length := by
    induction xs with
    | nil => exact Nat.zero_le _
    | cons x xs ih =>
        have pos : 0 < (write x).length := Nat.pos_of_ne_zero fun none => occupied x (String.length_eq_zero_iff.mp none)
        rw [List.map_cons, String.join_cons, String.length_append]
        cases kept : keep x with
        | true =>
            rw [List.filter_cons_of_pos kept, List.filter_cons_of_neg (by simp [kept]), List.map_cons,
              String.join_cons, String.length_append]
            omega
        | false =>
            rw [List.filter_cons_of_neg (by simp [kept]), List.filter_cons_of_pos (by simp [kept]), List.length_cons]
            omega
  constructor
  · intro same x member
    by_contra dropped
    have some_dropped : x ∈ xs.filter (!keep ·) := List.mem_filter.mpr ⟨member, by simpa using dropped⟩
    have := List.length_pos_of_mem some_dropped
    rw [same] at shorter
    omega
  · intro all
    rw [List.filter_eq_self.mpr all]

theorem attributeSource_ne_empty (a : String × String) : Rendering.attributeSource a ≠ "" := by
  intro empty
  have chars := congrArg String.toList empty
  simp [Rendering.attributeSource] at chars

theorem written_filter_iff (tag text : String) (keep : String × String → Bool) (attributes : List (String × String)) :
    written tag attributes text = written tag (attributes.filter keep) text ↔ ∀ a ∈ attributes, keep a = true := by
  rw [← join_filter_iff keep attributeSource_ne_empty attributes]
  simp only [written, String.append_left_inj, String.append_right_inj]

theorem source_eq_written (encode : Value → String) (tag : String) (props : Props) :
    Rendering.source encode tag props = written tag (props.asked encode) (props.children.getD "") := by
  rw [Rendering.source, Rendering.attributes, Rendering.attributeList_asked, written]

/-- In the browser a component is written as the element that on the server its renderer would be handed, with the
same attributes in the same order, exactly if no markup is given as a prop and there is CSS of the style.
`answer` is what the renderer makes of it. -/
theorem renderHtml_browser_iff (options : Options) (answer : Renderer.Request → Except Renderer.Error Renderer.Output)
    (tag : String) (values : List (String × Value)) (children : Option String) :
    let renderer : Renderer := ⟨answer, Value.Envelope.encode⟩
    let props := Props.ofValues values children
    let attributes := props.live Value.Envelope.encode
    let element (attributes : List (String × String)) : String :=
      written (Tag.rename options.renames tag) attributes (props.children.getD "")
    renderHtml options renderer props (bind options tag .browser) = .ok (element attributes) ∧
    requests options renderer props (bind options tag .server) =
      [⟨element (attributes.filter Props.isHanded), options.shadowRoot⟩] ∧
    (element attributes = element (attributes.filter Props.isHanded) ↔
      (∀ value, ("dangerouslySetInnerHTML", value) ∈ values → value.isAbsent = true) ∧
        ∀ style ∈ props.style, style.css ≠ "") := by
  intro renderer props attributes element
  have found : props.values = values.filter fun p => p.1 ≠ "style" && p.1 ≠ "children" :=
    Props.values_ofValues values children
  have apart : ∀ p ∈ props.values, p.1 ≠ "style" ∧ p.1 ≠ "children" := by
    intro p member
    rw [found] at member
    simpa using (List.mem_filter.mp member).2
  refine ⟨congrArg Except.ok (clientElement_html _ props), ?_, ?_⟩
  · rw [← Props.asked_eq_filter_live apart]
    show [Rendering.request options renderer tag props] = _
    rw [Rendering.request, source_eq_written]
  · have markup (value : Value) : ("dangerouslySetInnerHTML", value) ∈ props.values ↔
        ("dangerouslySetInnerHTML", value) ∈ values := by
      simp [found, List.mem_filter]
    simp only [element, written_filter_iff, attributes, Props.live_handed_iff apart, markup]

def unhanded : List (String × Value) :=
  [("dangerouslySetInnerHTML", .object [("__html", .string "<b>x</b>")]), ("style", .object [])]

theorem renderHtml_browser_unhanded :
    let props := Props.ofValues unhanded none
    renderHtml plain greeter props (bind plain "my-component" .browser) =
      .ok ("<my-component dangerouslySetInnerHTML=\"serialized:eyJ0eXBlIjoib2JqZWN0IiwidmFsdWUiOltbIl9faHRtbCIse" ++
        "yJ0eXBlIjoic3RyaW5nIiwidmFsdWUiOiI8Yj54PC9iPiJ9XV19\" style=\"\"></my-component>") ∧
    requests plain greeter props (bind plain "my-component" .server) =
      [⟨"<my-component></my-component>", .default⟩] := by
  refine ⟨congrArg Except.ok ?_, ?_⟩
  · decide +kernel
  · decide +kernel

end RequestTime
end Prerender
