import Prerender.Markup.Split
import Prerender.Proofs.Element.Html
import Prerender.Proofs.Markup.OpenTag

set_option autoImplicit false

/-!
HTML read back as a tree. A reader that knows nothing of elements, only opening tags, texts up to the next `<`
and closing tags, finds in an element's HTML the tree that was written: no text and no value can open a tag, end
one, or add an attribute.
-/
namespace Prerender

namespace Markup

open OpenTag (IsTag IsName opening written writtenAll)

-- What is written between tags: elements, texts, and what else a language has there.
inductive Outline (Tag Leaf : Type) where
  | element (tag : Tag) (content : List (Outline Tag Leaf))
  | text (s : String)
  | leaf (leaf : Leaf)

namespace Outline

section
variable {Tag Leaf : Type}

-- A text in front of what follows it. An empty one is nothing, and two that meet are one.
def prepend (s : String) : List (Outline Tag Leaf) → List (Outline Tag Leaf)
  | .text t :: others => .text (s ++ t) :: others
  | others => if s = "" then others else .text s :: others

theorem prepend_empty (others : List (Outline Tag Leaf)) : prepend "" others = others := by
  unfold prepend
  split
  · rw [String.empty_append]
  · exact if_pos rfl

theorem prepend_prepend (s t : String) (others : List (Outline Tag Leaf)) :
    prepend s (prepend t others) = prepend (s ++ t) others := by
  match others with
  | .text u :: others => simp only [prepend, String.append_assoc]
  | [] | .element _ _ :: _ | .leaf _ :: _ =>
      by_cases empty : t = ""
      · rw [empty, prepend_empty, String.append_empty]
      · have occupied : s ++ t ≠ "" := fun both => empty (String.append_eq_empty_iff.mp both).2
        simp only [prepend, if_neg empty, if_neg occupied]

end

end Outline

abbrev Html := Outline OpenTag Empty

namespace Html

open Outline (prepend prepend_empty prepend_prepend)

def isTextChar (c : Char) : Bool := c != '<'

def closes (cs : List Char) : Bool := cs.isEmpty || Text.startsWith ['<', '/'] cs

-- Every call that is nested has one step less; a text has no more elements in it than characters.
mutual
def element? : Nat → List Char → Option (Html × List Char)
  | 0, _ => none
  | steps + 1, cs => do
      let (tag, rest) ← OpenTag.read? cs
      let (content, rest) ← content? steps rest
      let rest ← Text.after? (closeTag tag.name) rest
      some (.element tag content, rest)
def content? : Nat → List Char → Option (List Html × List Char)
  | 0, _ => none
  | steps + 1, cs =>
      let text := String.ofList (Entity.decodeChars (cs.takeWhile isTextChar))
      let rest := cs.dropWhile isTextChar
      if closes rest then some (prepend text [], rest)
      else do
        let (first, rest) ← element? steps rest
        let (others, rest) ← content? steps rest
        some (prepend text (first :: others), rest)
end

def read? (html : String) : Option Html :=
  match element? html.length html.toList with
  | some (element, []) => some element
  | _ => none

variable {steps : Nat} {cs : List Char}

theorem decodeChars_append (s rest : List Char) :
    Entity.decodeChars (Entity.escapeChars s ++ rest) = s ++ Entity.decodeChars rest := by
  simp only [Entity.decodeChars_eq_scan]
  induction s with
  | nil => rfl
  | cons c s ih => rw [Entity.escapeChars_cons, List.append_assoc, Entity.scan_escapeChars, ih, List.cons_append]

theorem content?_text (s : String) :
    content? steps (Entity.escapeChars s.toList ++ cs) =
      (content? steps cs).map fun (content, rest) => (prepend s content, rest) := by
  have all : ∀ c ∈ Entity.escapeChars s.toList, isTextChar c = true := fun c here => by
    have other : c ≠ '<' := fun same => Entity.not_mem_escapeChars (by decide) s.toList (same ▸ here)
    exact bne_iff_ne.mpr other
  cases steps with
  | zero => rfl
  | succ steps =>
      simp only [content?, List.takeWhile_append_of_pos all, List.dropWhile_append_of_pos all, decodeChars_append,
        String.ofList_append, String.ofList_toList]
      split
      · rw [Option.map_some, prepend_prepend]
      · cases element? steps (cs.dropWhile isTextChar) with
        | none => rfl
        | some first =>
            cases others : content? steps first.2 <;> simp [others, prepend_prepend]

theorem content?_end (rest : List Char) : content? (steps + 1) ('<' :: '/' :: rest) = some ([], '<' :: '/' :: rest) := rfl

theorem content?_element {tag : String} (isTag : IsTag tag) {rest last : List Char} {first : Html}
    {others : List Html} (opens : ∃ behind, cs = '<' :: tag.toList ++ behind)
    (one : element? steps cs = some (first, rest)) (more : content? steps rest = some (others, last)) :
    content? (steps + 1) cs = some (first :: others, last) := by
  obtain ⟨behind, is⟩ := opens
  obtain ⟨c, tail, chars, letter, -⟩ := isTag.cons
  have other : '/' ≠ c := fun same => absurd (same ▸ letter) (by decide)
  have going : closes cs = false := by
    rw [is, chars]
    simp [closes, Text.startsWith, Text.after?, other]
  have start : cs.takeWhile isTextChar = [] ∧ cs.dropWhile isTextChar = cs := by
    rw [is]
    exact ⟨rfl, rfl⟩
  rw [content?, start.1, start.2, if_neg (by simp [going])]
  simp only [one, more, Option.bind_eq_bind, Option.bind_some]
  exact congrArg (fun content => some (content, last)) (prepend_empty (first :: others))

theorem element?_opening {tag : String} {attributes : List (String × Option String)} (isTag : IsTag tag)
    (names : ∀ a ∈ attributes, IsName a.1) {content : List Html} {rest : List Char}
    (inner : content? steps cs = some (content, closeTag tag ++ rest)) :
    element? (steps + 1) (opening tag attributes ++ cs) = some (.element ⟨tag, attributes⟩ content, rest) := by
  rw [element?, OpenTag.read?_opening isTag names]
  simp only [Option.bind_eq_bind, Option.bind_some, inner, Text.after?_append]

end Html

end Markup

namespace Element

open Markup (Outline Html closeTag)
open Markup.OpenTag (IsTag IsName opening written writtenAll)

-- The text that an attribute's value has in the document, if it is there at all; one without a text is only named.
def AttrValue.seen? : AttrValue → Option (Option String)
  | .text s => some (some s)
  | .flag true => some none
  | .flag false => none
  | .style contents => some (some contents.css)
  | .innerHtml _ => none
  | .expression _ => none
  | .value .undefined => none
  | .value (.bool false) => none
  | .value v => some (some (v.attributeText?.getD (Value.Envelope.encode v)))

def Attr.seen? : Attr → Option (String × Option String)
  | .spread _ => none
  | .named name value =>
      if name ∈ ["key", "ref", "suppressHydrationWarning"] then none
      else value.seen?.map fun text => (if name = "className" then "class" else name, text)

def outlineTag (tag : Tag) (attrs : List Attr) : Markup.OpenTag := ⟨tag.name, attrs.filterMap Attr.seen?⟩

mutual
def Child.outline : Child → List Html → List Html
  | .element tag attrs children, others => .element (outlineTag tag attrs) (Child.outlines children) :: others
  | .expression _, others => others
  | .text s, others => Outline.prepend s others
def Child.outlines : List Child → List Html
  | [] => []
  | child :: children => child.outline (Child.outlines children)
end

def outline (e : Element) : Html := .element (outlineTag e.tag e.attrs) (Child.outlines e.children)

def Attr.IsReadable : Attr → Prop
  | .named name value => IsName name ∧ ∀ html, value ≠ .innerHtml html
  | .spread _ => True

mutual
def Child.IsReadable : Child → Prop
  | .element tag attrs children => IsTag tag.name ∧ (∀ a ∈ attrs, a.IsReadable) ∧ Child.AllReadable children
  | .expression _ => True
  | .text _ => True
def Child.AllReadable : List Child → Prop
  | [] => True
  | child :: children => child.IsReadable ∧ Child.AllReadable children
end

theorem AttrValue.written_eq {value : AttrValue} (text : ∀ html, value ≠ .innerHtml html) :
    value.written = match value.seen? with
      | none => .nothing
      | some none => .bare
      | some (some s) => .text s := by
  match value with
  | .text _ | .flag true | .flag false | .style _ | .expression _ => rfl
  | .innerHtml html => exact absurd rfl (text html)
  | .value v => cases v with
    | bool b => cases b <;> rfl
    | _ => rfl

theorem Attr.html_toList {a : Attr} (readable : a.IsReadable) : a.html.toList = writtenAll a.seen?.toList := by
  cases a with
  | spread source => rfl
  | named name value =>
      have hidden : clientOnly = ["key", "ref", "suppressHydrationWarning"] := rfl
      rw [Attr.html, seen?, ← hidden]
      split
      · rfl
      · rw [AttrValue.written_eq readable.2]
        cases value.seen? with
        | none => rfl
        | some seen => cases seen with
          | none => simp [writtenAll, written, domName]
          | some s => simp [writtenAll, written, domName, Markup.Entity.escape]

theorem Attr.named_of_seen? {a : Attr} (readable : a.IsReadable) {seen : String × Option String} (is : a.seen? = some seen) :
    IsName seen.1 := by
  cases a with
  | spread source => cases is
  | named name value =>
      rw [seen?] at is
      split at is
      · cases is
      · obtain ⟨text, -, rfl⟩ := Option.map_eq_some_iff.mp is
        dsimp only
        split
        · exact .of_all (by decide) (by decide)
        · exact readable.1

section

variable {tag : Tag} {attrs : List Attr} (readable : ∀ a ∈ attrs, a.IsReadable)

include readable

theorem join_html : (String.join (attrs.map Attr.html)).toList = writtenAll (attrs.filterMap Attr.seen?) :=
  Markup.OpenTag.toList_join_written fun a here => Attr.html_toList (readable a here)

theorem outlineTag_named : ∀ a ∈ (outlineTag tag attrs).attributes, IsName a.1 := by
  intro seen member
  obtain ⟨a, here, is⟩ := List.mem_filterMap.mp member
  exact Attr.named_of_seen? (readable a here) is

theorem innerHtml?_readable : innerHtml? attrs = none := by
  unfold innerHtml?
  induction attrs with
  | nil => rfl
  | cons a attrs ih =>
      rw [List.forall_mem_cons] at readable
      rw [List.foldl_cons]
      split
      next name html => exact absurd rfl (readable.1.2 html)
      next => exact ih readable.2

theorem html_toList (children : List Child) :
    (Child.element tag attrs children).html.toList =
      opening tag.name (outlineTag tag attrs).attributes ++ ((Child.htmlAll children).toList ++ closeTag tag.name) := by
  have less : "<".toList = ['<'] := rfl
  have greater : ">".toList = ['>'] := rfl
  have close : "</".toList = ['<', '/'] := rfl
  rw [Child.html, innerHtml?_readable readable, Option.getD_none]
  simp only [String.toList_append, join_html readable, less, greater, close, opening, closeTag, outlineTag,
    List.append_assoc, List.cons_append, List.nil_append]

theorem element?_html (isTag : IsTag tag.name) {children : List Child} (steps : Nat)
    (enough : steps + 1 ≥ (Child.element tag attrs children).html.toList.length)
    (content : ∀ fewer > (Child.htmlAll children).toList.length, ∀ rest,
      Html.content? fewer ((Child.htmlAll children).toList ++ (closeTag tag.name ++ rest)) =
        some (Child.outlines children, closeTag tag.name ++ rest)) (rest : List Char) :
    Html.element? steps ((Child.element tag attrs children).html.toList ++ rest) =
      some (.element (outlineTag tag attrs) (Child.outlines children), rest) := by
  rw [html_toList readable] at enough ⊢
  simp only [opening, closeTag, List.length_append, List.length_cons, List.length_nil] at enough
  obtain ⟨fewer, is⟩ : ∃ fewer, steps = fewer + 1 := ⟨steps - 1, by omega⟩
  rw [is, List.append_assoc, List.append_assoc]
  exact Html.element?_opening isTag (outlineTag_named readable) (content fewer (by omega) rest)

end

-- Each text and each element is read in front of what is read behind it. There are steps enough as long as there
-- are as many as characters, and `room` for what stands behind.
mutual
theorem Child.content?_html {cs rest : List Char} {others : List Html} {room : Nat}
    (behind : ∀ steps ≥ room, Html.content? steps cs = some (others, rest)) :
    (child : Child) → child.IsReadable → ∀ steps ≥ child.html.toList.length + room,
      Html.content? steps (child.html.toList ++ cs) = some (child.outline others, rest)
  | .element tag attrs children => by
      intro all steps enough
      rw [IsReadable] at all
      obtain ⟨isTag, readable, inner⟩ := all
      have occupied : (element tag attrs children).html.toList.length > 0 := by
        rw [html_toList readable, opening]
        simp
      obtain ⟨steps, rfl⟩ : ∃ fewer, steps = fewer + 1 := ⟨steps - 1, by omega⟩
      have opens : ∃ behind, (element tag attrs children).html.toList ++ cs = '<' :: tag.name.toList ++ behind := by
        rw [html_toList readable, opening]
        simp only [List.append_assoc]
        exact ⟨_, rfl⟩
      have one := element?_html readable isTag steps (by omega) (Child.content?_htmlAll tag.name children inner) cs
      rw [outline]
      exact Html.content?_element isTag opens one (behind steps (by omega))
  | .expression source => by
      intro _ steps enough
      have nothing : (Child.expression source).html.toList = [] := by rw [Child.html, String.toList_empty]
      rw [nothing, List.nil_append, outline]
      exact behind steps (by omega)
  | .text s => by
      intro _ steps enough
      have more := behind steps (by omega)
      have text : (Child.text s).html.toList = Markup.Entity.escapeChars s.toList := by
        rw [Child.html, Markup.Entity.escape, String.toList_ofList]
      rw [text, Html.content?_text, more, Option.map_some, outline]
theorem Child.content?_htmlAll (tag : String) :
    (children : List Child) → Child.AllReadable children → ∀ steps > (Child.htmlAll children).toList.length, ∀ rest,
      Html.content? steps ((Child.htmlAll children).toList ++ (closeTag tag ++ rest)) =
        some (Child.outlines children, closeTag tag ++ rest)
  | [] => by
      intro _ steps enough rest
      obtain ⟨steps, rfl⟩ : ∃ fewer, steps = fewer + 1 := ⟨steps - 1, by omega⟩
      exact Html.content?_end _
  | child :: children => by
      intro all steps enough rest
      rw [AllReadable] at all
      obtain ⟨first, others⟩ := all
      have behind (steps : Nat) (enough : steps ≥ (Child.htmlAll children).toList.length + 1) :=
        Child.content?_htmlAll tag children others steps enough rest
      rw [Child.htmlAll, String.toList_append, List.length_append] at enough
      rw [Child.htmlAll, String.toList_append, List.append_assoc]
      exact Child.content?_html behind child first steps (by omega)
end

/-- HTML is read back as the tree that was written. In an element without content given as markup, all of whose
elements and attributes have names that can be read, every tag is closed where it was, has the attributes that are
to be seen, in their order and with their texts, and around it stand the same texts. -/
theorem read?_eq_outline (e : Element) (readable : e.toChild.IsReadable) : Html.read? e.html = some e.outline := by
  rw [toChild, Child.IsReadable] at readable
  obtain ⟨isTag, named, inner⟩ := readable
  have enough : e.html.length + 1 ≥ e.toChild.html.toList.length := by
    rw [html, String.length_toList]
    exact Nat.le_succ _
  have read := element?_html named isTag _ enough (Child.content?_htmlAll e.tag.name e.children inner) []
  rw [List.append_nil] at read
  rw [Html.read?, show e.html.toList = (Child.element e.tag e.attrs e.children).html.toList from rfl, read]
  rfl

def tricky : Element :=
  ⟨.intrinsic "x-a",
    [.named "title" (.text "\"><b c='&lt;'>"), .named "className" (.text "&amp;"), .named "hidden" (.flag true),
      .named "open" (.flag false), .named "key" (.text "k"), .spread "...p", .named "style" (.style [("color", .string "\"")]),
      .named "data-v" (.value (.string "</x-a>")), .named "on" (.value (.bool true)), .named "off" (.value (.bool false)),
      .named "rows" (.value .null), .named "onclick" (.expression "f")],
    [.text "1 < 2 &lt;", .expression "p", .text "</x-a>", .element (.component "B1") [] [.text ""], .text "a"]⟩

theorem read?_eq_outline_tricky :
    tricky.toChild.IsReadable ∧ Html.read? tricky.html = some (.element
      ⟨"x-a", [("title", some "\"><b c='&lt;'>"), ("class", some "&amp;"), ("hidden", none),
        ("style", some "color: \";"), ("data-v", some "</x-a>"), ("on", some "true"),
        ("rows", some "serialized:eyJ0eXBlIjoibnVsbCJ9")]⟩
      [.text "1 < 2 &lt;</x-a>", .element ⟨"B1", []⟩ [], .text "a"]) := by
  have named : ∀ a ∈ tricky.attrs, a.IsReadable := by
    simp only [tricky, List.forall_mem_cons, List.not_mem_nil, false_imp_iff, implies_true, and_true, Attr.IsReadable,
      ne_eq, reduceCtorEq, not_false_eq_true, true_and]
    refine ⟨?_, ?_, ?_, ?_, ?_, ?_, ?_, ?_, ?_, ?_, ?_⟩ <;> exact .of_all (by decide) (by decide)
  have readable : tricky.toChild.IsReadable := by
    have outer : IsTag "x-a" := .of_all (c := 'x') rfl rfl (by decide)
    have inner : IsTag "B1" := .of_all (c := 'B') rfl rfl (by decide)
    have children : Child.AllReadable tricky.children := by
      simp [tricky, Child.AllReadable, Child.IsReadable, Tag.name, inner]
    rw [toChild, Child.IsReadable]
    exact ⟨outer, named, children⟩
  refine ⟨readable, (read?_eq_outline tricky readable).trans ?_⟩
  have attrs : tricky.attrs.filterMap Attr.seen? =
      [("title", some "\"><b c='&lt;'>"), ("class", some "&amp;"), ("hidden", none), ("style", some "color: \";"),
        ("data-v", some "</x-a>"), ("on", some "true"), ("rows", some "serialized:eyJ0eXBlIjoibnVsbCJ9")] := by
    decide +kernel
  rw [outline, outlineTag, attrs]
  simp [tricky, Child.outlines, Child.outline, Outline.prepend, outlineTag, Tag.name]

end Element
end Prerender
