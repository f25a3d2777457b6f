import Prerender.Proofs.Declarations
import Prerender.Proofs.Forwarding

set_option autoImplicit false

namespace Prerender

namespace Element

-- What an attribute gives to a name where its element is created; `held` says what is in a spread.
def Attr.value? (held : String → String → Option AttrValue) (name : String) : Attr → Option AttrValue
  | .named other value => if other = name then some value else none
  | .spread source => held source name

-- Of several values for one name the last counts.
def effective? (held : String → String → Option AttrValue) (attrs : List Attr) (name : String) : Option AttrValue :=
  attrs.foldl (fun found a => (a.value? held name).or found) none

def Attr.Spares (name : String) : Attr → Prop
  | .named other _ => other ≠ name
  | .spread _ => False

theorem foldl_spares {name : String} (held : String → String → Option AttrValue) {attrs : List Attr}
    (spare : ∀ a ∈ attrs, a.Spares name) (found : Option AttrValue) :
    attrs.foldl (fun found a => (a.value? held name).or found) found = found := by
  induction attrs generalizing found with
  | nil => rfl
  | cons a attrs ih =>
      rw [List.forall_mem_cons] at spare
      obtain ⟨first, others⟩ := spare
      rw [List.foldl_cons, ih others]
      cases a with
      | named other value => rw [Attr.value?, if_neg first, Option.none_or]
      | spread source => exact first.elim

theorem effective_last {name : String} {value : AttrValue} (held : String → String → Option AttrValue)
    (before : List Attr) {after : List Attr} (spare : ∀ a ∈ after, a.Spares name) :
    effective? held (before ++ .named name value :: after) name = some value := by
  rw [effective?, List.foldl_append, List.foldl_cons, foldl_spares held spare, Attr.value?, if_pos rfl, Option.some_or]

def Child.Throughout (holds : List Attr → Prop) (c : Child) : Prop :=
  ∀ tag attrs children, .element tag attrs children ∈ c.descendants → holds attrs

theorem Child.mem_descendantsOf {c : Child} {children : List Child} :
    c ∈ Child.descendantsOf children ↔ ∃ child ∈ children, c ∈ child.descendants := by
  induction children with
  | nil => simp [Child.descendantsOf]
  | cons child children ih => simp [Child.descendantsOf, ih]

theorem Child.throughout_element {holds : List Attr → Prop} {tag : Tag} {attrs : List Attr} {children : List Child} :
    Child.Throughout holds (.element tag attrs children) ↔ holds attrs ∧ ∀ c ∈ children, c.Throughout holds := by
  constructor
  · intro all
    refine ⟨all tag attrs children List.mem_cons_self, fun c member other others below found => ?_⟩
    exact all other others below (List.mem_cons_of_mem _ (Child.mem_descendantsOf.mpr ⟨c, member, found⟩))
  · rintro ⟨own, below⟩ other others inner found
    rcases List.mem_cons.mp found with same | found
    · injection same with _ same _
      exact same ▸ own
    · obtain ⟨c, member, found⟩ := Child.mem_descendantsOf.mp found
      exact below c member other others inner found

theorem Child.throughout_expression {holds : List Attr → Prop} (source : String) :
    Child.Throughout holds (.expression source) := by
  intro tag attrs children found
  cases List.mem_singleton.mp found

theorem Child.throughout_text {holds : List Attr → Prop} (s : String) : Child.Throughout holds (.text s) := by
  intro tag attrs children found
  cases List.mem_singleton.mp found

end Element

namespace Declaration

open Element (Attr AttrValue Child)
open RequestTime (template)

-- Whether the mark stands among the attributes of an element with nothing behind it that could change it.
def IsMarked (attrs : List Attr) : Prop :=
  ∃ before after, attrs = before ++ markAttr :: after ∧ ∀ a ∈ after, a.Spares "suppressHydrationWarning"

def IsStyled (attrs : List Attr) : Prop := ∀ value, .named "style" value ∈ attrs → ∃ style, value = .style style

structure Guarded (attrs : List Attr) : Prop where
  marked : IsMarked attrs
  styled : IsStyled attrs

theorem IsMarked.effective {attrs : List Attr} (marked : IsMarked attrs) (held : String → String → Option AttrValue) :
    Element.effective? held attrs "suppressHydrationWarning" = some (.flag true) := by
  obtain ⟨before, after, rfl, spare⟩ := marked
  exact Element.effective_last held before spare

theorem isMarked_of_last (before : List Attr) : IsMarked (before ++ [markAttr]) := ⟨before, [], rfl, nofun⟩

theorem isMarked_of_markup (before : List Attr) (html : String) :
    IsMarked (before ++ [markAttr, .named "dangerouslySetInnerHTML" (.innerHtml html)]) := by
  refine ⟨before, _, rfl, List.forall_mem_singleton.mpr ?_⟩
  exact (by decide : "dangerouslySetInnerHTML" ≠ "suppressHydrationWarning")

section Host

variable (host : Markup.OpenTag) (style : Option Style)

theorem hostAttr_style {a : String × Option String} {value : AttrValue} (is : hostAttr style a = .named "style" value) :
    value = .style (style.getD (Style.parseCss (a.2.getD ""))) := by
  obtain ⟨name, text⟩ := a
  simp only [hostAttr] at is
  split at is
  next => exact (Attr.named.inj is).2.symm
  next other =>
    split at is
    · exact absurd (Attr.named.inj is).1 (by decide)
    · exact absurd (Attr.named.inj is).1 other

theorem style_of_mem_hostAttrs {value : AttrValue} (member : .named "style" value ∈ hostAttrs host style) :
    ∃ own, value = .style own ∧ ∀ given, style = some given → own = given := by
  rcases List.mem_append.mp member with rendered | added
  · obtain ⟨a, -, is⟩ := List.mem_map.mp rendered
    refine ⟨_, hostAttr_style style is, fun given same => ?_⟩
    rw [same, Option.getD_some]
  · obtain ⟨own, kept, is⟩ := Option.map_eq_some_iff.mp (Option.mem_toList.mp added)
    have given := (Option.filter_eq_some_iff.mp kept).1
    refine ⟨own, (Attr.named.inj is).2.symm, fun other same => ?_⟩
    exact Option.some.inj (given.symm.trans same)

theorem style_mem_hostAttrs {given : Style} (is : style = some given) :
    .named "style" (.style given) ∈ hostAttrs host style := by
  subst is
  by_cases rendered : (host.attributes.any fun a => a.1 == "style") = true
  · obtain ⟨⟨name, text⟩, member, named⟩ := List.any_eq_true.mp rendered
    obtain rfl : name = "style" := beq_iff_eq.mp named
    exact List.mem_append_left _ (List.mem_map_of_mem member)
  · refine List.mem_append_right _ ?_
    simp [Option.filter, rendered]

theorem styles_of_host (forward : Forward) {others : List Attr} (plain : ∀ value, .named "style" value ∉ others)
    {value : AttrValue} (member : .named "style" value ∈ hostAttrs host style ++ forward.spreads ++ others) :
    .named "style" value ∈ hostAttrs host style := by
  rcases List.mem_append.mp member with member | other
  · rcases List.mem_append.mp member with own | spread
    · exact own
    · cases forward with
      | props => nomatch List.mem_singleton.mp spread
      | fixed children => nomatch spread
  · exact absurd other (plain value)

theorem isStyled_of_host (forward : Forward) {others : List Attr} (plain : ∀ value, .named "style" value ∉ others) :
    IsStyled (hostAttrs host style ++ forward.spreads ++ others) := by
  intro value member
  obtain ⟨own, is, -⟩ := style_of_mem_hostAttrs host style (styles_of_host host style forward plain member)
  exact ⟨own, is⟩

end Host

theorem mark_plain (value : AttrValue) : .named "style" value ∉ [markAttr] := by
  simp [markAttr]

theorem markup_plain (html : String) (value : AttrValue) :
    .named "style" value ∉ [markAttr, .named "dangerouslySetInnerHTML" (.innerHtml html)] := by
  simp [markAttr]

theorem template_guarded (html : String) : (template html).toChild.Throughout Guarded := by
  refine Child.throughout_element.mpr ⟨⟨isMarked_of_markup [.named "shadowrootmode" (.text "open")] html, ?_⟩, nofun⟩
  intro value member
  simp [template, mark, Element.attr, Element.intrinsic] at member

theorem sheetElement_guarded (sheet : StyleSheet) : (sheetElement sheet).toChild.Throughout Guarded := by
  obtain ⟨href, id, content⟩ := sheet
  cases id with
  | none =>
      refine Child.throughout_element.mpr ⟨⟨isMarked_of_markup [] content, fun value member => ?_⟩, List.forall_mem_nil _⟩
      simp [sheetElement, mark, Element.attr, Element.intrinsic] at member
  | some id =>
      refine Child.throughout_element.mpr
        ⟨⟨isMarked_of_markup [.named "id" (.text id)] content, fun value member => ?_⟩, List.forall_mem_nil _⟩
      simp [sheetElement, mark, Element.attr, Element.intrinsic] at member

def contents : Style := [("display", .string "contents")]

theorem sheets_eq (styles : List StyleSheet) :
    sheets styles = ⟨.intrinsic "div", [.named "style" (.style contents), markAttr],
      styles.map fun sheet => (sheetElement sheet).toChild⟩ := by
  have step (e : Element) : styles.foldl (fun e sheet => e.nest (sheetElement sheet)) e =
      { e with children := e.children ++ styles.map fun sheet => (sheetElement sheet).toChild } := by
    induction styles generalizing e with
    | nil => simp
    | cons sheet styles ih =>
        rw [List.foldl_cons, ih]
        simp [Element.nest, Element.child]
  exact step _

theorem wrapper_guarded : Guarded [.named "style" (.style contents), markAttr] := by
  refine ⟨isMarked_of_last [.named "style" (.style contents)], fun value member => ?_⟩
  simp only [markAttr, List.mem_cons, Attr.named.injEq, true_and, List.not_mem_nil, or_false] at member
  rcases member with rfl | ⟨other, -⟩
  · exact ⟨contents, rfl⟩
  · exact absurd other (by decide)

theorem client_guarded (rendered : Rendered) : (clientElement rendered).toChild.Throughout Guarded := by
  have plain : IsStyled [.spread "props", markAttr] := fun value member => by simp [markAttr] at member
  refine Child.throughout_element.mpr ⟨⟨isMarked_of_last [.spread "props"], plain⟩, ?_⟩
  · exact List.forall_mem_singleton.mpr (Child.throughout_expression "children")

-- The host in the element of a rendered component: all of it around a shadow root, or the last in the wrapper.
def host? (markup : Markup) (element : Element) : Option Child :=
  match markup with
  | .shadow _ _ => some element.toChild
  | .scoped _ _ => element.children.getLast?

theorem forward_guarded (forward : Forward) : ∀ c ∈ forward.children, c.Throughout Guarded := by
  match forward with
  | .props => exact List.forall_mem_singleton.mpr (Child.throughout_expression "children")
  | .fixed none => exact nofun
  | .fixed (some text) => exact List.forall_mem_singleton.mpr (Child.throughout_text text)

theorem renderElement_guarded (rendered : Rendered) (style : Option Style) (forward : Forward) :
    (renderElement rendered style forward).toChild.Throughout Guarded := by
  obtain ⟨tag, serialization, markup, styles⟩ := rendered
  match markup with
  | .shadow host html =>
      rw [renderElement_shadow]
      refine Child.throughout_element.mpr ⟨⟨isMarked_of_last _, isStyled_of_host host style forward mark_plain⟩, ?_⟩
      exact List.forall_mem_cons.mpr ⟨template_guarded html, forward_guarded forward⟩
  | .scoped host html =>
      rw [renderElement_scoped, sheets_eq]
      refine Child.throughout_element.mpr ⟨wrapper_guarded, List.forall_mem_append.mpr ⟨fun c member => ?_, ?_⟩⟩
      · obtain ⟨sheet, -, rfl⟩ := List.mem_map.mp member
        exact sheetElement_guarded sheet
      · refine List.forall_mem_singleton.mpr (Child.throughout_element.mpr ⟨⟨?_, ?_⟩, nofun⟩)
        · exact isMarked_of_markup (hostAttrs host style ++ forward.spreads) html
        · exact isStyled_of_host host style forward (markup_plain html)

theorem host_styles (rendered : Rendered) (given : Style) (forward : Forward) :
    ∃ attrs children, host? rendered.markup (renderElement rendered (some given) forward) =
        some (.element (.intrinsic rendered.tag) attrs children) ∧
      .named "style" (.style given) ∈ attrs ∧ ∀ value, .named "style" value ∈ attrs → value = .style given := by
  have only (host : Markup.OpenTag) {others : List Attr} (plain : ∀ value, .named "style" value ∉ others) (value : AttrValue)
      (member : .named "style" value ∈ hostAttrs host (some given) ++ forward.spreads ++ others) :
      value = .style given := by
    obtain ⟨own, rfl, same⟩ := style_of_mem_hostAttrs host _ (styles_of_host host _ forward plain member)
    rw [same given rfl]
  have has (host : Markup.OpenTag) (others : List Attr) :
      .named "style" (.style given) ∈ hostAttrs host (some given) ++ forward.spreads ++ others :=
    List.mem_append_left _ (List.mem_append_left _ (style_mem_hostAttrs host _ rfl))
  obtain ⟨tag, serialization, markup, styles⟩ := rendered
  match markup with
  | .shadow host html =>
      rw [renderElement_shadow]
      exact ⟨_, _, rfl, has host _, only host mark_plain⟩
  | .scoped host html =>
      rw [renderElement_scoped]
      exact ⟨_, _, List.getLast?_concat, has host _, only host (markup_plain html)⟩

/-- Every element of a rendered component is marked, and so is the one that stands in for it in the browser: what
is rendered and whatever the props hold, the mark is what counts. A style is an object wherever it is given by
name, and if a call has one, then it is the only one of its host. -/
theorem renderElement_protected (rendered : Rendered) (style : Option Style) (forward : Forward) :
    let element := renderElement rendered style forward
    let protects (e : Element) : Prop := ∀ tag attrs children, .element tag attrs children ∈ e.toChild.descendants →
      IsMarked attrs ∧ (∀ held, Element.effective? held attrs "suppressHydrationWarning" = some (.flag true)) ∧
        IsStyled attrs
    protects element ∧
    (∀ call strategy library, ∀ f ∈ (build call rendered strategy library).factories, ∀ client server,
      f.body = .environment client server →
        protects client ∧ server = renderElement rendered call.props.style .props) ∧
    ∀ given, style = some given →
      ∃ attrs children, host? rendered.markup element = some (.element (.intrinsic rendered.tag) attrs children) ∧
        .named "style" (.style given) ∈ attrs ∧ ∀ value, .named "style" value ∈ attrs → value = .style given := by
  intro element protects
  have of_guarded {e : Element} (guarded : e.toChild.Throughout Guarded) : protects e := by
    intro tag attrs children member
    obtain ⟨marked, styled⟩ := guarded tag attrs children member
    exact ⟨marked, marked.effective, styled⟩
  refine ⟨of_guarded (renderElement_guarded rendered style forward), ?_, ?_⟩
  · intro call strategy library f member client server body
    rcases build_cases call rendered strategy library with ⟨-, shape⟩ | ⟨-, shape⟩
    · rw [shape] at member
      rcases List.mem_cons.mp member with rfl | last
      · obtain ⟨rfl, rfl⟩ := Body.environment.inj body
        exact ⟨of_guarded (client_guarded rendered), rfl⟩
      · obtain rfl := List.mem_singleton.mp last
        cases body
    · rw [shape] at member
      obtain rfl := List.mem_singleton.mp member
      cases body
  · rintro given rfl
    exact host_styles rendered given forward

def contested : Rendered :=
  ⟨"x-a", .declarative, .shadow ⟨"x-a", [("style", some "color: red"), ("suppressHydrationWarning", some "false"),
    ("class", some "a"), ("style", none)]⟩ "<p></p>", []⟩

def unwilling : String → String → Option AttrValue := fun _ name =>
  if name = "suppressHydrationWarning" then some (.flag false) else none

theorem renderElement_protected_contested :
    let top : Style := [("top", .string "0")]
    let hosted : List Attr := [.named "style" (.style top), .named "suppressHydrationWarning" (.text "false"),
      .named "className" (.text "a"), .named "style" (.style top), .spread "props", markAttr]
    let call : ComponentCall := ⟨"A$0", "A", "x-a", Props.empty⟩
    (∃ children, (renderElement contested (some top) .props).toChild = .element (.intrinsic "x-a") hosted children) ∧
    Element.effective? unwilling hosted "suppressHydrationWarning" = some (.flag true) ∧
    (∃ f ∈ (build call contested .nextjs "lib").factories, ∃ client server, f.body = .environment client server ∧
      Element.effective? unwilling client.attrs "suppressHydrationWarning" = some (.flag true)) ∧
    ∃ attrs children, host? contested.markup (renderElement contested (some top) .props) =
        some (.element (.intrinsic "x-a") attrs children) ∧ .named "style" (.style top) ∈ attrs := by
  intro top hosted call
  obtain ⟨own, later, styled⟩ := renderElement_protected contested (some top) .props
  obtain ⟨-, own, -⟩ := own (.intrinsic "x-a") hosted _ List.mem_cons_self
  obtain ⟨client, -⟩ := later call .nextjs "lib" _ List.mem_cons_self _ _ rfl
  obtain ⟨-, client, -⟩ := client _ _ _ List.mem_cons_self
  obtain ⟨attrs, children, host, given, -⟩ := styled top rfl
  exact ⟨⟨_, rfl⟩, own unwilling, ⟨_, List.mem_cons_self, _, _, rfl, client unwilling⟩, attrs, children, host, given⟩

end Declaration
end Prerender
