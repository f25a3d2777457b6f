import Prerender.Declaration

set_option autoImplicit false

namespace Prerender

namespace Value

mutual
def unnamed : Value → Value
  | .undefined => .undefined
  | .null => .null
  | .bool b => .bool b
  | .number x => .number x
  | .string s => .string s
  | .array items => .array (unnamedItems items)
  | .object entries => .object (unnamedEntries entries)
  | .map entries => .map (unnamedPairs entries)
  | .set items => .set (unnamedItems items)
  | .symbol description => .symbol description
  | .identifier _ => .identifier ""
def unnamedItems : List Value → List Value
  | [] => []
  | item :: items => unnamed item :: unnamedItems items
def unnamedEntries : List (String × Value) → List (String × Value)
  | [] => []
  | (key, value) :: entries => (key, unnamed value) :: unnamedEntries entries
def unnamedPairs : List (Value × Value) → List (Value × Value)
  | [] => []
  | (key, value) :: entries => (unnamed key, unnamed value) :: unnamedPairs entries
end

@[simp] theorem isIdentifier_unnamed (v : Value) : v.unnamed.isIdentifier = v.isIdentifier := by
  cases v <;> rfl

mutual
theorem literal_unnamed : ∀ v : Value, v.unnamed.literal = v.literal
  | .undefined | .null | .bool _ | .number _ | .string _ | .symbol _ | .identifier _ => rfl
  | .array items => by rw [unnamed, literal, literal, literalItems_unnamed items]
  | .object entries => by rw [unnamed, literal, literal, literalEntries_unnamed true entries]
  | .map entries => by rw [unnamed, literal, literal, literalPairs_unnamed entries]
  | .set items => by rw [unnamed, literal, literal, literalItems_unnamed items]
theorem literalItems_unnamed : ∀ items : List Value, literalItems (unnamedItems items) = literalItems items
  | [] => rfl
  | [item] => literal_unnamed item
  | item :: next :: items => by
      have rest := literalItems_unnamed (next :: items)
      rw [unnamedItems] at rest
      rw [unnamedItems, unnamedItems, literalItems, literalItems, literal_unnamed item, rest]
theorem literalEntries_unnamed (first : Bool) :
    ∀ entries : List (String × Value), literalEntries first (unnamedEntries entries) = literalEntries first entries
  | [] => rfl
  | (key, value) :: entries => by
      rw [unnamedEntries, literalEntries, literalEntries, isIdentifier_unnamed, literal_unnamed value,
        literalEntries_unnamed first entries, literalEntries_unnamed false entries]
theorem literalPairs_unnamed :
    ∀ entries : List (Value × Value), literalPairs (unnamedPairs entries) = literalPairs entries
  | [] => rfl
  | [(key, value)] => by
      rw [unnamedPairs, unnamedPairs, literalPairs, literalPairs, literal_unnamed key, literal_unnamed value]
  | (key, value) :: next :: entries => by
      have rest := literalPairs_unnamed (next :: entries)
      rw [unnamedPairs] at rest
      rw [unnamedPairs, unnamedPairs, literalPairs, literalPairs, literal_unnamed key, literal_unnamed value, rest]
end

end Value

namespace Style

open Value (unnamed unnamedEntries)

mutual
theorem addEntries_unnamed (style : Style) :
    ∀ entries : List (String × Value), addEntries style (unnamedEntries entries) = addEntries style entries
  | [] => rfl
  | (key, value) :: entries => by
      rw [unnamedEntries, addEntries, addEntries, node_unnamed value]
      cases node? value with
      | none => exact addEntries_unnamed style entries
      | some node => exact addEntries_unnamed (Keyed.put style key node) entries
theorem node_unnamed : ∀ v : Value, node? v.unnamed = node? v
  | .undefined | .null | .bool _ | .number _ | .string _ | .symbol _ | .identifier _ => rfl
  | .array _ | .map _ | .set _ => rfl
  | .object entries => by rw [unnamed, node?, node?, addEntries_unnamed [] entries]
end

theorem ofValue_unnamed (v : Value) : ofValue? v.unnamed = ofValue? v := by
  cases v with
  | object entries => rw [unnamed, ofValue?, ofValue?, addEntries_unnamed [] entries]
  | _ => rfl

end Style

namespace Props

def unnamedValues (values : List (String × Value)) : List (String × Value) :=
  values.map fun (key, value) => (key, value.unnamed)

def unnamed (props : Props) : Props := { props with values := unnamedValues props.values }

theorem add_unnamed (props : Props) (key : String) (value : Value) :
    (props.add key value).unnamed = props.unnamed.add key value.unnamed := by
  unfold add
  by_cases isStyle : key = "style"
  · rw [if_pos isStyle, if_pos isStyle, Style.ofValue_unnamed]
    rfl
  rw [if_neg isStyle, if_neg isStyle]
  by_cases isChildren : key = "children"
  · rw [if_pos isChildren, if_pos isChildren]
    cases value <;> rfl
  · rw [if_neg isChildren, if_neg isChildren]
    simp only [unnamed, unnamedValues, List.map_append, List.map_cons, List.map_nil]

theorem ofValues_unnamed (values : List (String × Value)) (children : Option String) :
    (ofValues values children).unnamed = ofValues (unnamedValues values) children := by
  have step (props : Props) : (values.foldl (fun props (key, value) => props.add key value) props).unnamed =
      (unnamedValues values).foldl (fun props (key, value) => props.add key value) props.unnamed := by
    induction values generalizing props with
    | nil => rfl
    | cons entry values ih =>
        rw [List.foldl_cons, ih, add_unnamed]
        rfl
  exact step ⟨[], none, children⟩

end Props

namespace Element

mutual
def Child.descendants : Child → List Child
  | .element tag attrs children => .element tag attrs children :: Child.descendantsOf children
  | .expression source => [.expression source]
  | .text s => [.text s]
def Child.descendantsOf : List Child → List Child
  | [] => []
  | child :: children => child.descendants ++ Child.descendantsOf children
end

def Attr.expression? : Attr → Option String
  | .named _ (.expression source) => some source
  | _ => none

def Attr.spread? : Attr → Option String
  | .spread source => some source
  | _ => none

def Child.ownExpressions : Child → List String
  | .element _ attrs _ => attrs.filterMap Attr.expression?
  | .expression source => [source]
  | .text _ => []

def Child.ownSpreads : Child → List String
  | .element _ attrs _ => attrs.filterMap Attr.spread?
  | _ => []

def Child.ownComponents : Child → List String
  | .element (.component name) _ _ => [name]
  | _ => []

def expressions (e : Element) : List String := e.toChild.descendants.flatMap Child.ownExpressions

def spreads (e : Element) : List String := e.toChild.descendants.flatMap Child.ownSpreads

def components (e : Element) : List String := e.toChild.descendants.flatMap Child.ownComponents

structure Refers (expressions spreads components : List String) (e : Element) : Prop where
  expressions : ∀ source ∈ e.expressions, source ∈ expressions
  spreads : ∀ source ∈ e.spreads, source ∈ spreads
  components : ∀ name ∈ e.components, name ∈ components

def AttrValue.isFixed : AttrValue → Bool
  | .expression _ => false
  | _ => true

theorem Child.descendantsOf_append (xs ys : List Child) :
    Child.descendantsOf (xs ++ ys) = Child.descendantsOf xs ++ Child.descendantsOf ys := by
  induction xs with
  | nil => rfl
  | cons x xs ih => rw [List.cons_append, Child.descendantsOf, Child.descendantsOf, ih, List.append_assoc]

theorem descendants_child (e : Element) (c : Child) :
    (e.child c).toChild.descendants =
      .element e.tag e.attrs (e.children ++ [c]) :: (Child.descendantsOf e.children ++ c.descendants) := by
  simp only [child, toChild, Child.descendants, Child.descendantsOf_append, Child.descendantsOf, List.append_nil]

section
variable {expressions spreads components : List String} {e : Element}

theorem Refers.intrinsic (name : String) : Refers expressions spreads components (intrinsic name) :=
  ⟨nofun, nofun, nofun⟩

theorem Refers.attrs {tag : Tag} {known : List Attr} {children : List Child}
    (refers : Refers expressions spreads components ⟨tag, known, children⟩) (a : Attr)
    (own : ∀ source, a.expression? = some source → source ∈ expressions)
    (spread : ∀ source, a.spread? = some source → source ∈ spreads) :
    Refers expressions spreads components ⟨tag, known ++ [a], children⟩ := by
  refine ⟨fun source member => ?_, fun source member => ?_, by cases tag <;> exact refers.components⟩
  · simp only [Element.expressions, toChild, Child.descendants, List.flatMap_cons, Child.ownExpressions,
      List.filterMap_append, List.filterMap_cons, List.filterMap_nil, List.mem_append] at member
    rcases member with (old | new) | below
    · exact refers.expressions source (List.mem_append_left _ old)
    · exact own source (by revert new; cases a.expression? <;> simp [eq_comm])
    · exact refers.expressions source (List.mem_append_right _ below)
  · simp only [Element.spreads, toChild, Child.descendants, List.flatMap_cons, Child.ownSpreads,
      List.filterMap_append, List.filterMap_cons, List.filterMap_nil, List.mem_append] at member
    rcases member with (old | new) | below
    · exact refers.spreads source (List.mem_append_left _ old)
    · exact spread source (by revert new; cases a.spread? <;> simp [eq_comm])
    · exact refers.spreads source (List.mem_append_right _ below)

theorem Refers.attr (refers : Refers expressions spreads components e) (name : String) {value : AttrValue}
    (fixed : value.isFixed = true) : Refers expressions spreads components (e.attr name value) := by
  refine refers.attrs (.named name value) (fun source own => ?_) nofun
  cases value with
  | expression => cases fixed
  | _ => cases own

theorem Refers.fixed {tag : Tag} {known : List Attr} {children : List Child}
    (refers : Refers expressions spreads components ⟨tag, known, children⟩) (attrs : List Attr)
    (fixed : ∀ a ∈ attrs, ∃ name value, a = .named name value ∧ value.isFixed = true) :
    Refers expressions spreads components ⟨tag, known ++ attrs, children⟩ := by
  induction attrs generalizing known with
  | nil => simpa using refers
  | cons a attrs ih =>
      obtain ⟨⟨name, value, rfl, known_text⟩, rest_fixed⟩ := List.forall_mem_cons.mp fixed
      rw [List.append_cons]
      exact ih (refers.attr name known_text) rest_fixed

theorem Refers.spread (refers : Refers expressions spreads components e) {source : String}
    (known : source ∈ spreads) : Refers expressions spreads components (e.spread source) := by
  refine refers.attrs (.spread source) nofun fun other same => ?_
  obtain rfl := Option.some.inj same
  exact known

theorem Refers.child (refers : Refers expressions spreads components e) {c : Child}
    (own : ∀ source ∈ c.descendants.flatMap Child.ownExpressions, source ∈ expressions)
    (spread : ∀ source ∈ c.descendants.flatMap Child.ownSpreads, source ∈ spreads)
    (instances : ∀ name ∈ c.descendants.flatMap Child.ownComponents, name ∈ components) :
    Refers expressions spreads components (e.child c) := by
  have old := refers
  obtain ⟨tag, attrs, children⟩ := e
  refine ⟨fun source member => ?_, fun source member => ?_, fun name member => ?_⟩
  · rw [Element.expressions, descendants_child, List.flatMap_cons, List.flatMap_append, List.mem_append,
      List.mem_append] at member
    rcases member with root | below | new
    · exact old.expressions source (List.mem_append_left _ root)
    · exact old.expressions source (List.mem_append_right _ below)
    · exact own source new
  · rw [Element.spreads, descendants_child, List.flatMap_cons, List.flatMap_append, List.mem_append,
      List.mem_append] at member
    rcases member with root | below | new
    · exact old.spreads source (List.mem_append_left _ root)
    · exact old.spreads source (List.mem_append_right _ below)
    · exact spread source new
  · rw [Element.components, descendants_child, List.flatMap_cons, List.flatMap_append, List.mem_append,
      List.mem_append] at member
    rcases member with root | below | new
    · cases tag with
      | intrinsic => cases root
      | component => exact old.components name (List.mem_append_left _ root)
    · exact old.components name (List.mem_append_right _ below)
    · exact instances name new

theorem Refers.nest (refers : Refers expressions spreads components e) {inner : Element}
    (nested : Refers expressions spreads components inner) :
    Refers expressions spreads components (e.nest inner) :=
  refers.child nested.expressions nested.spreads nested.components

theorem Refers.text (refers : Refers expressions spreads components e) (s : String) :
    Refers expressions spreads components (e.child (.text s)) := refers.child nofun nofun nofun

theorem Refers.expression (refers : Refers expressions spreads components e) {source : String}
    (known : source ∈ expressions) : Refers expressions spreads components (e.child (.expression source)) := by
  refine refers.child (fun other member => ?_) nofun nofun
  obtain rfl := List.mem_singleton.mp member
  exact known

end

end Element

namespace Declaration

open Element (Refers)

section
variable {expressions spreads components : List String} {e : Element}

theorem mark_refers (refers : Refers expressions spreads components e) :
    Refers expressions spreads components (mark e) := refers.attr _ rfl

theorem hostAttr_named (style : Option Style) (a : String × Option String) :
    ∃ name value, hostAttr style a = .named name value ∧ value.isFixed = true := by
  obtain ⟨name, value⟩ := a
  simp only [hostAttr]
  split
  · exact ⟨_, _, rfl, rfl⟩
  · split <;> exact ⟨_, _, rfl, rfl⟩

theorem hostElement_refers (tag : String) (host : Markup.OpenTag) (style : Option Style) :
    Refers ["children"] ["props"] [] (hostElement tag host style .props) := by
  have start : Refers ["children"] ["props"] []
      ⟨.intrinsic tag, host.attributes.map (hostAttr style), []⟩ := by
    refine Refers.fixed (.intrinsic tag) _ fun a member => ?_
    obtain ⟨written, -, rfl⟩ := List.mem_map.mp member
    exact hostAttr_named style written
  refine mark_refers (Refers.spread ?_ List.mem_cons_self)
  cases style with
  | none => exact start
  | some s =>
      dsimp only
      split
      · exact start
      · exact start.attr "style" rfl

theorem renderElement_refers (rendered : Rendered) (style : Option Style) :
    Refers ["children"] ["props"] [] (renderElement rendered style .props) := by
  have host_refers (host : Markup.OpenTag) := hostElement_refers rendered.tag host style
  unfold renderElement
  match rendered.markup with
  | .shadow host html =>
      refine Refers.expression (Refers.nest (host_refers host) ?_) List.mem_cons_self
      exact (mark_refers ((Refers.intrinsic "template").attr _ rfl)).attr _ rfl
  | .scoped host html =>
      have sheets (e : Element) (refers : Refers ["children"] ["props"] [] e) :
          Refers ["children"] ["props"] []
            (rendered.styles.foldl (fun e sheet => e.nest (sheetElement sheet)) e) := by
        induction rendered.styles generalizing e with
        | nil => exact refers
        | cons sheet rest ih =>
            refine ih _ (refers.nest (Refers.attr (mark_refers ?_) _ rfl))
            cases sheet.id with
            | none => exact .intrinsic "style"
            | some id => exact (Refers.intrinsic "style").attr _ rfl
      exact (sheets _ (mark_refers ((Refers.intrinsic "div").attr _ rfl))).nest ((host_refers host).attr _ rfl)

end

theorem foldl_attr (tag : Element.Tag) (values : List (String × Value)) (known : List Element.Attr) :
    values.foldl (fun e (name, value) => Element.attr e name (.value value)) ⟨tag, known, []⟩ =
      ⟨tag, known ++ values.map fun p => .named p.1 (.value p.2), []⟩ := by
  induction values generalizing known with
  | nil => simp
  | cons entry values ih =>
      rw [List.foldl_cons, List.map_cons, List.append_cons]
      exact ih _

theorem withProps_eq (tag : Element.Tag) (props : Props) :
    withProps ⟨tag, [], []⟩ props =
      ⟨tag, ((props.values.filter fun p => !p.2.isIdentifier).map fun p => .named p.1 (.value p.2)) ++
        (props.style.map fun style => .named "style" (.style style)).toList,
        (props.children.map .text).toList⟩ := by
  unfold withProps
  rw [foldl_attr, List.nil_append]
  cases props.style <;> cases props.children <;> simp [Element.attr, Element.child]

theorem withProps_refers (name : String) (props : Props) :
    Refers [] [] [name] (withProps ⟨.component name, [], []⟩ props) := by
  have bare : Refers [] [] [name] ⟨.component name, [], []⟩ := ⟨nofun, nofun, fun other member => member⟩
  have attributed := (bare.fixed ((props.values.filter fun p => !p.2.isIdentifier).map fun p =>
    .named p.1 (.value p.2)) fun a member => by
      obtain ⟨value, -, rfl⟩ := List.mem_map.mp member
      exact ⟨_, _, rfl, rfl⟩).fixed (props.style.map fun style => .named "style" (.style style)).toList
        fun a member => by
      obtain ⟨style, -, rfl⟩ := Option.map_eq_some_iff.mp (Option.mem_toList.mp member)
      exact ⟨_, _, rfl, rfl⟩
  rw [withProps_eq]
  cases props.children with
  | none => exact attributed
  | some text => exact attributed.text text

theorem jsx_congr {tag : Element.Tag} {attrs others : List Element.Attr} {children : List Element.Child}
    (same : attrs.map Element.Attr.jsx = others.map Element.Attr.jsx) :
    Element.jsx ⟨tag, attrs, children⟩ = Element.jsx ⟨tag, others, children⟩ := by
  have spaced (attrs : List Element.Attr) :
      (attrs.map fun a => " " ++ a.jsx) = (attrs.map Element.Attr.jsx).map (" " ++ ·) := by
    rw [List.map_map]
    rfl
  simp only [Element.jsx, Element.toChild, Element.Child.jsx, spaced, same]

theorem creation_congr {tag : Element.Tag} {attrs others : List Element.Attr} {children : List Element.Child}
    (h : String) (same : attrs.map Element.Attr.argument = others.map Element.Attr.argument) :
    Element.creation h ⟨tag, attrs, children⟩ = Element.creation h ⟨tag, others, children⟩ := by
  have empty (attrs : List Element.Attr) : attrs.isEmpty = (attrs.map Element.Attr.argument).isEmpty :=
    List.isEmpty_map.symm
  simp only [Element.creation, Element.toChild, Element.Child.creation, Element.attrsArgument, empty attrs,
    empty others, same]

theorem written_unnamed (values : List (String × Value)) {α : Type} (write : Element.Attr → α)
    (same : ∀ name v, write (.named name (.value v.unnamed)) = write (.named name (.value v))) :
    ((((Props.unnamedValues values).filter fun p => !p.2.isIdentifier).map fun p =>
        Element.Attr.named p.1 (.value p.2)).map write) =
      ((values.filter fun p => !p.2.isIdentifier).map fun p => Element.Attr.named p.1 (.value p.2)).map write := by
  induction values with
  | nil => rfl
  | cons entry values ih =>
      rw [Props.unnamedValues, List.map_cons, List.filter_cons, List.filter_cons, Value.isIdentifier_unnamed]
      split
      · rw [List.map_cons, List.map_cons, List.map_cons, List.map_cons, same entry.1 entry.2]
        exact congrArg _ ih
      · exact ih

theorem withProps_unnamed (tag : Element.Tag) (props : Props) :
    (withProps ⟨tag, [], []⟩ props.unnamed).jsx = (withProps ⟨tag, [], []⟩ props).jsx ∧
      ∀ h, (withProps ⟨tag, [], []⟩ props.unnamed).creation h = (withProps ⟨tag, [], []⟩ props).creation h := by
  rw [withProps_eq, withProps_eq]
  refine ⟨jsx_congr ?_, fun h => creation_congr h ?_⟩
  · rw [List.map_append, List.map_append]
    refine congrArg (· ++ _) (written_unnamed props.values _ fun name v => ?_)
    simp only [Element.Attr.jsx, Element.AttrValue.jsx, Value.literal_unnamed]
  · rw [List.map_append, List.map_append]
    refine congrArg (· ++ _) (written_unnamed props.values _ fun name v => ?_)
    simp only [Element.Attr.argument, Element.AttrValue.argument, Value.literal_unnamed]

theorem build_unnamed (identifier component tag : String) (props : Props) (rendered : Rendered) (strategy : Strategy)
    (library : String) :
    let declaration (props : Props) := build ⟨identifier, component, tag, props⟩ rendered strategy library
    (declaration props.unnamed).jsx = (declaration props).jsx ∧
      ∀ h dynamic, (declaration props.unnamed).code h dynamic = (declaration props).code h dynamic := by
  obtain ⟨jsx, creation⟩ := withProps_unnamed (.component (identifier ++ "Fallback")) props
  intro declaration
  simp only [declaration, build]
  split
  · simp only [Declaration.jsx, Declaration.code, List.map_cons, List.map_nil, Factory.jsx, Factory.code, jsx, creation]
    exact ⟨rfl, fun _ _ => rfl⟩
  · exact ⟨rfl, fun _ _ => rfl⟩

def clientElement (rendered : Rendered) : Element :=
  (mark ((Element.intrinsic rendered.tag).spread "props")).child (.expression "children")

-- The two shapes of a declaration: a component that is loaded later, with what stands in for it, or just the
-- rendered component.
theorem build_cases (call : ComponentCall) (rendered : Rendered) (strategy : Strategy) (library : String) :
    let element := renderElement rendered call.props.style .props
    let fallback := call.identifier ++ "Fallback"
    (strategy = .nextjs ∧ ∃ host html, rendered.markup = .shadow host html) ∧
        (build call rendered strategy library).factories =
          [⟨fallback, .environment (clientElement rendered) element⟩,
            ⟨call.identifier, .dynamic library call.component
              (withProps ⟨.component fallback, [], []⟩ call.props)⟩] ∨
      ¬ (strategy = .nextjs ∧ ∃ host html, rendered.markup = .shadow host html) ∧
        (build call rendered strategy library).factories = [⟨call.identifier, .render element⟩] := by
  intro element fallback
  match markup : rendered.markup, strategy with
  | .shadow host html, .nextjs =>
      refine .inl ⟨⟨rfl, host, html, rfl⟩, ?_⟩
      simp only [build, markup]
      rfl
  | .shadow host html, .react =>
      refine .inr ⟨nofun, ?_⟩
      simp only [build, markup]
      rfl
  | .scoped host html, strategy =>
      refine .inr ⟨fun ⟨_, _, _, other⟩ => (nomatch other), ?_⟩
      simp only [build, markup]
      rfl

theorem clientElement_refers (rendered : Rendered) : (clientElement rendered).Refers ["children"] ["props"] [] :=
  Refers.expression (mark_refers ((Refers.intrinsic rendered.tag).spread List.mem_cons_self)) List.mem_cons_self

def Body.elements : Body → List Element
  | .render element => [element]
  | .environment client server => [client, server]
  | .dynamic _ _ loading => [loading]

def Body.IsClosed : Body → Prop
  | .render element =>
      (∀ source ∈ element.expressions, source = "children") ∧ ∀ source ∈ element.spreads, source = "props"
  | .environment client server =>
      ∀ element ∈ [client, server],
        (∀ source ∈ element.expressions, source = "children") ∧ ∀ source ∈ element.spreads, source = "props"
  | .dynamic _ _ loading => loading.expressions = [] ∧ loading.spreads = []

theorem forwards_of_refers {components : List String} {e : Element}
    (refers : e.Refers ["children"] ["props"] components) :
    (∀ source ∈ e.expressions, source = "children") ∧ ∀ source ∈ e.spreads, source = "props" :=
  ⟨fun source member => List.mem_singleton.mp (refers.expressions source member),
    fun source member => List.mem_singleton.mp (refers.spreads source member)⟩

/-- The names of variables in the props of a call never reach its declaration, and the declaration refers by name
only to what its factories are called with and to those of its own factories that stand before. -/
theorem build_closed (identifier component tag : String) (values : List (String × Value)) (children : Option String)
    (rendered : Rendered) (strategy : Strategy) (library : String) :
    let declaration (values : List (String × Value)) :=
      build ⟨identifier, component, tag, Props.ofValues values children⟩ rendered strategy library
    let factories : List Factory := (declaration values).factories
    (∀ others, Props.unnamedValues others = Props.unnamedValues values →
      (declaration others).jsx = (declaration values).jsx ∧
        ∀ h dynamic, (declaration others).code h dynamic = (declaration values).code h dynamic) ∧
    (∀ f ∈ factories, f.body.IsClosed) ∧
    (∀ (i : Nat) (f : Factory), factories[i]? = some f → ∀ e ∈ f.body.elements, ∀ name ∈ e.components,
      ∃ j < i, ∃ g : Factory, factories[j]? = some g ∧ g.name = name) ∧
    (factories.getLast?.map Factory.name = some identifier ∧ (declaration values).identifier = identifier) ∧
    ((declaration values).usesDynamic = true ↔
      strategy = .nextjs ∧ ∃ host html, rendered.markup = .shadow host html) := by
  intro declaration factories
  refine ⟨fun others same => ?_, ?_⟩
  · have erased (values : List (String × Value)) :=
      build_unnamed identifier component tag (Props.ofValues values children) rendered strategy library
    simp only [Props.ofValues_unnamed] at erased
    obtain ⟨jsx, code⟩ := erased others
    obtain ⟨jsx', code'⟩ := erased values
    rw [same] at jsx code
    exact ⟨jsx.symm.trans jsx', fun h dynamic => (code h dynamic).symm.trans (code' h dynamic)⟩
  have server := renderElement_refers rendered (Props.ofValues values children).style
  have client := clientElement_refers rendered
  have loading := withProps_refers (identifier ++ "Fallback") (Props.ofValues values children)
  rcases build_cases ⟨identifier, component, tag, Props.ofValues values children⟩ rendered strategy library with
    ⟨lazy, shape⟩ | ⟨eager, shape⟩
  · replace shape : factories = _ := shape
    refine ⟨fun f member => ?_, fun i f here e member name instance_of => ?_, ⟨by rw [shape]; rfl, rfl⟩, ?_⟩
    · rw [shape] at member
      rcases List.mem_cons.mp member with rfl | last
      · exact List.forall_mem_cons.mpr ⟨forwards_of_refers client,
          List.forall_mem_singleton.mpr (forwards_of_refers server)⟩
      · obtain rfl := List.mem_singleton.mp last
        exact ⟨List.eq_nil_iff_forall_not_mem.mpr fun source member => (nomatch loading.expressions source member),
          List.eq_nil_iff_forall_not_mem.mpr fun source member => (nomatch loading.spreads source member)⟩
    · rw [shape] at here
      match i, here with
      | 0, here =>
          obtain rfl := Option.some.inj here
          rcases List.mem_cons.mp member with rfl | member
          · nomatch client.components name instance_of
          · obtain rfl := List.mem_singleton.mp member
            nomatch server.components name instance_of
      | 1, here =>
          obtain rfl := Option.some.inj here
          obtain rfl := List.mem_singleton.mp member
          obtain rfl := List.mem_singleton.mp (loading.components name instance_of)
          exact ⟨0, Nat.one_pos, _, by rw [shape]; rfl, rfl⟩
    · refine ⟨fun _ => lazy, fun _ => ?_⟩
      show factories.any _ = true
      rw [shape]
      rfl
  · replace shape : factories = _ := shape
    refine ⟨fun f member => ?_, fun i f here e member name instance_of => ?_, ⟨by rw [shape]; rfl, rfl⟩, ?_⟩
    · rw [shape] at member
      obtain rfl := List.mem_singleton.mp member
      exact forwards_of_refers server
    · rw [shape] at here
      match i, here with
      | 0, here =>
          obtain rfl := Option.some.inj here
          obtain rfl := List.mem_singleton.mp member
          nomatch server.components name instance_of
    · refine ⟨fun loads => absurd loads ?_, fun lazy => absurd lazy eager⟩
      show factories.any _ ≠ true
      rw [shape]
      nofun

def handedOver (variable_name : String) : List (String × Value) :=
  [("onClick", .identifier variable_name),
    ("items", .array [.identifier variable_name, .set [.identifier variable_name],
      .map [(.identifier variable_name, .object [("a", .identifier variable_name), ("b", .null)])]]),
    ("style", .object [("color", .identifier variable_name), ("top", .string "0")])]

def lateDeclaration (variable_name : String) : Declaration :=
  build ⟨"A$0", "A", "a-b", Props.ofValues (handedOver variable_name) none⟩
    ⟨"a-b", .declarative, .shadow ⟨"a-b", [("class", some "hydrated")]⟩ "<p></p>", []⟩ .nextjs "lib"

theorem build_closed_handedOver :
    Props.unnamedValues (handedOver "secret") = Props.unnamedValues (handedOver "x") ∧
      (lateDeclaration "secret").jsx = (lateDeclaration "x").jsx ∧
      (lateDeclaration "secret").code "h" "load" = (lateDeclaration "x").code "h" "load" ∧
      (∃ j < 1, ∃ g : Factory, (lateDeclaration "x").factories[j]? = some g ∧ g.name = "A$0Fallback") ∧
      (lateDeclaration "x").usesDynamic = true := by
  obtain ⟨hides, -, defined, -, lazy⟩ := build_closed "A$0" "A" "a-b" (handedOver "x") none
    ⟨"a-b", .declarative, .shadow ⟨"a-b", [("class", some "hydrated")]⟩ "<p></p>", []⟩ .nextjs "lib"
  have same : Props.unnamedValues (handedOver "secret") = Props.unnamedValues (handedOver "x") := rfl
  obtain ⟨jsx, code⟩ := hides (handedOver "secret") same
  exact ⟨same, jsx, code "h" "load", defined 1 _ rfl _ List.mem_cons_self _ List.mem_cons_self,
    lazy.mpr ⟨rfl, _, _, rfl⟩⟩

end Declaration
end Prerender
