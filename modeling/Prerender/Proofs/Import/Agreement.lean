import Mathlib.Data.List.Flatten
import Prerender.Proofs.Import.Lines
import Prerender.Proofs.Import.Reading
import Prerender.Proofs.Rewriting.ByTree
import Prerender.Proofs.Script.Parse

set_option autoImplicit false

namespace Prerender.Import

open Script (Node)

def isBare (source : List Char) (n : Node) : Bool :=
  (Script.Token.first false 0 (source.drop (n.span.start + 6))).isString

def declared? (source : List Char) (n : Node) : Option Statement :=
  match n.kind with
  | .importDeclaration specifier =>
      if isBare source n then none else some ⟨specifier, n.parts.filterMap (entryName? source)⟩
  | _ => none

def Scan.of (library : String) (all : List Statement) : Scan :=
  { library := all.filter fun s => s.specifier = library
    factories := (all.filter fun s => s.specifier ≠ library ∧ s.specifier ∈ runtimes).flatMap fun s =>
      (s.names.filter fun n => n.exported ∈ factoryNames).map (·.bound) }

def view (source : List Char) (library : String) (ns : List Node) : Scan := .of library (ns.filterMap (declared? source))

def isTab (c : Char) : Bool := c == ' ' || c == '\t'

def lineOf (source : List Char) (i : Nat) : Nat := i - ((source.take i).reverse.takeWhile isTab).length

-- Whether an import stands at the head of a line, white space behind its keyword, and no default name like the mark of a
-- type.
def isNoticed (source : List Char) (n : Node) : Bool :=
  isHead source (lineOf source n.span.start) &&
    ((afterWord? "import" (source.drop n.span.start)).any fun behind => (afterWord? "type" behind).isNone)

def Laid (source : List Char) (n : Node) : Prop :=
  n.isImport = true ∧ ∃ layout : Layout, layout.text <+: source.drop n.span.start

-- The imports of interest are laid out plainly, and a line looks like an import only where one begins.
structure Plain (source : List Char) (library : String) (tree : Node) : Prop where
  tidy : ∀ n ∈ tree.descendants, ∀ s ∈ declared? source n, s.specifier = library ∨ s.specifier ∈ runtimes → Laid source n
  alone : ∀ i, isHead source i = true → (statement? (source.drop i)).isSome = true →
    ∃ n ∈ tree.descendants, Laid source n ∧ lineOf source n.span.start = i

theorem kind_of_isImport {n : Node} (is : n.isImport = true) : ∃ library, n.kind = .importDeclaration library := by
  unfold Node.isImport at is
  split at is
  next library kind => exact ⟨library, kind⟩
  next => cases is

theorem imports_in_order {source : String} {tree : Node} (written : tree.Written source) :
    tree.descendants.Pairwise fun a b =>
      a.isImport = true → b.isImport = true → a.span.stop ≤ b.span.start := by
  have wrapped : (tree.descendants.map some).Pairwise fun x y => ∀ a ∈ x, ∀ b ∈ y,
      a.isImport = true → b.isImport = true → a.span.stop ≤ b.span.start := by
    rw [← Node.map_at_places, List.pairwise_map]
    refine (Node.places_ascending tree).imp fun {p q} before a here b there a_is b_is => ?_
    obtain ⟨library, a_kind⟩ := kind_of_isImport a_is
    obtain ⟨other, b_kind⟩ := kind_of_isImport b_is
    have target {n : Node} {library : String} (kind : n.kind = .importDeclaration library) : Target n ⟨n.span, ""⟩ :=
      .deletion kind rfl
    obtain ⟨a_solid, a_shared, -, -⟩ := (target a_kind).kind
    obtain ⟨b_solid, -, b_clause, -⟩ := (target b_kind).kind
    rcases written.order.above_or_apart before here there a_solid b_solid (Node.unshared_of_not_plain a_shared) with
      ⟨r, some_step, rfl, -⟩ | apart
    · have part := written.clausePart_of_inImport there ⟨p, r, a, library, rfl, some_step, here, a_kind⟩
      rw [b_clause] at part
      cases part
    · exact apart
  rw [List.pairwise_map] at wrapped
  exact wrapped.imp fun apart => apart _ rfl _ rfl

section
variable {source : List Char}

theorem drop_lineOf {i : Nat} (fits : i ≤ source.length) : ∃ indent : List Char, (∀ c ∈ indent, isTab c = true) ∧
    lineOf source i + indent.length = i ∧ source.drop (lineOf source i) = indent ++ source.drop i := by
  let indent := ((source.take i).reverse.takeWhile isTab).reverse
  let before := ((source.take i).reverse.dropWhile isTab).reverse
  have cut : source.take i = before ++ indent := by
    rw [← List.reverse_append, List.takeWhile_append_dropWhile, List.reverse_reverse]
  have lengths : before.length + indent.length = i := by
    rw [← List.length_append, ← cut, List.length_take, Nat.min_eq_left fits]
  have line : lineOf source i = before.length := by
    have same : lineOf source i = i - indent.length := by rw [lineOf, List.length_reverse]
    omega
  refine ⟨indent, fun c here => List.mem_takeWhile_imp (List.mem_reverse.mp here), by omega, ?_⟩
  rw [line]
  conv_lhs => rw [← List.take_append_drop i source, cut, List.append_assoc]
  exact List.drop_left

theorem succ_le_lineOf {i j : Nat} {c : Char} (fits : i ≤ source.length) (here : source[j]? = some c)
    (solid : isTab c = false) (before : j < i) : j + 1 ≤ lineOf source i := by
  obtain ⟨indent, blank, length, behind⟩ := drop_lineOf fits
  by_contra within
  obtain ⟨k, rfl⟩ : ∃ k, j = lineOf source i + k := ⟨j - lineOf source i, by omega⟩
  have inside : k < indent.length := by omega
  rw [← List.getElem?_drop, behind, List.getElem?_append_left inside] at here
  have tab := blank c (List.mem_of_getElem? here)
  rw [solid] at tab
  cases tab

theorem isTab_of_quote {c : Char} (quoted : isQuote c = true) : isTab c = false := by
  have mark := mem_quotes quoted
  have others : ∀ c ∈ ['"', '\''], isTab c = false := by decide
  exact others c mark

theorem statement?_indent {indent cs : List Char} (blank : ∀ c ∈ indent, isTab c = true) :
    statement? (indent ++ cs) = statement? cs := by
  have passed : (indent ++ cs).dropWhile (fun c => c == ' ' || c == '\t') = cs.dropWhile fun c => c == ' ' || c == '\t' :=
    List.dropWhile_append_of_pos blank
  rw [statement?, passed]
  rfl

end

section
variable {library : String}

theorem Scan.of_filterMap (declares : Node → Option Statement) (ns : List Node) :
    of library (ns.filterMap declares) = ⟨ns.flatMap fun n => (of library (declares n).toList).library,
      ns.flatMap fun n => (of library (declares n).toList).factories⟩ := by
  have append (xs ys : List Statement) : of library (xs ++ ys) =
      ⟨(of library xs).library ++ (of library ys).library, (of library xs).factories ++ (of library ys).factories⟩ := by
    simp [of]
  induction ns with
  | nil => rfl
  | cons n ns ih =>
      have first : (n :: ns).filterMap declares = (declares n).toList ++ ns.filterMap declares := by
        rw [List.filterMap_cons]
        cases declares n <;> rfl
      rw [first, append, ih, List.flatMap_cons, List.flatMap_cons]

theorem view_single (source : List Char) (n : Node) :
    view source library [n] = .of library (declared? source n).toList := by
  rw [view, List.filterMap_cons]
  cases declared? source n <;> rfl

theorem view_eq (source : List Char) (ns : List Node) : view source library ns =
    ⟨ns.flatMap fun n => (view source library [n]).library, ns.flatMap fun n => (view source library [n]).factories⟩ := by
  simp only [view_single]
  exact Scan.of_filterMap (declared? source) ns

theorem flatMap_filter {α β : Type} (f : α → List β) (p : α → Bool) (xs : List α) :
    (xs.filter p).flatMap f = xs.flatMap fun x => if p x then f x else [] := by
  induction xs with
  | nil => rfl
  | cons x xs ih => cases kept : p x <;> simp [kept, ih]

theorem flatMap_filter_eq_iff {α β : Type} (f : α → List β) (p : α → Bool) (xs : List α) :
    (xs.filter p).flatMap f = xs.flatMap f ↔ ∀ x ∈ xs, f x ≠ [] → p x = true := by
  induction xs with
  | nil => simp
  | cons x xs ih =>
      rw [List.forall_mem_cons, ← ih, List.flatMap_cons]
      by_cases kept : p x = true
      · rw [List.filter_cons_of_pos kept, List.flatMap_cons, List.append_cancel_left_eq]
        simp [kept]
      · rw [List.filter_cons_of_neg kept]
        constructor
        · intro same
          -- What is left out takes as much away.
          have shorter : ((xs.filter p).flatMap f).length ≤ (xs.flatMap f).length :=
            ((List.filter_sublist (p := p)).flatMap f).length_le
          have lengths := congrArg List.length same
          rw [List.length_append] at lengths
          have none_of : f x = [] := List.length_eq_zero_iff.mp (by omega)
          rw [none_of, List.nil_append] at same
          exact ⟨fun some_of => absurd none_of some_of, same⟩
        · rintro ⟨only, same⟩
          have none_of : f x = [] := by
            by_contra some_of
            exact kept (only some_of)
          rw [none_of, same]
          rfl

end

section
variable {dialect : Script.Dialect} {source : String} {tree n : Node}
  (untyped : dialect.typed = false) (isModule : dialect.isModule = true)
  (read : Script.parse? dialect source = some tree) (member : n ∈ tree.descendants) (is : n.isImport = true)
include untyped read member is

theorem declared?_layout {layout : Layout} (laid : layout.text <+: source.toList.drop n.span.start) :
    declared? source.toList n = some layout.statement ∧ n.span.start + layout.text.length ≤ n.span.stop := by
  obtain ⟨rest, text⟩ := laid
  obtain ⟨s, s', stands, start, run⟩ := Script.importDeclaration_of_parse? read member is
  rw [← start] at text
  obtain ⟨stop, parts, rfl, names, passed⟩ := leads_layout untyped layout stands text.symm s n s' rfl run
  refine ⟨?_, passed⟩
  have clausal := @clausal_layout ⟨⟨source.toList, dialect⟩, false⟩ untyped layout rest
  have clause : isBare source.toList
      (.mk (.importDeclaration (String.ofList layout.specifier)) ⟨s.token.start, stop⟩ parts) = false := by
    obtain ⟨word, l, more, spells, unquoted⟩ := clausal.fronts.unquoted
    obtain ⟨start, newline, first⟩ := spells.first false 0
    rw [isBare, Node.span, ← List.drop_drop, ← text, first]
    exact unquoted _ rfl
  simp only [declared?, Node.kind, clause, Node.parts, names]
  rfl

include isModule

theorem names_of_bare (bare : isBare source.toList n = true) : n.parts.filterMap (entryName? source.toList) = [] := by
  obtain ⟨s, s', stands, start, run⟩ := Script.importDeclaration_of_parse? read member is
  rw [isBare, ← start] at bare
  exact leads_bare untyped isModule stands bare s n s' rfl run source.toList

end

section
variable {source : List Char} {i : Nat} {layout : Layout} {rest : List Char}

theorem Layout.last_quote (here : source.drop i = layout.text ++ rest) :
    ∃ last, last + 1 = i + layout.text.length ∧ source[last]? = .some layout.quote := by
  have closed : [layout.quote] <:+ layout.source := ((List.suffix_append _ _).trans (List.suffix_cons _ _)).trans
    ((List.suffix_append _ _).trans (List.suffix_append _ _))
  have suffix : [layout.quote] <:+ layout.text := closed.trans (((List.suffix_append _ _).trans
    (List.suffix_append _ _)).trans ((List.suffix_append _ _).trans (List.suffix_append _ _)))
  obtain ⟨front, ends⟩ := suffix
  refine ⟨i + front.length, by rw [← ends, List.length_append, List.length_singleton, Nat.add_assoc], ?_⟩
  rw [← List.getElem?_drop, here, ← ends, List.append_assoc, List.getElem?_append_right (Nat.le_refl _), Nat.sub_self]
  rfl

theorem fits_of_laid (here : source.drop i = layout.text ++ rest) : i ≤ source.length := by
  by_contra beyond
  rw [List.drop_eq_nil_iff.mpr (by omega)] at here
  cases here

theorem statement?_line (fits : i ≤ source.length) :
    statement? (source.drop (lineOf source i)) = statement? (source.drop i) := by
  obtain ⟨indent, blank, -, behind⟩ := drop_lineOf fits
  rw [behind, statement?_indent blank]

theorem foundAt_line (here : source.drop i = layout.text ++ rest) : foundAt source (lineOf source i) =
    if (afterWord? "import" (source.drop i)).any (fun behind => (afterWord? "type" behind).isNone)
      then some layout.statement else none := by
  rw [foundAt, statement?_line (fits_of_laid here), here, statement?_layout]
  cases afterWord? "import" (layout.text ++ rest) with
  | none => rfl
  | some behind =>
      rw [Option.map_some, Option.bind_some, Option.any_some]
      cases afterWord? "type" behind <;> rfl

theorem endOf_line (here : source.drop i = layout.text ++ rest) (looks : (statement? (source.drop i)).isSome = true) :
    endOf source (lineOf source i) = i + layout.text.length := by
  have length := congrArg List.length here
  rw [List.length_drop, List.length_append] at length
  rw [endOf, statement?_line (fits_of_laid here)]
  rw [here, statement?_layout, Option.isSome_map] at looks
  obtain ⟨behind, after⟩ := Option.isSome_iff_exists.mp looks
  rw [here, statement?_layout, after, Option.map_some, Option.elim_some]
  have fits := fits_of_laid here
  dsimp only
  omega

end

def Looks (source : List Char) (n : Node) : Prop :=
  Laid source n ∧ isHead source (lineOf source n.span.start) = true ∧ (statement? (source.drop n.span.start)).isSome = true

open Classical in
noncomputable def foundOf (source : List Char) (n : Node) : Option Statement :=
  if Looks source n then foundAt source (lineOf source n.span.start) else none

section
variable {dialect : Script.Dialect} {source library : String} {tree : Node} (untyped : dialect.typed = false)
  (read : Script.parse? dialect source = some tree)
include untyped read

theorem foundOf_laid {n : Node} (member : n ∈ tree.descendants) (laid : Laid source.toList n) :
    foundOf source.toList n = if isNoticed source.toList n then declared? source.toList n else none := by
  obtain ⟨is, layout, rest, text⟩ := id laid
  have declares := (declared?_layout untyped read member is ⟨rest, text⟩).1
  have found := foundAt_line text.symm
  have noticed : isNoticed source.toList n = true ↔ isHead source.toList (lineOf source.toList n.span.start) = true ∧
      (afterWord? "import" (source.toList.drop n.span.start)).any (fun behind => (afterWord? "type" behind).isNone) = true :=
    Bool.and_eq_true_iff
  rw [foundOf]
  by_cases both : isNoticed source.toList n = true
  · obtain ⟨head, after⟩ := noticed.mp both
    have some_found : (statement? (source.toList.drop n.span.start)).isSome = true := by
      obtain ⟨behind, after, -⟩ := (Option.any_eq_true _ _).mp after
      rw [← text, statement?_layout, text, after]
      rfl
    rw [if_pos both, if_pos ⟨laid, head, some_found⟩, found, if_pos after, declares]
  · rw [if_neg both]
    split
    next looks => rw [found, if_neg fun after => both (noticed.mpr ⟨looks.2.1, after⟩)]
    next => rfl

-- What is found for one import ends before the line of the next begins.
theorem lines_in_order : tree.descendants.Pairwise fun a b => Looks source.toList a → Looks source.toList b →
    endOf source.toList (lineOf source.toList a.span.start) ≤ lineOf source.toList b.span.start := by
  refine List.Pairwise.imp_of_mem (fun {a b} a_in _ apart a_looks b_looks => ?_)
    (imports_in_order (Script.parse?_written read))
  obtain ⟨⟨a_is, layout, a_rest, a_text⟩, -, found⟩ := a_looks
  obtain ⟨⟨b_is, other, b_rest, b_text⟩, -⟩ := b_looks
  have passed := (declared?_layout untyped read a_in a_is ⟨a_rest, a_text⟩).2
  obtain ⟨last, ends, quote⟩ := layout.last_quote a_text.symm
  have before := apart a_is b_is
  rw [endOf_line a_text.symm found, ← ends]
  exact succ_le_lineOf (fits_of_laid b_text.symm) quote (isTab_of_quote layout.quoted) (by omega)

open Classical in
theorem statements_by_tree (plain : Plain source.toList library tree) :
    statements source = tree.descendants.filterMap (foundOf source.toList) := by
  let line (n : Node) : Nat := lineOf source.toList n.span.start
  have sorted : ((tree.descendants.filter (Looks source.toList ·)).map line).Pairwise fun j k =>
      endOf source.toList j ≤ k := by
    rw [List.pairwise_map, List.pairwise_filter]
    exact (lines_in_order untyped read).imp fun apart a_looks b_looks =>
      apart (of_decide_eq_true a_looks) (of_decide_eq_true b_looks)
  have each (j : Nat) : j ∈ (tree.descendants.filter (Looks source.toList ·)).map line ↔
      isHead source.toList j = true ∧ (statement? (source.toList.drop j)).isSome = true := by
    rw [List.mem_map]
    constructor
    · rintro ⟨n, here, rfl⟩
      obtain ⟨-, ⟨-, layout, rest, text⟩, head, found⟩ := by simpa using here
      exact ⟨head, by rw [statement?_line (fits_of_laid text.symm)]; exact found⟩
    · rintro ⟨head, found⟩
      obtain ⟨n, member, laid, rfl⟩ := plain.alone j head found
      obtain ⟨-, layout, rest, text⟩ := id laid
      rw [statement?_line (fits_of_laid text.symm)] at found
      exact ⟨n, by simpa using ⟨member, laid, head, found⟩, rfl⟩
  rw [statements_eq _ sorted each, List.filterMap_map, List.filterMap_filter]
  refine List.filterMap_congr fun n _ => ?_
  simp [foundOf, line]

end

section
variable {dialect : Script.Dialect} {source library : String} {tree : Node} (untyped : dialect.typed = false)
  (read : Script.parse? dialect source = some tree) (plain : Plain source.toList library tree)
include untyped read plain

theorem Scan.of_foundOf {n : Node} (member : n ∈ tree.descendants) : of library (foundOf source.toList n).toList =
    of library (if isNoticed source.toList n then declared? source.toList n else none).toList := by
  by_cases laid : Laid source.toList n
  · rw [foundOf_laid untyped read member laid]
  · rw [foundOf, if_neg fun looks => laid looks.1]
    split
    next =>
      cases declares : declared? source.toList n with
      | none => rfl
      | some s =>
          have other (of_interest : s.specifier = library ∨ s.specifier ∈ runtimes) : False :=
            laid (plain.tidy n member s declares of_interest)
          have kept : s.specifier ≠ library := fun is => other (.inl is)
          have plain : s.specifier ∉ runtimes := fun is => other (.inr is)
          simp [of, kept, plain]
    next => rfl

theorem scan_eq_view :
    scan source library = view source.toList library (tree.descendants.filter (isNoticed source.toList)) := by
  have found : scan source library = .of library (statements source) := rfl
  rw [found, statements_by_tree untyped read plain, Scan.of_filterMap, view, List.filterMap_filter, Scan.of_filterMap]
  congr 1 <;> refine List.flatMap_congr fun n member => ?_
  · exact congrArg Scan.library (Scan.of_foundOf untyped read plain member)
  · exact congrArg Scan.factories (Scan.of_foundOf untyped read plain member)

end

theorem isModule_of_untyped {path : String} (untyped : (Script.Dialect.ofPage path).typed = false) :
    (Script.Dialect.ofPage path).isModule = true := by
  unfold Script.Dialect.ofPage at untyped ⊢
  dsimp only at untyped ⊢
  split
  next typed =>
    rw [if_pos typed] at untyped
    rw [untyped] at typed
    cases typed
  next => rfl

theorem names_declared {dialect : Script.Dialect} {source library : String} {tree n : Node}
    (untyped : dialect.typed = false) (isModule : dialect.isModule = true)
    (read : Script.parse? dialect source = some tree) (member : n ∈ tree.descendants) :
    (Scan.of library (declared? source.toList n).toList).library.flatMap Statement.names =
      if (Extraction.importEdit? library n).isSome then n.parts.filterMap (entryName? source.toList) else [] := by
  by_cases is : n.isImport = true
  · obtain ⟨specifier, kind⟩ := kind_of_isImport is
    by_cases own : specifier = library
    · by_cases bare : isBare source.toList n = true
      · rw [names_of_bare untyped isModule read member is bare]
        simp [declared?, kind, bare, Scan.of]
      · simp [declared?, kind, bare, own, Extraction.importEdit?, Scan.of]
    · have outside : Extraction.importEdit? library n = none := by simp [Extraction.importEdit?, kind, own]
      rw [outside]
      by_cases bare : isBare source.toList n = true <;> simp [declared?, kind, bare, own, Scan.of]
  · have other (specifier : String) : n.kind ≠ .importDeclaration specifier :=
      fun kind => is (by simp [Node.isImport, kind])
    have silent : declared? source.toList n = none := by
      unfold declared?
      split
      next kind => exact absurd kind (other _)
      next => rfl
    rw [silent, Rewriting.importEdit?_of_kind (other library)]
    rfl

/-- Of a module whose imports are laid out plainly, the scan finds what the imports declare that stand at the heads of
lines. It agrees with the tree if and only if no import of interest stands elsewhere; and what it finds bound to the
library is what is bound by those of the imports at the heads of lines that the rewriting deletes. -/
theorem scan_by_tree (source library path : String) (tree : Node)
    (untyped : (Script.Dialect.ofPage path).typed = false)
    (read : Script.parse? (Script.Dialect.ofPage path) source = some tree) (plain : Plain source.toList library tree) :
    scan source library = view source.toList library (tree.descendants.filter (isNoticed source.toList)) ∧
    (scan source library = view source.toList library tree.descendants ↔
      ∀ n ∈ tree.descendants, view source.toList library [n] ≠ ⟨[], []⟩ → isNoticed source.toList n = true) ∧
    ((scan source library).isRelevant = true ↔
      (∃ n ∈ tree.descendants, isNoticed source.toList n = true ∧ (view source.toList library [n]).library ≠ []) ∧
      ∃ n ∈ tree.descendants, isNoticed source.toList n = true ∧ (view source.toList library [n]).factories ≠ []) ∧
    (scan source library).library.flatMap Statement.names =
      (tree.descendants.filter fun n => (Extraction.importEdit? library n).isSome && isNoticed source.toList n).flatMap
        fun n => n.parts.filterMap (entryName? source.toList) := by
  have found := scan_eq_view untyped read plain
  refine ⟨found, ?_, ?_, ?_⟩
  · have of_interest (s : Scan) : s ≠ ⟨[], []⟩ ↔ s.library ≠ [] ∨ s.factories ≠ [] := by
      rw [← not_and_or, ← Scan.mk.injEq]
    rw [found, view_eq _ (tree.descendants.filter _), view_eq _ tree.descendants, Scan.mk.injEq, flatMap_filter_eq_iff,
      flatMap_filter_eq_iff]
    simp only [of_interest, or_imp, imp_and, forall_and]
  · rw [found, view_eq]
    simp [Scan.isRelevant]
  · rw [found, view_eq, List.flatMap_assoc, ← List.filter_filter,
      flatMap_filter fun n : Node => n.parts.filterMap (entryName? source.toList)]
    refine List.flatMap_congr fun n member => ?_
    rw [view_single]
    exact names_declared untyped (isModule_of_untyped untyped) read (List.mem_filter.mp member).1

def isLaidBy (layouts : List Layout) (source : List Char) (n : Node) : Bool :=
  n.isImport && layouts.any fun layout => layout.text.isPrefixOf (source.drop n.span.start)

def isPlainBy (layouts : List Layout) (source : List Char) (library : String) (tree : Node) : Bool :=
  (tree.descendants.all fun n => (declared? source n).all fun s =>
    isLaidBy layouts source n || !decide (s.specifier = library ∨ s.specifier ∈ runtimes)) &&
  (List.range source.length).all fun i => !(isHead source i && (statement? (source.drop i)).isSome) ||
    tree.descendants.any fun n => isLaidBy layouts source n && lineOf source n.span.start == i

theorem laid_of_isLaidBy {layouts : List Layout} {source : List Char} {n : Node}
    (laid : isLaidBy layouts source n = true) : Laid source n := by
  obtain ⟨is, some_layout⟩ := Bool.and_eq_true_iff.mp laid
  obtain ⟨layout, -, begins⟩ := List.any_eq_true.mp some_layout
  exact ⟨is, layout, List.isPrefixOf_iff_prefix.mp begins⟩

theorem plain_of_isPlainBy {layouts : List Layout} {source : List Char} {library : String} {tree : Node}
    (checked : isPlainBy layouts source library tree = true) : Plain source library tree := by
  obtain ⟨tidy, alone⟩ := Bool.and_eq_true_iff.mp checked
  constructor
  · intro n member s declares of_interest
    have laid := List.all_eq_true.mp tidy n member
    rw [Option.mem_def.mp declares, Option.all_some, decide_eq_true of_interest, Bool.not_true, Bool.or_false] at laid
    exact laid_of_isLaidBy laid
  · intro i head looks
    have inside : i < source.length := by
      by_contra beyond
      rw [List.drop_eq_nil_iff.mpr (by omega)] at looks
      cases looks
    have begun := List.all_eq_true.mp alone i (List.mem_range.mpr inside)
    rw [head, looks, Bool.and_self, Bool.not_true, Bool.false_or] at begun
    obtain ⟨n, member, both⟩ := List.any_eq_true.mp begun
    obtain ⟨laid, line⟩ := Bool.and_eq_true_iff.mp both
    exact ⟨n, member, laid_of_isLaidBy laid, beq_iff_eq.mp line⟩

def besidePage : String :=
  "import \x7bjsx as h\x7d from \"react/jsx-runtime\"\n" ++
    "import D, \x7bA\x7d from \"lib\"; import B from \"lib\"\nh(A,\x7b\x7d)"

theorem nothing_blank : ∀ c ∈ [], Text.isBlank c = true := List.forall_mem_nil _

theorem space_blank : ∀ c ∈ [' '], Text.isBlank c = true := by decide

theorem space_occupied : [' '] ≠ [] := List.cons_ne_nil _ _

def besideLayouts : List Layout :=
  let tight : Gap := ⟨[], nothing_blank⟩
  let blank : Gap := ⟨[' '], space_blank⟩
  let space : Space := ⟨blank, space_occupied⟩
  let entry (name : Identifier) : Entry := ⟨none, name, none, fun _ some => absurd some Bool.false_ne_true⟩
  let listed (entry : Entry) : Padded Entries := ⟨tight, ⟨[⟨tight, entry, tight⟩], none⟩, tight⟩
  let jsx : Identifier := .ofScript "jsx".toList (by decide) (by decide +kernel)
  let h : Identifier := .ofScript ['h'] (by decide) (by decide +kernel)
  let a : Identifier := .ofScript ['A'] (by decide) (by decide +kernel)
  let b : Identifier := .ofScript ['B'] (by decide) (by decide +kernel)
  let d : Identifier := .ofScript ['D'] (by decide) (by decide +kernel)
  let laid (clause : Clause) (script : clause.IsScript) (specifier : String) (some : specifier.toList ≠ [])
      (plain : ∀ c ∈ specifier.toList, isQuote c = false ∧ c ∉ ['\\', '\n', '\r']) : Layout :=
    ⟨blank, clause, blank, blank, '"', specifier.toList, script, fun none => absurd none (List.cons_ne_nil _ _), by decide,
      some, plain⟩
  [laid ⟨none, none, some (listed ⟨none, jsx, some ⟨space, space, h⟩, by decide⟩), none⟩ (by decide +kernel)
      "react/jsx-runtime" (by decide) (by decide),
    laid ⟨some ⟨tight, d, tight⟩, none, some ⟨blank, ⟨[⟨tight, entry a, tight⟩], none⟩, tight⟩, none⟩ (by decide +kernel)
      "lib" (by decide) (by decide),
    laid ⟨some ⟨tight, b, tight⟩, none, none, none⟩ (by decide +kernel) "lib" (by decide) (by decide)]

theorem scan_by_tree_beside : ∃ tree, (Script.Dialect.ofPage "page.js").typed = false ∧
    Script.parse? (Script.Dialect.ofPage "page.js") besidePage = some tree ∧ Plain besidePage.toList "lib" tree ∧
    scan besidePage "lib" = view besidePage.toList "lib" (tree.descendants.filter (isNoticed besidePage.toList)) ∧
    scan besidePage "lib" ≠ view besidePage.toList "lib" tree.descendants := by
  have untyped : (Script.Dialect.ofPage "page.js").typed = false := by decide +kernel
  have checked : (Script.parse? (Script.Dialect.ofPage "page.js") besidePage).any (fun tree =>
      isPlainBy besideLayouts besidePage.toList "lib" tree && tree.descendants.any fun n =>
        decide (view besidePage.toList "lib" [n] ≠ ⟨[], []⟩) && !isNoticed besidePage.toList n) = true := by
    decide +kernel
  obtain ⟨tree, read, checked⟩ := (Option.any_eq_true _ _).mp checked
  obtain ⟨plain, beside⟩ := Bool.and_eq_true_iff.mp checked
  obtain ⟨n, member, missed⟩ := List.any_eq_true.mp beside
  obtain ⟨of_interest, unnoticed⟩ := Bool.and_eq_true_iff.mp missed
  have plain := plain_of_isPlainBy plain
  obtain ⟨found, agrees, -⟩ := scan_by_tree besidePage "lib" "page.js" tree untyped read plain
  refine ⟨tree, untyped, read, plain, found, fun same => ?_⟩
  rw [agrees.mp same n member (of_decide_eq_true of_interest)] at unnoticed
  cases unnoticed

def minified : String :=
  "import\x7bjsx\x7dfrom\"react/jsx-runtime\";import\x7bMyComponent\x7dfrom\"lib\";jsx(MyComponent,\x7b\x7d);"

theorem scan_misses : (Script.parse? (Script.Dialect.ofPage "page.js") minified).map (fun tree =>
      view minified.toList "lib" tree.descendants) =
        some ⟨[⟨"lib", [⟨"MyComponent", "MyComponent"⟩]⟩], ["jsx"]⟩ ∧
    scan minified "lib" = ⟨[], []⟩ := by
  decide +kernel

end Prerender.Import
