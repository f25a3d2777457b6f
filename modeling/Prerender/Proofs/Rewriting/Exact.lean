import Prerender.Proofs.Edits.Octets
import Prerender.Proofs.Rewriting
import Prerender.Proofs.Script.Parse

set_option autoImplicit false

namespace Prerender

open Script (Node Kind Span)

namespace Script.Node.Written

variable {source : String} {tree : Node}

theorem ends_elsewhere (written : tree.Written source) {v w : List Nat} {m n : Node} {comma : Bool} {i : Nat}
    (here : tree.at? w = some n) (object : n.kind = .object comma) (opens : n.span.start < i) (closes : i < n.span.stop)
    (there : tree.at? v = some m) (different : w ≠ v) (solid : m.isLeftOut = false) (shared : m.isPlainName = false)
    (room : m.span.start < m.span.stop) (not_above : ∀ r, w ≠ v ++ r) (not_below : ∀ r, v ≠ w ++ r) :
    i ≠ m.span.stop := by
  cases n with
  | mk kind span parts =>
      obtain rfl : kind = .object comma := object
      rcases lt_trichotomy w v with before | same | before
      · rcases written.order.above_or_apart before here there rfl solid (unshared_of_not_plain rfl) with
          ⟨r, -, below, -⟩ | parted
        · exact absurd below (not_below r)
        · omega
      · exact absurd same different
      · rcases written.order.above_or_apart before there here solid rfl (unshared_of_not_plain shared) with
          ⟨r, -, above, -⟩ | parted
        · exact absurd above (not_above r)
        · omega

section
variable {w v : List Nat} {n m : Node} {comma : Bool} {i : Nat}

theorem import_ends_elsewhere (written : tree.Written source) (here : tree.at? w = some n)
    (object : n.kind = .object comma) (opens : n.span.start < i) (closes : i < n.span.stop)
    (behind : ∀ part ∈ n.parts, part.span.stop ≤ i)
    (snug : ∀ part ∈ n.parts, part.Snug) (there : tree.at? v = some m) {library : String}
    (is : m.kind = .importDeclaration library) : i ≠ m.span.stop := by
  obtain ⟨kind, span, parts⟩ := m
  obtain rfl : kind = .importDeclaration library := is
  have different : w ≠ v := by
    rintro rfl
    obtain rfl := Option.some.inj (here.symm.trans there)
    simp [Node.kind] at object
  by_cases below : ∃ r, v = w ++ r
  · obtain ⟨r, rfl⟩ := below
    have some_step : r ≠ [] := fun none => different (by rw [none, List.append_nil])
    obtain ⟨part, part_in, under, -⟩ := written.order.under_part here some_step there rfl
    have ends := snug part part_in _ under rfl
    have part_ends := behind part part_in
    omega
  · refine written.ends_elsewhere here object opens closes there different rfl rfl (written.stretch there ?_ rfl).1
      (fun r above => ?_) fun r same => below ⟨r, same⟩
    · simp [Node.kind]
    · have some_step : r ≠ [] := fun none => different (by rw [above, none, List.append_nil])
      have clause := written.clausePart_of_inImport here ⟨v, r, _, library, above, some_step, there, rfl⟩
      simp [object, Kind.isClausePart] at clause

theorem component_before_properties (written : tree.Written source) {factories : List String} {bindings : Bindings}
    (is : IsComponent factories bindings tree v) (there : tree.at? v = some m) :
    ∃ p local_name object, v = p ++ [2] ∧ m.kind = .reference local_name ∧ tree.at? (p ++ [3]) = some object ∧
      object.isLeftOut = false ∧ m.span.stop < object.span.stop := by
  obtain ⟨p, call, binding, properties, rfl, here, is⟩ := is
  obtain ⟨local_name, name, below, object, comma, third, fourth⟩ : ∃ local_name name below object comma,
      call.parts[2]? = some (.mk (.reference local_name) name below) ∧
        call.parts[3]? = some (.mk (.object comma) object properties) := by
    cases is with
    | intro => exact ⟨_, _, _, _, _, rfl, rfl⟩
  obtain rfl := Option.some.inj ((Node.at_part_of here third).symm.trans there)
  have properties_there := Node.at_part_of here fourth
  have room := (written.stretch properties_there (by simp [Node.kind]) rfl).1
  have parted := written.order.apart (p := []) (q := []) here (Nat.lt_succ_self 2) there properties_there rfl rfl
    (Node.unshared_of_not_plain rfl)
  exact ⟨p, local_name, _, rfl, rfl, properties_there, rfl, Nat.lt_of_le_of_lt parted room⟩

theorem component_ends_elsewhere (written : tree.Written source) (here : tree.at? w = some n)
    (object : n.kind = .object comma) (opens : n.span.start < i) (closes : i < n.span.stop)
    (behind : ∀ part ∈ n.parts, part.span.stop ≤ i) {factories : List String} {bindings : Bindings}
    (is : IsComponent factories bindings tree v) (there : tree.at? v = some m) : i ≠ m.span.stop := by
  obtain ⟨p, local_name, properties, rfl, name, properties_there, solid, before⟩ :=
    written.component_before_properties is there
  obtain ⟨kind, span, parts⟩ := m
  obtain rfl : kind = .reference local_name := name
  have different : w ≠ p ++ [2] := by
    rintro rfl
    obtain rfl := Option.some.inj (here.symm.trans there)
    simp [Node.kind] at object
  by_cases under : ∃ r, p ++ [2] = w ++ r
  · obtain ⟨r, same⟩ := under
    -- The properties stand below the object as the name does, in one of its parts.
    rcases List.eq_nil_or_concat' r with rfl | ⟨q, last, rfl⟩
    · exact absurd (by rw [same, List.append_nil]) different
    · rw [← List.append_assoc] at same
      obtain rfl := (List.append_inj' same rfl).1
      rw [List.append_assoc] at properties_there
      obtain ⟨part, part_in, -, ends⟩ := written.order.under_part here (by simp) properties_there solid
      have part_ends := behind part part_in
      omega
  · refine written.ends_elsewhere here object opens closes there different rfl rfl
      (written.stretch there (by simp [Node.kind]) rfl).1 (fun r above => ?_) fun r same => under ⟨r, same⟩
    rw [above, Node.at_append, there, Option.bind_some] at here
    have leaf := written.order.words _ ((Node.mem_descendants tree _).mpr ⟨_, there⟩) rfl
    obtain ⟨rfl, -⟩ := Node.at_of_no_parts _ n r leaf here
    exact different (by rw [above, List.append_nil])

end

end Script.Node.Written

namespace Extraction

variable {source library : String} {tree : Node} {factories : List String} {bindings : Bindings}

theorem edits_clear (written : tree.Written source)
    (snug : ∀ n ∈ tree.descendants, n.isObject = true → ∀ part ∈ n.parts, part.Snug) {d e : Edit}
    (d_made : d ∈ edits library (Construction.all factories bindings tree) tree)
    (e_made : e ∈ edits library (Construction.all factories bindings tree) tree) (different : d ≠ e)
    (empty : e.span.start = e.span.stop) : e.span.start ≠ d.span.start ∧ e.span.start ≠ d.span.stop := by
  have starts : d.span.start ≠ e.span.start := ((edits_apart written).forall d_made e_made different).1
  obtain ⟨w, n, here, target, -⟩ := target_of_mem_edits written e_made
  obtain ⟨solid, -, -, below⟩ := target.kind
  have room := (written.stretch here below solid).1
  refine ⟨starts.symm, ?_⟩
  cases target with
  | deletion _ same | replacement _ same =>
      rw [same] at empty
      omega
  | insertion object _ opens closes behind =>
      obtain ⟨v, m, there, other, named⟩ := target_of_mem_edits written d_made
      cases other with
      | deletion is same =>
          rw [same]
          have member := (Node.mem_descendants tree n).mpr ⟨w, here⟩
          exact written.import_ends_elsewhere here object opens closes behind
            (snug n member (by simp [Node.isObject, object])) there is
      | replacement is same =>
          rw [same]
          exact written.component_ends_elsewhere here object opens closes behind
            (named (by simp [Node.isName, is])) there
      | insertion _ other_empty => omega

end Extraction

-- What is edited for a call: the component, which its name replaces, and a place between the braces of its own
-- properties, behind all of them.
inductive CallEdits (tree : Node) (p : List Nat) (identifier : String) : List Edit → Prop
  | intro {name object : Node} {local_name : String} {comma : Bool} {mark : Edit} :
      tree.at? (p ++ [2]) = some name → name.kind = .reference local_name →
      tree.at? (p ++ [3]) = some object → object.kind = .object comma →
      mark.span.start = mark.span.stop → object.span.start < mark.span.start → mark.span.start < object.span.stop →
      (∀ property ∈ object.parts, property.span.stop ≤ mark.span.start) →
      CallEdits tree p identifier [⟨name.span, identifier⟩, mark]

structure Contributed (library : String) (factories : List String) (bindings : Bindings) (tree : Node)
    (calls : List ComponentCall) (edits : List Edit) (imports constructions : List (List Nat)) : Prop where
  imports_are : ∀ p, p ∈ imports ↔ ∃ n, tree.at? p = some n ∧ n.kind = .importDeclaration library
  constructions_are : ∀ p, p ∈ constructions ↔ ∃ n binding properties, tree.at? p = some n ∧
    IsConstruction factories bindings n binding properties
  once : imports.Nodup ∧ constructions.Nodup
  counted : calls.length = constructions.length
  made : ∃ deletions pairs, edits = deletions ++ pairs.flatten ∧
    List.Forall₂ (fun p e => ∃ n, tree.at? p = some n ∧ e = ⟨n.span, ""⟩) imports deletions ∧
    List.Forall₂ (fun placed es => CallEdits tree placed.1 placed.2.identifier es) (constructions.zip calls) pairs

namespace Extraction

variable {source : String} {tree : Node}

theorem forall₂_filterMap {α β : Type} (f : α → Option β) (as : List α) :
    List.Forall₂ (fun a b => f a = some b) (as.filter fun a => (f a).isSome) (as.filterMap f) := by
  induction as with
  | nil => exact .nil
  | cons a as ih =>
      cases found : f a with
      | none => rwa [List.filterMap_cons_none found, List.filter_cons_of_neg (by simp [found])]
      | some b =>
          rw [List.filterMap_cons_some found, List.filter_cons_of_pos (by simp [found])]
          exact .cons found ih

theorem callEdits {factories : List String} {bindings : Bindings} (written : tree.Written source) {p : List Nat}
    {n : Node} {c : Construction} (k : Nat) (here : tree.at? p = some n)
    (found : Construction.ofNode? factories bindings n = some c) :
    CallEdits tree p (c.call k).identifier (c.edits k) := by
  obtain ⟨name, local_name, name_there, name_is, same⟩ := Construction.target_name here found
  obtain ⟨object, comma, object_there, object_is, target⟩ := Construction.target_mark written here found
  rw [Construction.edits, ← same]
  cases target with
  | deletion is | replacement is => simp [object_is] at is
  | insertion _ empty opens closes behind =>
      exact .intro name_there name_is object_there object_is empty opens closes behind

theorem edits_contributed (written : tree.Written source) (library : String) (factories : List String)
    (bindings : Bindings) :
    ∃ imports, Contributed library factories bindings tree (ofTree source library factories bindings tree).calls
      (edits library (Construction.all factories bindings tree) tree) imports
      (Construction.places factories bindings tree) := by
  obtain ⟨imports, imports_eq⟩ : ∃ imports, imports =
    tree.places.filter fun p => ((tree.at? p).bind (importEdit? library)).isSome := ⟨_, rfl⟩
  have once := Node.places_nodup tree
  refine ⟨imports, fun p => ?_, Construction.mem_places tree, ⟨imports_eq ▸ once.filter _, once.filter _⟩, ?_,
    tree.descendants.filterMap (importEdit? library),
    (Construction.all factories bindings tree).mapIdx fun k c => c.edits k, rfl, ?_, ?_⟩
  · rw [imports_eq, List.mem_filter, Node.mem_places, Option.isSome_iff_exists]
    constructor
    · rintro ⟨-, e, made⟩
      obtain ⟨n, here, made⟩ := Option.bind_eq_some_iff.mp made
      exact ⟨n, here, (target_of_importEdit made).1⟩
    · rintro ⟨n, here, is⟩
      exact ⟨⟨n, here⟩, ⟨n.span, ""⟩, by simp [here, importEdit?, is]⟩
  · rw [ofTree, List.length_mapIdx, Construction.length_all]
  · rw [imports_eq, Node.filterMap_descendants]
    refine (forall₂_filterMap _ tree.places).imp fun p e made => ?_
    obtain ⟨n, here, made⟩ := Option.bind_eq_some_iff.mp made
    exact ⟨n, here, (target_of_importEdit made).2⟩
  · refine List.forall₂_iff_get.mpr ⟨?_, fun k k_low _ => ?_⟩
    · rw [List.length_zip, ofTree, List.length_mapIdx, List.length_mapIdx, Construction.length_all, Nat.min_self]
    · rw [List.length_zip] at k_low
      have low : k < (Construction.all factories bindings tree).length := by rw [Construction.length_all]; omega
      obtain ⟨p, n, at_k, here, found⟩ := construction_at (List.getElem?_eq_getElem low)
      have edited := callEdits written k here found
      simp only [List.get_eq_getElem, List.getElem_zip, List.getElem_mapIdx, ofTree]
      rwa [(List.getElem?_eq_some_iff.mp at_k).2]

/-- A module that parses is rewritten by edits of ranges of its bytes that are exact, and that are those for the
constructions in its tree and for the imports of the library. -/
theorem run_exact (source path library : String) (factories : List String) (bindings : Bindings) (tree : Node)
    (parsed : Script.parse? (Script.Dialect.ofPage path) source = some tree) :
    ∃ extraction imports constructions, run source path library factories bindings = some extraction ∧
      Contributed library factories bindings tree extraction.calls
        (edits library (Construction.all factories bindings tree) tree) imports constructions ∧
      Edit.Exact source ((edits library (Construction.all factories bindings tree) tree).map
        (Edit.inOctets source.toList)) extraction.code := by
  have written := Script.parse?_written parsed
  obtain ⟨imports, contributed⟩ := edits_contributed written library factories bindings
  refine ⟨ofTree source library factories bindings tree, imports, _, by rw [run, parsed]; rfl, contributed, ?_⟩
  exact Edit.exact_inOctets (edits_apart written) (edits_fit written) fun d d_made e e_made =>
    edits_clear written (fun n member object part => Script.snug_of_parse? parsed member object) d_made e_made

def interleaved : String := "h(A,\x7bb:\"ü\",c:h(A,\x7b\x7d)\x7d)\nimport\x7bA\x7dfrom\"lib\"\n"

def interleavedCode : String :=
  "h(A$0,\x7bb:\"ü\",c:h(A$1,\x7b suppressHydrationWarning: true \x7d), suppressHydrationWarning: true\x7d)\n\n"

theorem run_exact_interleaved :
    ∃ tree extraction imports constructions, Script.parse? (Script.Dialect.ofPage "page.js") interleaved = some tree ∧
      run interleaved "page.js" "lib" ["h"] [("A", ⟨"A", "a"⟩)] = some extraction ∧
      Contributed "lib" ["h"] [("A", ⟨"A", "a"⟩)] tree extraction.calls
        (edits "lib" (Construction.all ["h"] [("A", ⟨"A", "a"⟩)] tree) tree) imports constructions ∧
      Edit.Exact interleaved ((edits "lib" (Construction.all ["h"] [("A", ⟨"A", "a"⟩)] tree) tree).map
        (Edit.inOctets interleaved.toList)) extraction.code ∧
      extraction.code = interleavedCode := by
  have facts : (Script.parse? (Script.Dialect.ofPage "page.js") interleaved).any (fun tree =>
      (ofTree interleaved "lib" ["h"] [("A", ⟨"A", "a"⟩)] tree).code == interleavedCode) = true := by
    decide +kernel
  obtain ⟨tree, parsed, code⟩ := (Option.any_eq_true _ _).mp facts
  obtain ⟨extraction, imports, constructions, ran, contributed, exact⟩ :=
    run_exact interleaved "page.js" "lib" ["h"] [("A", ⟨"A", "a"⟩)] tree parsed
  refine ⟨tree, extraction, imports, constructions, parsed, ran, contributed, exact, ?_⟩
  rw [run, parsed] at ran
  obtain rfl := Option.some.inj ran
  exact beq_iff_eq.mp code

end Extraction

end Prerender
