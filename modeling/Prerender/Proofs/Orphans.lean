import Prerender.Proofs.Rewriting
import Prerender.Proofs.Wholeness

set_option autoImplicit false

namespace Prerender

open Script (Node Kind Span)

namespace Script.Node

def headName (text : String) : String := String.ofList (text.toList.takeWhile (· != '.'))

inductive Names (tree : Node) (name : String) : List Nat → Prop
  | value {p : List Nat} {span : Span} {parts : List Node} :
      tree.at? p = some (.mk (.reference name) span parts) → Names tree name p
  | element {p : List Nat} {element span : Span} {text : String} {parts rest : List Node} :
      tree.at? p = some (.mk .jsxElement element (.mk (.jsxName text) span parts :: rest)) →
      headName text = name → Names tree name (p ++ [0])
  | exported {p : List Nat} {i : Nat} {list entry span : Span} {entries parts rest : List Node} :
      tree.at? p = some (.mk .exportList list entries) → (∀ e ∈ entries, e.kind = .specifier) →
      entries[i]? = some (.mk .specifier entry (.mk (.name name) span parts :: rest)) →
      Names tree name (p ++ [i] ++ [0])

def Binds (n : Node) (name : String) : Prop := ∃ m ∈ n.descendants, m.kind = .binding name

def Orphan (library : String) (tree : Node) (name : String) : Prop :=
  (∃ n ∈ tree.descendants, n.kind = .importDeclaration library ∧ n.Binds name) ∧
    ∀ n ∈ tree.descendants, n.isImport = true → n.Binds name → n.kind = .importDeclaration library

instance (n : Node) (name : String) : Decidable (n.Binds name) :=
  inferInstanceAs (Decidable (∃ m ∈ n.descendants, m.kind = .binding name))

instance (library : String) (tree : Node) (name : String) : Decidable (Orphan library tree name) :=
  inferInstanceAs (Decidable (_ ∧ _))

variable {source : String} {tree : Node}

theorem Names.reached {name : String} {v : List Nat} (names : tree.Names name v) :
    ∃ m, tree.at? v = some m ∧ m.isName = true ∧ m.isLeftOut = false := by
  cases names with
  | @value p span parts here => exact ⟨.mk (.reference name) span parts, here, rfl, rfl⟩
  | @element p _ span text parts rest here _ =>
      exact ⟨.mk (.jsxName text) span parts, by rw [at_append, here]; rfl, rfl, rfl⟩
  | @exported p i list entry span entries parts rest here _ at_i =>
      exact ⟨.mk (.name name) span parts, at_part_of (at_part_of here at_i) rfl, rfl, rfl⟩

theorem Names.word {name : String} {v : List Nat} {m : Node} (names : tree.Names name v)
    (there : tree.at? v = some m) : m.isName = true ∧ m.isLeftOut = false := by
  obtain ⟨m', there', word⟩ := names.reached
  obtain rfl := Option.some.inj (there.symm.trans there')
  exact word

theorem Names.stretch {name : String} {v : List Nat} {m : Node} (written : tree.Written source)
    (names : tree.Names name v) (there : tree.at? v = some m) :
    m.span.start < m.span.stop ∧ m.span.stop ≤ source.length := by
  obtain ⟨word, solid⟩ := names.word there
  apply written.stretch there _ solid
  intro is
  simp [isName, is] at word

theorem Names.unshared {name : String} {v : List Nat} {m : Node} (names : tree.Names name v)
    (there : tree.at? v = some m) : Unshared tree v m := by
  cases names with
  | value here =>
      obtain rfl := Option.some.inj (here.symm.trans there)
      exact unshared_of_not_plain rfl
  | element here _ =>
      rw [at_append, here] at there
      obtain rfl := Option.some.inj there
      exact unshared_of_not_plain rfl
  | exported here _ at_i =>
      intro _ s i parent split above
      obtain ⟨rfl, -⟩ := List.append_inj' split rfl
      rw [at_append, here, Option.bind_some] at above
      simp only [at?, Node.parts, at_i, Option.bind_some, Option.some.injEq] at above
      simp [← above, Node.kind]

theorem inImport_of_step {v : List Nat} {i : Nat} {n : Node} (here : tree.at? v = some n)
    (not_import : n.isImport = false) (within : Written.InImport tree (v ++ [i])) : Written.InImport tree v := by
  obtain ⟨s, r, m, library, split, some_step, above, is⟩ := within
  obtain ⟨r, j, rfl⟩ := List.eq_nil_or_concat r |>.resolve_left some_step
  rw [List.concat_eq_append, ← List.append_assoc] at split
  obtain ⟨rfl, -⟩ := List.append_inj' split rfl
  refine ⟨s, r, m, library, rfl, ?_, above, is⟩
  rintro rfl
  rw [List.append_nil] at here
  obtain rfl := Option.some.inj (here.symm.trans above)
  simp [isImport, is] at not_import

theorem Names.outside {name : String} {v : List Nat} (written : tree.Written source)
    (names : tree.Names name v) : ¬ Written.InImport tree v := by
  intro within
  cases names with
  | value here => cases written.clausePart_of_inImport here within
  | element here _ =>
      cases written.clausePart_of_inImport here (inImport_of_step here rfl within)
  | @exported p i list entry span entries parts rest here _ at_i =>
      have specifier : tree.at? (p ++ [i]) = some (.mk .specifier entry (.mk (.name name) span parts :: rest)) :=
        at_part_of here at_i
      have around := inImport_of_step specifier rfl within
      cases written.clausePart_of_inImport here (inImport_of_step here rfl around)

end Script.Node

namespace Extraction

variable {source library name : String} {tree m : Node} {factories : List String} {bindings : Bindings}
  {v : List Nat}

theorem edits_spare (written : tree.Written source) (names : tree.Names name v) (there : tree.at? v = some m)
    (other : ¬ IsComponent factories bindings tree v) :
    ∀ e ∈ edits library (Construction.all factories bindings tree) tree,
      e.span.stop ≤ m.span.start ∨ m.span.stop ≤ e.span.start := by
  intro e made
  obtain ⟨word, solid⟩ := names.word there
  obtain ⟨w, n, here, target, component⟩ := target_of_mem_edits written made
  have different : w ≠ v := by
    rintro rfl
    obtain rfl := Option.some.inj (here.symm.trans there)
    exact other (component word)
  have not_above (r : List Nat) : w ≠ v ++ r := by
    rintro rfl
    rw [Node.at_append, there, Option.bind_some] at here
    have leaf := written.order.words m ((Node.mem_descendants tree m).mpr ⟨v, there⟩) word
    obtain ⟨rfl, -⟩ := Node.at_of_no_parts m n r leaf here
    exact different (List.append_nil v)
  have spared := written.spares here target there different solid (names.unshared there) (names.outside written)
    not_above
  exact spared.imp And.left id

theorem code_toList (source library : String) (factories : List String) (bindings : Bindings) (tree : Node) :
    (ofTree source library factories bindings tree).code.toList =
      Edit.applyAll (edits library (Construction.all factories bindings tree) tree) source.toList :=
  String.toList_ofList

-- Whether no edit reaches into what stands at a place.
def Left (edits : List Edit) (tree : Node) (p : List Nat) : Prop :=
  ∃ n, tree.at? p = some n ∧ ∀ e ∈ edits, e.span.stop ≤ n.span.start ∨ n.span.stop ≤ e.span.start

theorem left_iff (written : tree.Written source) (names : tree.Names name v) :
    Left (edits library (Construction.all factories bindings tree) tree) tree v ↔
      ¬ IsComponent factories bindings tree v := by
  constructor
  · rintro ⟨m, there, spared⟩ component
    obtain ⟨k, c, -, made⟩ := replacement_mem_edits library component there
    have stretch := (names.stretch written there).1
    have sides := spared _ made
    exact absurd stretch (by simpa using sides)
  · intro other
    obtain ⟨m, there, -⟩ := names.reached
    exact ⟨m, there, edits_spare written names there other⟩

section
variable (factories : List String) (bindings : Bindings)

theorem code_of_component (written : tree.Written source) (names : tree.Names name v) (there : tree.at? v = some m)
    (component : IsComponent factories bindings tree v) :
    let edits := edits library (Construction.all factories bindings tree) tree
    let extraction := ofTree source library factories bindings tree
    ∃ call ∈ extraction.calls, extraction.code.toList = Edit.front edits source.toList m.span.start ++
      (call.identifier.toList ++ Edit.back edits source.toList m.span.stop) := by
  intro edits extraction
  obtain ⟨k, c, numbered, made⟩ := replacement_mem_edits library component there
  refine ⟨c.call k, ?_, ?_⟩
  · refine List.mem_of_getElem? (i := k) ?_
    simp only [extraction, ofTree, List.getElem?_mapIdx, numbered, Option.map_some]
  · exact (code_toList source library factories bindings tree).trans
      (Edit.applyAll_made ⟨m.span, c.identifier k⟩ (edits_apart written) (edits_fit written) made
        (names.stretch written there).1)

theorem code_of_left (written : tree.Written source) (names : tree.Names name v) (there : tree.at? v = some m)
    (other : ¬ IsComponent factories bindings tree v) :
    let edits := edits library (Construction.all factories bindings tree) tree
    (ofTree source library factories bindings tree).code.toList = Edit.front edits source.toList m.span.start ++
      ((source.toList.take m.span.stop).drop m.span.start ++ Edit.back edits source.toList m.span.stop) := by
  intro edits
  obtain ⟨stretch, low⟩ := names.stretch written there
  exact (code_toList source library factories bindings tree).trans
    (Edit.applyAll_spared m.span.start m.span.stop (edits_apart written) (edits_fit written) stretch
      (by rw [String.length_toList]; exact low) (edits_spare written names there other))

end

end Extraction

namespace Transform

theorem assembled_of_run (options : Options) (renderer : Renderer) (source path : String) (output : Output)
    (tree : Node) (ran : (run options renderer source path).result = .ok (some output))
    (parsed : Script.parse? (Script.Dialect.ofPage path) source = some tree) :
    let scan := Import.scan source options.library
    let extraction := Extraction.ofTree source options.library scan.factories
      (bindings options.registry scan.library) tree
    output.code = assemble extraction.code output.declarations := by
  intro scan extraction
  cases relevant : scan.isRelevant with
  | false =>
      rw [run_passed options renderer 0 source path relevant] at ran
      cases ran
  | true =>
      rw [run_parsed options renderer 0 source path tree relevant parsed] at ran
      by_cases no_call : extraction.calls = []
      · rw [finish_no_call options renderer 0 extraction no_call] at ran
        cases ran
      · have occupied : extraction.calls.isEmpty = false := by simpa using no_call
        change (finish options renderer 0 extraction).result = _ at ran
        simp only [finish, occupied, Bool.false_eq_true, if_false] at ran
        cases rendered : (renderAll options renderer 0 extraction.calls).result with
        | error cause =>
            rw [rendered] at ran
            cases ran
        | ok rs =>
            rw [rendered] at ran
            obtain rfl := Option.some.inj (Except.ok.inj ran)
            rfl

theorem inserted_of_run (options : Options) (renderer : Renderer) (source path : String) (output : Output)
    (tree : Node) (ran : (run options renderer source path).result = .ok (some output))
    (parsed : Script.parse? (Script.Dialect.ofPage path) source = some tree) :
    let scan := Import.scan source options.library
    let extraction := Extraction.ofTree source options.library scan.factories
      (bindings options.registry scan.library) tree
    ∃ before after, extraction.code = before ++ after ∧
      output.code = before ++ block output.declarations ++ after := by
  intro scan extraction
  refine ⟨String.ofList (splitDirectives extraction.code.toList).1,
    String.ofList (splitDirectives extraction.code.toList).2, ?_, ?_⟩
  · rw [← String.ofList_append, split_directives_append, String.ofList_toList]
  · rw [assembled_of_run options renderer source path output tree ran parsed, assemble]

/-- A name whose only import goes is left without a binding exactly if some reference to it is not the
component of a construction. `refs` are the references, whatever scoping says they are. -/
theorem run_leaves_iff (options : Options) (renderer : Renderer) (source path : String) (output : Output)
    (tree : Node) (refs : List Nat → Prop)
    (ran : (run options renderer source path).result = .ok (some output))
    (parsed : Script.parse? (Script.Dialect.ofPage path) source = some tree) (written : tree.Written source)
    (refer : ∀ p, refs p → ∃ name, Node.Orphan options.library tree name ∧ tree.Names name p) :
    let scan := Import.scan source options.library
    let found := bindings options.registry scan.library
    let extraction := Extraction.ofTree source options.library scan.factories found tree
    let edits := Extraction.edits options.library (Construction.all scan.factories found tree) tree
    let text := source.toList
    (∃ before after, extraction.code = before ++ after ∧
      output.code = before ++ block output.declarations ++ after) ∧
    (∀ p n, refs p → tree.at? p = some n →
      (IsComponent scan.factories found tree p → ∃ call ∈ extraction.calls, extraction.code.toList =
        Edit.front edits text n.span.start ++ (call.identifier.toList ++ Edit.back edits text n.span.stop)) ∧
      (¬ IsComponent scan.factories found tree p → extraction.code.toList =
        Edit.front edits text n.span.start ++
          ((text.take n.span.stop).drop n.span.start ++ Edit.back edits text n.span.stop))) ∧
    ((∀ p, refs p → ¬ Extraction.Left edits tree p) ↔
      ∀ p, refs p → IsComponent scan.factories found tree p) := by
  intro scan found extraction edits text
  refine ⟨inserted_of_run options renderer source path output tree ran parsed, fun p n ref there => ?_,
    fun nothing p ref => ?_, fun all p ref left => ?_⟩
  · obtain ⟨name, -, names⟩ := refer p ref
    exact ⟨fun component => Extraction.code_of_component scan.factories found written names there component,
      fun other => Extraction.code_of_left scan.factories found written names there other⟩
  · obtain ⟨name, -, names⟩ := refer p ref
    by_contra other
    exact nothing p ref ((Extraction.left_iff written names).mpr other)
  · obtain ⟨name, -, names⟩ := refer p ref
    exact (Extraction.left_iff written names).mp left (all p ref)

def passedPage : String :=
  "import \x7bjsx\x7d from \"react/jsx-runtime\"\nimport \x7bA\x7d from \"lib\"\njsx(A,\x7b\x7d);f(A)"

def passedPlace : List Nat := [3, 0, 2]

def passedConstructions (tree : Node) : List Nat → Option Construction := fun p =>
  let scan := Import.scan passedPage sampleOptions.library
  (tree.at? p).bind (Construction.ofNode? scan.factories (bindings sampleOptions.registry scan.library))

def passedEdits (tree : Node) : List Edit :=
  let scan := Import.scan passedPage sampleOptions.library
  Extraction.edits sampleOptions.library
    (Construction.all scan.factories (bindings sampleOptions.registry scan.library) tree) tree

theorem run_leaves_passed :
    ∃ output tree, (run sampleOptions sampleRenderer passedPage "page.js").result = .ok (some output) ∧
      Script.parse? (Script.Dialect.ofPage "page.js") passedPage = some tree ∧ tree.Written passedPage ∧
      Node.Orphan "lib" tree "A" ∧ tree.Names "A" passedPlace ∧
      Extraction.Left (passedEdits tree) tree passedPlace := by
  have succeeds : (run sampleOptions sampleRenderer passedPage "page.js").result.toOption.join.isSome = true := by
    decide +kernel
  obtain ⟨output, made⟩ := Option.isSome_iff_exists.mp succeeds
  have ran := run_of_toOption made
  have facts : (Script.parse? (Script.Dialect.ofPage "page.js") passedPage).any (fun tree =>
      decide (tree.Written passedPage) && (decide (Node.Orphan "lib" tree "A") &&
        ((tree.at? passedPlace).map Node.kind == some (.reference "A") &&
          (passedConstructions tree [3, 0]).isNone))) = true := by
    decide +kernel
  obtain ⟨tree, parsed, facts⟩ := (Option.any_eq_true _ _).mp facts
  simp only [Bool.and_eq_true, decide_eq_true_eq, beq_iff_eq, Option.isNone_iff_eq_none] at facts
  obtain ⟨written, orphan, named, unconstructed⟩ := facts
  have names : tree.Names "A" passedPlace := by
    obtain ⟨⟨kind, span, parts⟩, here, is⟩ := Option.map_eq_some_iff.mp named
    obtain rfl : kind = _ := is
    exact .value here
  refine ⟨output, tree, ran, parsed, written, orphan, names, ?_⟩
  by_contra rewritten
  have all := (run_leaves_iff sampleOptions sampleRenderer passedPage "page.js" output tree
    (fun p => p = passedPlace) ran parsed written (fun p ref => ref ▸ ⟨"A", orphan, names⟩)).2.2.mp
    (fun p ref => ref ▸ rewritten) passedPlace rfl
  obtain ⟨q, n, binding, properties, same, here, is⟩ := all
  obtain ⟨rfl, -⟩ := List.append_inj' (show [3, 0] ++ [2] = q ++ [2] from same) rfl
  obtain ⟨name, object, found⟩ := Construction.ofNode_of_isConstruction is
  simp only [passedConstructions, here, Option.bind_some] at unconstructed
  exact absurd (found.symm.trans unconstructed) (by simp)

end Transform

end Prerender
