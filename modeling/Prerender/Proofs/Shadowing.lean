import Prerender.Proofs.Script.Parse
import Prerender.Proofs.Script.Scope
import Prerender.Proofs.Wholeness

set_option autoImplicit false

namespace Prerender

open Script (Node Kind Span)

namespace Script.Node

structure Imports (tree : Node) (sources : List String) (name : String) : Prop where
  declared : ∃ statement ∈ tree.parts, name ∈ statement.declaredNames
  imported : ∀ statement ∈ tree.parts, name ∈ statement.declaredNames →
    ∃ source ∈ sources, statement.kind = .importDeclaration source

structure MeansImport (tree : Node) (sources : List String) (name : String) (p : List Nat) : Prop where
  outermost : tree.scope? name p = some []
  imports : tree.Imports sources name

-- The module declares a name, and nothing outside of imports from `sources` writes a declaration of it.
structure ImportsAlone (tree : Node) (sources : List String) (name : String) : Prop where
  declared : ∃ statement ∈ tree.parts, name ∈ statement.declaredNames
  alone : ∀ statement ∈ tree.parts,
    (∃ source ∈ sources, statement.kind = .importDeclaration source) ∨ ¬ statement.Writes name

instance (tree : Node) (sources : List String) (name : String) : Decidable (tree.ImportsAlone sources name) :=
  decidable_of_iff ((∃ statement ∈ tree.parts, name ∈ statement.declaredNames) ∧ ∀ statement ∈ tree.parts,
      (∃ source ∈ sources, statement.kind = .importDeclaration source) ∨ ¬ statement.Writes name)
    ⟨fun ⟨declared, alone⟩ => ⟨declared, alone⟩, fun ⟨declared, alone⟩ => ⟨declared, alone⟩⟩

variable {tree : Node} {sources : List String} {name : String}

theorem mem_scopeNames_program (program : tree.kind = .program) (i : Nat) :
    name ∈ tree.scopeNames i ↔ ∃ statement ∈ tree.parts, name ∈ statement.declaredNames := by
  cases tree with
  | mk kind span parts =>
      obtain rfl : kind = .program := program
      simp only [scopeNames, declaredNames, List.mem_append, mem_blockNamesOf, mem_hoistedNamesOf]
      constructor
      · rintro (⟨n, member, mine⟩ | ⟨n, member, mine⟩)
        · exact ⟨n, member, .inl mine⟩
        · exact ⟨n, member, .inr mine⟩
      · rintro ⟨n, member, mine | mine⟩
        · exact .inl ⟨n, member, mine⟩
        · exact .inr ⟨n, member, mine⟩

theorem meansImport_iff (program : tree.kind = .program) (i : Nat) (p : List Nat) :
    tree.MeansImport sources name (i :: p) ↔ ¬ tree.Shadowed name (i :: p) ∧ tree.Imports sources name := by
  constructor
  · exact fun ⟨outermost, imports⟩ => ⟨((scope?_eq_nil_iff tree name i p).mp outermost).2, imports⟩
  · rintro ⟨clear, imports⟩
    exact ⟨(scope?_eq_nil_iff tree name i p).mpr ⟨(mem_scopeNames_program program i).mpr imports.declared, clear⟩,
      imports⟩

theorem ImportsAlone.imports (only : tree.ImportsAlone sources name) : tree.Imports sources name :=
  ⟨only.declared, fun statement member declared =>
    (only.alone statement member).resolve_right fun unwritten => unwritten (writes_of_declaredNames declared)⟩

-- A scope that declares the name would write it in a statement that is no import, and in an import there is
-- no call.
theorem ImportsAlone.clear {source : String} {q : List Nat} {call : Node} (only : tree.ImportsAlone sources name)
    (written : tree.Written source) (here : tree.at? q = some call) (is : call.kind = .call) (j : Nat) :
    ¬ tree.Shadowed name (q ++ [j]) := by
  rintro ⟨s, i, r, m, split, some_step, there, member⟩
  obtain ⟨k, s, rfl⟩ := List.exists_cons_of_ne_nil some_step
  obtain ⟨statement, found, below⟩ := Option.bind_eq_some_iff.mp there
  have wrote : statement.Writes name := (writes_of_scopeNames member).above below
  obtain ⟨library, -, imported⟩ := (only.alone statement (List.mem_of_getElem? found)).resolve_right (absurd wrote)
  have head : tree.at? [k] = some statement := at_part found
  obtain ⟨t, rfl⟩ : ∃ t, q = k :: t := by
    cases q with
    | nil => simp at split
    | cons k' t => exact ⟨t, by rw [(List.cons.inj split).1]⟩
  cases t with
  | nil =>
      obtain rfl := Option.some.inj (here.symm.trans head)
      rw [is] at imported
      cases imported
  | cons l t =>
      have clause := written.clausePart_of_inImport here ⟨[k], l :: t, statement, library, rfl,
        List.cons_ne_nil l t, head, imported⟩
      rw [is] at clause
      cases clause

theorem ImportsAlone.means {source : String} {q : List Nat} {call : Node} (only : tree.ImportsAlone sources name)
    (written : tree.Written source) (here : tree.at? q = some call) (is : call.kind = .call) (j : Nat) :
    tree.MeansImport sources name (q ++ [j]) := by
  have clear := only.clear written here is j
  cases q with
  | nil => exact (meansImport_iff written.program j []).mpr ⟨clear, only.imports⟩
  | cons i q => exact (meansImport_iff written.program i (q ++ [j])).mpr ⟨clear, only.imports⟩

end Script.Node

inductive Constructs (factory component : String) : Node → Prop
  | intro {span callee name object : Span} {comma : Bool} {generics : Node}
      {below callee_parts properties rest : List Node} :
      Constructs factory component
        (.mk .call span (.mk (.reference factory) callee callee_parts :: generics ::
          .mk (.reference component) name below :: .mk (.object comma) object properties :: rest))

namespace Constructs

variable {factory component : String} {n : Node} {factories : List String} {bindings : Bindings}

theorem kind (constructs : Constructs factory component n) : n.kind = .call := by cases constructs; rfl

theorem binding (constructs : Constructs factory component n) {binding : Binding} {properties : List Node}
    (is : IsConstruction factories bindings n binding properties) :
    factory ∈ factories ∧ bindings.lookup component = some binding := by
  cases constructs with
  | intro =>
      cases is with
      | intro listed bound => exact ⟨listed, bound⟩

theorem of_isConstruction {binding : Binding} {properties : List Node}
    (is : IsConstruction factories bindings n binding properties) :
    ∃ factory component, Constructs factory component n := by
  cases is with
  | intro => exact ⟨_, _, .intro⟩

theorem isConstruction (constructs : Constructs factory component n) (listed : factory ∈ factories)
    {binding : Binding} (bound : bindings.lookup component = some binding) :
    ∃ properties, IsConstruction factories bindings n binding properties := by
  cases constructs with
  | intro => exact ⟨_, .intro listed bound⟩

theorem of_ofNode {binding : Binding} (found : (Construction.ofNode? [factory] [(component, binding)] n).isSome = true) :
    Constructs factory component n := by
  obtain ⟨c, found⟩ := Option.isSome_iff_exists.mp found
  obtain ⟨factory', component', constructs⟩ := of_isConstruction (Construction.isConstruction_of_ofNode found)
  obtain ⟨listed, bound⟩ := constructs.binding (Construction.isConstruction_of_ofNode found)
  obtain rfl := List.mem_singleton.mp listed
  by_cases same : component' = component
  · exact same ▸ constructs
  · simp [List.lookup_cons, beq_eq_false_iff_ne.mpr same] at bound

end Constructs

namespace Transform

def Lists (registry : Registry) (imports : List Import.Statement) (component exported : String) : Prop :=
  ∃ statement ∈ imports, ⟨exported, component⟩ ∈ statement.names ∧ registry.contains exported = true

instance (registry : Registry) (imports : List Import.Statement) (component exported : String) :
    Decidable (Lists registry imports component exported) :=
  inferInstanceAs (Decidable (∃ statement ∈ imports, _ ∧ _))

def entriesFor (registry : Registry) (imports : List Import.Statement) (component : String) : List Import.Name :=
  ((imports.flatMap Import.Statement.names).filter fun n => registry.contains n.exported).filter (·.bound = component)

theorem mem_entriesFor {registry : Registry} {imports : List Import.Statement} {component : String}
    {n : Import.Name} : n ∈ entriesFor registry imports component ↔
      n.bound = component ∧ Lists registry imports component n.exported := by
  simp only [entriesFor, Lists, List.mem_filter, List.mem_flatMap, decide_eq_true_eq]
  constructor
  · rintro ⟨⟨⟨statement, imported, entry⟩, registered⟩, rfl⟩
    exact ⟨rfl, statement, imported, entry, registered⟩
  · rintro ⟨rfl, statement, imported, entry, registered⟩
    exact ⟨⟨⟨statement, imported, entry⟩, registered⟩, rfl⟩

theorem lookup_put_all (f : Import.Name → Binding) (names : List Import.Name) (start : Bindings) (query : String) :
    (names.foldl (fun bs n => Keyed.put bs n.bound (f n)) start).lookup query =
      ((names.filter (·.bound = query)).getLast?.map f).or (start.lookup query) := by
  induction names generalizing start with
  | nil => simp
  | cons n ns ih =>
      rw [List.foldl_cons, ih, Keyed.lookup_eq_get?, Keyed.get?_put, ← Keyed.lookup_eq_get?]
      by_cases hit : n.bound = query
      · cases last : (ns.filter (·.bound = query)).getLast? <;> simp [hit, List.getLast?_cons, last]
      · simp [hit]

theorem lookup_bindings (registry : Registry) (imports : List Import.Statement) (component : String) :
    (bindings registry imports).lookup component =
      (entriesFor registry imports component).getLast?.map fun n => ⟨n.exported, registry.tagOf n.exported⟩ := by
  rw [bindings, lookup_put_all (fun n => ⟨n.exported, registry.tagOf n.exported⟩), List.lookup_nil, Option.or_none,
    entriesFor]

theorem lists_of_lookup {registry : Registry} {imports : List Import.Statement} {component : String}
    {binding : Binding} (bound : (bindings registry imports).lookup component = some binding) :
    Lists registry imports component binding.component := by
  rw [lookup_bindings] at bound
  obtain ⟨n, last, rfl⟩ := Option.map_eq_some_iff.mp bound
  exact (mem_entriesFor.mp (List.mem_of_getLast? last)).2

theorem lookup_of_lists {registry : Registry} {imports : List Import.Statement} {component exported : String}
    (lists : Lists registry imports component exported) :
    ∃ binding, (bindings registry imports).lookup component = some binding := by
  have member : ⟨exported, component⟩ ∈ entriesFor registry imports component := mem_entriesFor.mpr ⟨rfl, lists⟩
  rw [lookup_bindings, List.getLast?_eq_some_getLast (List.ne_nil_of_mem member)]
  exact ⟨_, rfl⟩

structure IsReal (library : String) (tree : Node) (factory component : String) (q : List Nat) : Prop where
  factory : tree.MeansImport Import.runtimes factory (q ++ [0])
  component : tree.MeansImport [library] component (q ++ [2])

structure TakenByName (options : Options) (scan : Import.Scan) (tree : Node)
    (result : Except Error (Option Output)) (places : List (List Nat)) : Prop where
  ordered : places.Pairwise (· < ·)
  exactly : ∀ q, q ∈ places ↔ scan.isRelevant = true ∧ ∃ call factory component exported, tree.at? q = some call ∧
    Constructs factory component call ∧ factory ∈ scan.factories ∧
      Lists options.registry scan.library component exported
  nothing : result = .ok none ↔ places = []
  declared : ∀ output, result = .ok (some output) → output.declarations.length = places.length ∧
    ∀ (k : Nat) q call factory component, places[k]? = some q → tree.at? q = some call →
      Constructs factory component call → ∃ exported d, Lists options.registry scan.library component exported ∧
        output.declarations[k]? = some d ∧ d.identifier = exported ++ "$" ++ toString k
  meant : ∀ q ∈ places, ∀ call factory component, tree.at? q = some call → Constructs factory component call →
    (IsReal options.library tree factory component q ↔
      (¬ tree.Shadowed factory (q ++ [0]) ∧ tree.Imports Import.runtimes factory) ∧
        ¬ tree.Shadowed component (q ++ [2]) ∧ tree.Imports [options.library] component)
  alone : ∀ q ∈ places, ∀ call factory component, tree.at? q = some call → Constructs factory component call →
    tree.ImportsAlone Import.runtimes factory → tree.ImportsAlone [options.library] component →
      IsReal options.library tree factory component q

section
variable (options : Options) (renderer : Renderer)

def takenPlaces (scan : Import.Scan) (tree : Node) : List (List Nat) :=
  if scan.isRelevant then
    Construction.places scan.factories (bindings options.registry scan.library) tree
  else []

theorem mem_takenPlaces (scan : Import.Scan) (tree : Node) (q : List Nat) :
    q ∈ takenPlaces options scan tree ↔ scan.isRelevant = true ∧ ∃ call factory component exported,
      tree.at? q = some call ∧ Constructs factory component call ∧ factory ∈ scan.factories ∧
        Lists options.registry scan.library component exported := by
  unfold takenPlaces
  split
  · next relevant =>
      simp only [relevant, true_and, Construction.mem_places]
      constructor
      · rintro ⟨call, binding, properties, here, is⟩
        obtain ⟨factory, component, constructs⟩ := Constructs.of_isConstruction is
        obtain ⟨listed, bound⟩ := constructs.binding is
        exact ⟨call, factory, component, binding.component, here, constructs, listed, lists_of_lookup bound⟩
      · rintro ⟨call, factory, component, exported, here, constructs, listed, lists⟩
        obtain ⟨binding, bound⟩ := lookup_of_lists lists
        obtain ⟨properties, is⟩ := constructs.isConstruction listed bound
        exact ⟨call, binding, properties, here, is⟩
  · next passed => simp [passed]

theorem isReal_iff {source : String} {tree call : Node} {q : List Nat} {factory component : String}
    (written : tree.Written source) (here : tree.at? q = some call) (constructs : Constructs factory component call) :
    IsReal options.library tree factory component q ↔
      (¬ tree.Shadowed factory (q ++ [0]) ∧ tree.Imports Import.runtimes factory) ∧
        ¬ tree.Shadowed component (q ++ [2]) ∧ tree.Imports [options.library] component := by
  cases q with
  | nil =>
      obtain rfl := Option.some.inj here
      cases constructs.kind.symm.trans written.program
  | cons i q =>
      have means (sources : List String) (name : String) (j : Nat) :
          tree.MeansImport sources name (i :: q ++ [j]) ↔
            ¬ tree.Shadowed name (i :: q ++ [j]) ∧ tree.Imports sources name :=
        Node.meansImport_iff written.program i (q ++ [j])
      rw [← means, ← means]
      exact ⟨fun ⟨factory, component⟩ => ⟨factory, component⟩, fun ⟨factory, component⟩ => ⟨factory, component⟩⟩

theorem call_of_place (source library : String) {factories : List String} {found : Bindings} {tree call : Node}
    {k : Nat} {q : List Nat} {factory component : String} (at_k : (Construction.places factories found tree)[k]? = some q)
    (here : tree.at? q = some call) (constructs : Constructs factory component call) :
    ∃ binding taken, found.lookup component = some binding ∧
      (Extraction.ofTree source library factories found tree).calls[k]? = some taken ∧
        taken.identifier = binding.component ++ "$" ++ toString k := by
  have entry := Construction.get_all tree k q at_k
  obtain ⟨call', binding, properties, there, is⟩ := (Construction.mem_places tree q).mp (List.mem_of_getElem? at_k)
  obtain rfl := Option.some.inj (there.symm.trans here)
  obtain ⟨name, object, made⟩ := Construction.ofNode_of_isConstruction is
  rw [here, Option.bind_some, made] at entry
  exact ⟨binding, Construction.call ⟨binding, name, object, properties⟩ k, (constructs.binding is).2,
    by simp only [Extraction.ofTree, List.getElem?_mapIdx, entry, Option.map_some], rfl⟩

theorem run_cases (source path : String) (tree : Node)
    (parsed : Script.parse? (Script.Dialect.ofPage path) source = some tree) :
    let scan := Import.scan source options.library
    let found := bindings options.registry scan.library
    let extraction := Extraction.ofTree source options.library scan.factories found tree
    let result := (run options renderer source path).result
    (takenPlaces options scan tree = [] ∧ result = .ok none) ∨
      (takenPlaces options scan tree = Construction.places scan.factories found tree ∧ extraction.calls ≠ [] ∧
        ((∃ rendered output, rendered.length = extraction.calls.length ∧
          Whole options extraction rendered output ∧ result = .ok (some output)) ∨ ∃ cause, result = .error cause)) := by
  intro scan found extraction result
  cases relevant : scan.isRelevant with
  | false =>
      refine .inl ⟨by simp [takenPlaces, relevant], ?_⟩
      simp only [result, run_passed options renderer 0 source path relevant]
  | true =>
      have places : takenPlaces options scan tree = Construction.places scan.factories found tree := by
        simp only [takenPlaces, relevant, if_true, found]
      have ran : result = (finish options renderer 0 extraction).result :=
        congrArg Renderer.Outcome.result (run_parsed options renderer 0 source path tree relevant parsed)
      by_cases no_call : extraction.calls = []
      · refine .inl ⟨?_, by rw [ran, finish_no_call options renderer 0 extraction no_call]⟩
        rw [places, ← List.length_eq_zero_iff, ← Construction.length_all]
        simpa [extraction, Extraction.ofTree] using no_call
      · refine .inr ⟨places, no_call, ?_⟩
        rcases finish_settles options renderer 0 extraction no_call with
          ⟨rendered, output, all, whole, finished⟩ | ⟨k, cause, -, finished⟩
        · refine .inl ⟨rendered, output, ?_, whole, by rw [ran, finished]⟩
          simpa [outcomes, questions] using (congrArg List.length all).symm
        · exact .inr ⟨.rendering cause, by rw [ran, finished]⟩

/-- The calls that are taken out of a module that parses are those whose names its text lists, whatever the
names mean where the call stands. They mean imports of the runtime and of the library exactly if no scope inside
the module declares them anew and the module itself declares them by such imports alone. -/
theorem run_takes_by_name (source path : String) (tree : Node)
    (parsed : Script.parse? (Script.Dialect.ofPage path) source = some tree) :
    ∃ places, TakenByName options (Import.scan source options.library) tree
      (run options renderer source path).result places := by
  have written := Script.parse?_written parsed
  let scan := Import.scan source options.library
  let found := bindings options.registry scan.library
  let extraction := Extraction.ofTree source options.library scan.factories found tree
  have counted : extraction.calls.length = (Construction.places scan.factories found tree).length := by
    simp [extraction, Extraction.ofTree, Construction.length_all]
  refine ⟨takenPlaces options scan tree, ?_, mem_takenPlaces options scan tree, ?_, ?_, ?_, ?_⟩
  · unfold takenPlaces
    split
    · exact (Node.places_ascending tree).filter _
    · exact .nil
  · rcases run_cases options renderer source path tree parsed with
      ⟨nowhere, none⟩ | ⟨places, some_call, ⟨rendered, output, -, -, ran⟩ | ⟨cause, ran⟩⟩
    · simp only [scan, nowhere, none]
    all_goals
      have somewhere : takenPlaces options scan tree ≠ [] := by
        intro nowhere
        rw [← places, nowhere] at counted
        exact some_call (List.length_eq_zero_iff.mp counted)
      simp only [ran, somewhere, reduceCtorEq, Except.ok.injEq]
  · intro output made
    rcases run_cases options renderer source path tree parsed with
      ⟨-, none⟩ | ⟨places, -, ⟨rendered, output', as_many, whole, ran⟩ | ⟨cause, ran⟩⟩
    · cases none.symm.trans made
    · obtain rfl := Option.some.inj (Except.ok.inj (ran.symm.trans made))
      rw [places]
      refine ⟨whole.count.trans counted, fun k q call factory component at_k here constructs => ?_⟩
      obtain ⟨binding, taken, bound, called, named⟩ := call_of_place source options.library at_k here constructs
      obtain ⟨k_low, -⟩ := List.getElem?_eq_some_iff.mp called
      have answered := List.getElem?_eq_getElem (as_many.symm ▸ k_low)
      exact ⟨binding.component, _, lists_of_lookup bound, whole.paired k taken _ called answered, named⟩
    · cases ran.symm.trans made
  · intro q member call factory component here constructs
    exact isReal_iff options written here constructs
  · intro q member call factory component here constructs factory_alone component_alone
    exact ⟨factory_alone.means written here constructs.kind 0, component_alone.means written here constructs.kind 2⟩

end

def pageOf (parameter : String) : String :=
  "import \x7bjsx\x7d from \"react/jsx-runtime\"\nimport \x7bA\x7d from \"lib\"\nexport const f=(" ++
    parameter ++ ")=>jsx(A,\x7b\x7d)"

def calledPlace : List Nat := [2, 0, 0, 1, 3]

theorem run_takes_by_name_unshadowed :
    ∃ tree places, Script.parse? (Script.Dialect.ofPage "page.js") (pageOf "b") = some tree ∧
      TakenByName sampleOptions (Import.scan (pageOf "b") "lib") tree
        (run sampleOptions sampleRenderer (pageOf "b") "page.js").result places ∧
      calledPlace ∈ places ∧ IsReal "lib" tree "jsx" "A" calledPlace := by
  have facts : (Script.parse? (Script.Dialect.ofPage "page.js") (pageOf "b")).any (fun tree =>
      decide (tree.ImportsAlone Import.runtimes "jsx") && (decide (tree.ImportsAlone ["lib"] "A") &&
        ((tree.at? calledPlace).any fun n => (Construction.ofNode? ["jsx"] [("A", ⟨"A", "a"⟩)] n).isSome))) = true := by
    decide +kernel
  obtain ⟨tree, parsed, facts⟩ := (Option.any_eq_true _ _).mp facts
  simp only [Bool.and_eq_true, decide_eq_true_eq] at facts
  obtain ⟨factory_alone, component_alone, called⟩ := facts
  obtain ⟨call, here, called⟩ := (Option.any_eq_true _ _).mp called
  have constructs := Constructs.of_ofNode called
  obtain ⟨places, taken⟩ := run_takes_by_name sampleOptions sampleRenderer (pageOf "b") "page.js" tree parsed
  have member : calledPlace ∈ places := (taken.exactly calledPlace).mpr
    ⟨by decide +kernel, call, "jsx", "A", "A", here, constructs, by decide +kernel, by decide +kernel⟩
  exact ⟨tree, places, parsed, taken, member,
    taken.alone calledPlace member call "jsx" "A" here constructs factory_alone component_alone⟩

def shadowedText : String :=
  "import \x7bjsx\x7d from \"react/jsx-runtime\"\n\nexport const f=(A)=>jsx(A$0,\x7b suppressHydrationWarning: true \x7d)"

def shadowedExtraction (tree : Node) : Extraction :=
  let scan := Import.scan (pageOf "A") "lib"
  Extraction.ofTree (pageOf "A") "lib" scan.factories (bindings sampleOptions.registry scan.library) tree

theorem run_takes_shadowed :
    ∃ output tree call, (run sampleOptions sampleRenderer (pageOf "A") "page.js").result = .ok (some output) ∧
      output.declarations.map (·.identifier) = ["A$0"] ∧
      Script.parse? (Script.Dialect.ofPage "page.js") (pageOf "A") = some tree ∧
      (shadowedExtraction tree).code.toList = shadowedText.toList ∧
      tree.at? calledPlace = some call ∧ Constructs "jsx" "A" call ∧
      tree.scope? "A" (calledPlace ++ [2]) = some [2, 0, 0, 1] ∧
      (tree.at? [2, 0, 0, 1]).map Node.kind = some .arrow ∧
      ¬ IsReal "lib" tree "jsx" "A" calledPlace := by
  have outcome : (run sampleOptions sampleRenderer (pageOf "A") "page.js").result.toOption.join.any (fun output =>
      decide (output.declarations.map (·.identifier) = ["A$0"])) = true := by
    decide +kernel
  obtain ⟨output, made, named⟩ := (Option.any_eq_true _ _).mp outcome
  have ran := run_of_toOption made
  have facts : (Script.parse? (Script.Dialect.ofPage "page.js") (pageOf "A")).any (fun tree =>
      decide ((shadowedExtraction tree).code.toList = shadowedText.toList) &&
        (((tree.at? calledPlace).any fun n => (Construction.ofNode? ["jsx"] [("A", ⟨"A", "a"⟩)] n).isSome) &&
          (tree.scope? "A" (calledPlace ++ [2]) == some [2, 0, 0, 1] &&
            (tree.at? [2, 0, 0, 1]).map Node.kind == some .arrow))) = true := by
    simp only [shadowedExtraction, Extraction.ofTree, String.toList_ofList]
    decide +kernel
  obtain ⟨tree, parsed, facts⟩ := (Option.any_eq_true _ _).mp facts
  simp only [Bool.and_eq_true, decide_eq_true_eq, beq_iff_eq] at facts
  obtain ⟨rewritten, called, inner, arrow⟩ := facts
  obtain ⟨call, here, called⟩ := (Option.any_eq_true _ _).mp called
  refine ⟨output, tree, call, ran, of_decide_eq_true named, parsed, rewritten, here, Constructs.of_ofNode called,
    inner, arrow, fun real => ?_⟩
  cases inner.symm.trans real.component.outermost

end Transform

end Prerender
