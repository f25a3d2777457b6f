import Mathlib.Data.List.Nodup
import Prerender.Proofs.Declarations
import Prerender.Proofs.Orphans
import Prerender.Proofs.Shadowing

set_option autoImplicit false

namespace Prerender

open Script (Node Kind Span)

namespace Script.Node

variable {tree : Node} {name : String}

-- A name is declared somewhere, or the value of a variable is asked for by it.
def Uses (tree : Node) (name : String) : Prop := tree.Writes name ∨ ∃ p, tree.Names name p

theorem not_shadowed_of_unwritten (unwritten : ¬ tree.Writes name) (p : List Nat) : ¬ tree.Shadowed name p := by
  rintro ⟨s, i, r, m, -, -, there, member⟩
  exact unwritten ((writes_of_scopeNames member).above there)

end Script.Node

namespace Transform

def topNames (declarations : List Declaration) : List String :=
  creator :: ((if declarations.any Declaration.usesDynamic then [loader] else []) ++
    declarations.flatMap fun d => d.factories.map (·.name))

-- What a declaration is called by: the identifier of its call, and with `Fallback` behind it what stands in for it.
inductive Named (identifier : String) (d : Declaration) : Prop
  | plain : ¬ Lazy d → d.factories.map (·.name) = [identifier] → Named identifier d
  | loaded : Lazy d → d.factories.map (·.name) = [identifier ++ "Fallback", identifier] → Named identifier d

theorem named_build (call : ComponentCall) (rendered : Rendered) (strategy : Strategy) (library : String) :
    Named call.identifier (Declaration.build call rendered strategy library) := by
  rcases Declaration.build_cases call rendered strategy library with ⟨-, are⟩ | ⟨-, are⟩
  · refine .loaded ?_ (by rw [are]; rfl)
    rw [Lazy, are]
    exact ⟨_, List.mem_cons_of_mem _ (List.mem_singleton_self _), library, call.component, _, rfl⟩
  · refine .plain ?_ (by rw [are]; rfl)
    rintro ⟨f, member, _, _, _, loads⟩
    rw [are] at member
    obtain rfl := List.mem_singleton.mp member
    cases loads

theorem Named.mem_iff {identifier name : String} {d : Declaration} (named : Named identifier d) :
    name ∈ d.factories.map (·.name) ↔ name = identifier ∨ Lazy d ∧ name = identifier ++ "Fallback" := by
  cases named with
  | plain other are => simp [are, other]
  | loaded loads are => simp [are, loads, or_comm]

theorem Named.marked {identifier name : String} {d : Declaration} (named : Named identifier d)
    (mark : '$' ∈ identifier.toList) (member : name ∈ d.factories.map (·.name)) : '$' ∈ name.toList := by
  rcases named.mem_iff.mp member with rfl | ⟨-, rfl⟩
  · exact mark
  · rw [String.toList_append]
    exact List.mem_append_left _ mark

def generated (binding : Binding) (k : Nat) : String := binding.component ++ "$" ++ toString k

theorem generated_marked (binding : Binding) (k : Nat) : '$' ∈ (generated binding k).toList := by
  simp [generated, String.toList_append]

theorem names_nodup {calls : List ComponentCall} {declarations : List Declaration}
    (apart : (calls.map (·.identifier) ++ calls.map (·.identifier ++ "Fallback")).Nodup)
    (paired : ∀ (k : Nat) d, declarations[k]? = some d → ∃ call, calls[k]? = some call ∧ Named call.identifier d) :
    (declarations.flatMap fun d => d.factories.map (·.name)).Nodup := by
  obtain ⟨identifiers, fallbacks, between⟩ := List.nodup_append.mp apart
  have mine {k : Nat} {call : ComponentCall} (at_k : calls[k]? = some call) : call ∈ calls := List.mem_of_getElem? at_k
  refine List.nodup_flatMap.mpr ⟨fun d member => ?_, List.pairwise_iff_getElem.mpr fun j k j_low k_low less => ?_⟩
  · obtain ⟨k, at_k⟩ := List.mem_iff_getElem?.mp member
    obtain ⟨call, called, named⟩ := paired k d at_k
    cases named with
    | plain _ are => rw [are]; exact List.nodup_singleton _
    | loaded _ are => rw [are]; simp
  · obtain ⟨c, at_j, first⟩ := paired j _ (List.getElem?_eq_getElem j_low)
    obtain ⟨d, at_k, second⟩ := paired k _ (List.getElem?_eq_getElem k_low)
    have different : c.identifier ≠ d.identifier := by
      intro same
      have low : j < (calls.map (·.identifier)).length := by
        rw [List.length_map]
        exact (List.getElem?_eq_some_iff.mp at_j).1
      refine absurd ((List.getElem?_inj low identifiers).mp ?_) (Nat.ne_of_lt less)
      rw [List.getElem?_map, List.getElem?_map, at_j, at_k, Option.map_some, Option.map_some, same]
    intro name here there
    rcases first.mem_iff.mp here with rfl | ⟨-, rfl⟩ <;> rcases second.mem_iff.mp there with same | ⟨-, same⟩
    · exact different same
    · exact between _ (List.mem_map_of_mem (mine at_j)) _ (List.mem_map.mpr ⟨d, mine at_k, rfl⟩) same
    · exact between _ (List.mem_map_of_mem (mine at_k)) _ (List.mem_map.mpr ⟨c, mine at_j, rfl⟩) same.symm
    · exact different (String.append_left_inj _ |>.mp same)

inductive Declares : String → String → Prop
  | creator : Declares creator creatorImport
  | loader : Declares loader loaderImport
  | factory (name value : String) : Declares name ("const " ++ name ++ " = " ++ value ++ "\n")

theorem Named.code_eq {identifier : String} {d : Declaration} (named : Named identifier d) :
    d.code creator loader ++ "\n" = String.join (d.factories.map fun f => f.code creator loader ++ "\n") := by
  rw [Declaration.code]
  cases named with
  | plain _ are =>
      obtain ⟨f, is, -⟩ := List.map_eq_singleton_iff.mp are
      simp [is]
  | loaded _ are =>
      obtain ⟨f, fs, is, -, behind⟩ := List.map_eq_cons_iff.mp are
      obtain ⟨g, rfl, -⟩ := List.map_eq_singleton_iff.mp behind
      simp [is, String.append_assoc]

theorem block_statements (declarations : List Declaration)
    (named : ∀ d ∈ declarations, ∃ identifier, Named identifier d) :
    ∃ statements : List (String × String), block declarations = String.join (statements.map Prod.snd) ∧
      statements.map Prod.fst = topNames declarations ∧ ∀ s ∈ statements, Declares s.1 s.2 := by
  have written : String.join (declarations.map fun d => d.code creator loader ++ "\n") =
      String.join ((declarations.flatMap Declaration.factories).map fun f => f.code creator loader ++ "\n") := by
    induction declarations with
    | nil => rfl
    | cons d rest ih =>
        obtain ⟨⟨identifier, first⟩, others⟩ := List.forall_mem_cons.mp named
        rw [List.map_cons, String.join_cons, first.code_eq, ih others, List.flatMap_cons, List.map_append,
          String.join_append]
  refine ⟨(creator, creatorImport) :: ((if declarations.any Declaration.usesDynamic then [(loader, loaderImport)] else []) ++
    (declarations.flatMap Declaration.factories).map fun f => (f.name, f.code creator loader ++ "\n")), ?_, ?_, ?_⟩
  · rw [block, written]
    by_cases loads : declarations.any Declaration.usesDynamic = true <;>
      simp [loads, Function.comp_def, String.append_assoc]
  · by_cases loads : declarations.any Declaration.usesDynamic = true <;>
      simp [loads, topNames, Function.comp_def, List.map_flatMap]
  · intro s member
    rcases List.mem_cons.mp member with rfl | member
    · exact .creator
    · rcases List.mem_append.mp member with member | member
      · split at member
        · obtain rfl := List.mem_singleton.mp member
          exact .loader
        · cases member
      · obtain ⟨f, -, rfl⟩ := List.mem_map.mp member
        exact .factory f.name _

section
variable (options : Options) (scan : Import.Scan) (tree : Node)

def Numbered (k : Nat) (binding : Binding) : Prop :=
  ∃ q call factory component, (takenPlaces options scan tree)[k]? = some q ∧ tree.at? q = some call ∧
    Constructs factory component call ∧ (bindings options.registry scan.library).lookup component = some binding

-- The names that are made for the module: the constants, the second of them only if something is loaded later, and for
-- the call with the number `k` its identifier, with a second one if its component is loaded later.
def Made (declarations : List Declaration) (name : String) : Prop :=
  name = creator ∨ (name = loader ∧ ∃ d ∈ declarations, Lazy d) ∨
    ∃ k binding d, Numbered options scan tree k binding ∧ declarations[k]? = some d ∧
      (name = generated binding k ∨ Lazy d ∧ name = generated binding k ++ "Fallback")

structure Declared (declarations : List Declaration) : Prop where
  numbered : ∀ (k : Nat) d, declarations[k]? = some d → ∃ binding, Numbered options scan tree k binding
  named : ∀ k binding, Numbered options scan tree k binding →
    ∃ d, declarations[k]? = some d ∧ Named (generated binding k) d
  distinct : (declarations.flatMap fun d => d.factories.map (·.name)).Nodup

end

theorem Whole.built {options : Options} {extraction : Extraction} {rendered : List Rendered} {output : Output}
    (whole : Whole options extraction rendered output) (as_many : rendered.length = extraction.calls.length)
    {k : Nat} {d : Declaration} (at_k : output.declarations[k]? = some d) :
    ∃ call, extraction.calls[k]? = some call ∧ Named call.identifier d := by
  have low := (List.getElem?_eq_some_iff.mp at_k).1
  rw [whole.count] at low
  have called := List.getElem?_eq_getElem low
  have answered := List.getElem?_eq_getElem (as_many.symm ▸ low)
  obtain rfl := Option.some.inj (at_k.symm.trans (whole.paired k _ _ called answered))
  exact ⟨_, called, named_build _ _ _ _⟩

theorem declared_of_run (options : Options) (renderer : Renderer) (source path : String) (output : Output)
    (tree : Node) (ran : (run options renderer source path).result = .ok (some output))
    (parsed : Script.parse? (Script.Dialect.ofPage path) source = some tree) :
    Declared options (Import.scan source options.library) tree output.declarations := by
  rcases run_cases options renderer source path tree parsed with
    ⟨-, none⟩ | ⟨places, -, ⟨rendered, output', as_many, whole, made⟩ | ⟨cause, failed⟩⟩
  · cases none.symm.trans ran
  · obtain rfl := Option.some.inj (Except.ok.inj (made.symm.trans ran))
    refine ⟨fun k d at_k => ?_, fun k binding numbered => ?_, ?_⟩
    · obtain ⟨taken, called, -⟩ := whole.built as_many at_k
      have low := (List.getElem?_eq_some_iff.mp called).1
      simp only [Extraction.ofTree, List.length_mapIdx, Construction.length_all] at low
      have at_k := List.getElem?_eq_getElem low
      obtain ⟨call, binding, properties, here, is⟩ := (Construction.mem_places tree _).mp (List.getElem_mem low)
      obtain ⟨factory, component, constructs⟩ := Constructs.of_isConstruction is
      exact ⟨binding, _, call, factory, component, by rw [places]; exact at_k, here, constructs, (constructs.binding is).2⟩
    · obtain ⟨q, call, factory, component, at_k, here, constructs, bound⟩ := numbered
      rw [places] at at_k
      obtain ⟨binding', taken, bound', called, is⟩ := call_of_place source options.library at_k here constructs
      obtain rfl := Option.some.inj (bound.symm.trans bound')
      have low := (List.getElem?_eq_some_iff.mp called).1
      rw [← whole.count] at low
      have found := List.getElem?_eq_getElem low
      obtain ⟨taken', called', named⟩ := whole.built as_many found
      obtain rfl := Option.some.inj (called.symm.trans called')
      rw [is] at named
      exact ⟨_, found, named⟩
    · exact names_nodup (Construction.names_nodup _) fun k d at_k => whole.built as_many at_k
  · cases failed.symm.trans ran

section
variable {options : Options} {scan : Import.Scan} {tree : Node} {declarations : List Declaration} {name : String}

theorem mem_topNames : name ∈ topNames declarations ↔ name = creator ∨
    (name = loader ∧ ∃ d ∈ declarations, Lazy d) ∨ name ∈ declarations.flatMap fun d => d.factories.map (·.name) := by
  have loads : declarations.any Declaration.usesDynamic = true ↔ ∃ d ∈ declarations, Lazy d := by
    simp only [List.any_eq_true, uses_dynamic_iff]
  rw [topNames, List.mem_cons, List.mem_append, ← loads]
  by_cases is : declarations.any Declaration.usesDynamic = true <;> simp [is]

theorem Declared.at_number (declared : Declared options scan tree declarations) {k : Nat} {d : Declaration}
    (at_k : declarations[k]? = some d) :
    ∃ binding, Numbered options scan tree k binding ∧ Named (generated binding k) d := by
  obtain ⟨binding, numbered⟩ := declared.numbered k d at_k
  obtain ⟨d', at_k', named⟩ := declared.named k binding numbered
  obtain rfl := Option.some.inj (at_k.symm.trans at_k')
  exact ⟨binding, numbered, named⟩

theorem Declared.mem_iff (declared : Declared options scan tree declarations) :
    name ∈ topNames declarations ↔ Made options scan tree declarations name := by
  rw [mem_topNames, Made]
  refine or_congr Iff.rfl (or_congr Iff.rfl ?_)
  constructor
  · intro member
    obtain ⟨d, d_in, mine⟩ := List.mem_flatMap.mp member
    obtain ⟨k, at_k⟩ := List.mem_iff_getElem?.mp d_in
    obtain ⟨binding, numbered, named⟩ := declared.at_number at_k
    exact ⟨k, binding, d, numbered, at_k, named.mem_iff.mp mine⟩
  · rintro ⟨k, binding, d, numbered, at_k, shape⟩
    obtain ⟨d', at_k', named⟩ := declared.named k binding numbered
    obtain rfl := Option.some.inj (at_k.symm.trans at_k')
    exact List.mem_flatMap.mpr ⟨d, List.mem_of_getElem? at_k, named.mem_iff.mpr shape⟩

theorem Declared.marked (declared : Declared options scan tree declarations)
    (member : name ∈ declarations.flatMap fun d => d.factories.map (·.name)) : '$' ∈ name.toList := by
  obtain ⟨d, d_in, mine⟩ := List.mem_flatMap.mp member
  obtain ⟨k, at_k⟩ := List.mem_iff_getElem?.mp d_in
  obtain ⟨binding, -, named⟩ := declared.at_number at_k
  exact named.marked (generated_marked binding k) mine

theorem Declared.topNames_nodup (declared : Declared options scan tree declarations) :
    (topNames declarations).Nodup := by
  have unmarked (name : String) (plain : '$' ∉ name.toList) :
      name ∉ declarations.flatMap fun d => d.factories.map (·.name) := fun member => plain (declared.marked member)
  have creator_apart := unmarked creator (by decide)
  have loader_apart := unmarked loader (by decide)
  have other : creator ≠ loader := by decide
  rw [topNames]
  by_cases is : declarations.any Declaration.usesDynamic = true
  · rw [if_pos is, List.singleton_append, List.nodup_cons, List.nodup_cons, List.mem_cons, not_or]
    exact ⟨⟨other, creator_apart⟩, loader_apart, declared.distinct⟩
  · rw [if_neg is, List.nil_append, List.nodup_cons]
    exact ⟨creator_apart, declared.distinct⟩

end

def Fresh (tree : Node) (declarations : List Declaration) : Prop := ∀ name ∈ topNames declarations, ¬ tree.Uses name

/-- The names at the head of a module that is rewritten are the two constants and those that the calls are numbered by,
and no others. They differ from one another, and each is declared by one statement of one block. They are fresh exactly if no
name that the module uses is one of them. A name that is not used is declared by no scope of the module and asked for
nowhere in it, so it means the new declaration wherever it is put. Without `$` and the constants in its names a module is
safe. -/
theorem run_fresh_iff (options : Options) (renderer : Renderer) (source path : String) (output : Output) (tree : Node)
    (ran : (run options renderer source path).result = .ok (some output))
    (parsed : Script.parse? (Script.Dialect.ofPage path) source = some tree) :
    let scan := Import.scan source options.library
    let top := topNames output.declarations
    (∃ (before after : String) (statements : List (String × String)),
      output.code = before ++ String.join (statements.map Prod.snd) ++ after ∧
      statements.map Prod.fst = top ∧ ∀ s ∈ statements, Declares s.1 s.2) ∧
    top.Nodup ∧
    (∀ name, name ∈ top ↔ Made options scan tree output.declarations name) ∧
    (Fresh tree output.declarations ↔ ∀ name, tree.Uses name → ¬ Made options scan tree output.declarations name) ∧
    (∀ name ∈ top, ¬ tree.Uses name →
      (∀ i, name ∉ tree.scopeNames i) ∧ (∀ p, ¬ tree.Shadowed name p) ∧ ∀ p, ¬ tree.Names name p) ∧
    ((∀ name, tree.Uses name → '$' ∉ name.toList ∧ name ≠ creator ∧ name ≠ loader) → Fresh tree output.declarations) := by
  intro scan top
  have declared := declared_of_run options renderer source path output tree ran parsed
  have made (name : String) : name ∈ top ↔ Made options scan tree output.declarations name := declared.mem_iff
  refine ⟨?_, declared.topNames_nodup, made, ⟨fun fresh name used is => ?_, fun apart name member used => ?_⟩,
    fun name _ unused => ⟨fun i member => ?_, ?_, fun p names => unused (.inr ⟨p, names⟩)⟩, fun plain name member used => ?_⟩
  · obtain ⟨before, after, -, is⟩ := inserted_of_run options renderer source path output tree ran parsed
    obtain ⟨statements, are, names, declares⟩ := block_statements output.declarations fun d member =>
      have ⟨k, at_k⟩ := List.mem_iff_getElem?.mp member
      have ⟨binding, _, named⟩ := declared.at_number at_k
      ⟨generated binding k, named⟩
    exact ⟨before, after, statements, by rw [is, are], names, declares⟩
  · exact fresh name ((made name).mpr is) used
  · exact apart name used ((made name).mp member)
  · exact unused (.inl (Node.writes_of_scopeNames member))
  · exact Node.not_shadowed_of_unwritten fun writes => unused (.inl writes)
  · obtain ⟨unmarked, no_creator, no_loader⟩ := plain name used
    rcases mem_topNames.mp member with rfl | ⟨rfl, -⟩ | member
    · exact no_creator rfl
    · exact no_loader rfl
    · exact unmarked (declared.marked member)

def shadowRenderer : Renderer :=
  ⟨fun _ => .ok ⟨some "<a>\n<template shadowrootmode=\"open\">\n</template>\n</a>", []⟩, fun _ => ""⟩

def laterOptions : Options := { sampleOptions with strategy := .nextjs }

theorem run_fresh_iff_later :
    ∃ output tree, (run laterOptions shadowRenderer samplePage "page.js").result = .ok (some output) ∧
      Script.parse? (Script.Dialect.ofPage "page.js") samplePage = some tree ∧
      topNames output.declarations = [creator, loader, "A$0Fallback", "A$0", "A$1Fallback", "A$1"] ∧
      (topNames output.declarations).Nodup ∧
      (Fresh tree output.declarations ↔ ∀ name, tree.Uses name →
        ¬ Made laterOptions (Import.scan samplePage "lib") tree output.declarations name) := by
  have outcome : (run laterOptions shadowRenderer samplePage "page.js").result.toOption.join.any (fun output =>
      decide (topNames output.declarations = [creator, loader, "A$0Fallback", "A$0", "A$1Fallback", "A$1"])) = true := by
    decide +kernel
  obtain ⟨output, made, named⟩ := (Option.any_eq_true _ _).mp outcome
  have ran := run_of_toOption made
  obtain ⟨tree, parsed⟩ : ∃ tree, Script.parse? (Script.Dialect.ofPage "page.js") samplePage = some tree :=
    Option.isSome_iff_exists.mp (by decide +kernel)
  obtain ⟨-, distinct, -, fresh, -⟩ := run_fresh_iff laterOptions shadowRenderer samplePage "page.js" output tree ran parsed
  exact ⟨output, tree, ran, parsed, of_decide_eq_true named, distinct, fresh⟩

def clashingPage : String :=
  "import \x7bjsx\x7d from \"react/jsx-runtime\"\nimport \x7bA\x7d from \"lib\"\nconst A$0=1\njsx(A,\x7b\x7d)"

def clashingText : String :=
  "import \x7bjsx\x7d from \"react/jsx-runtime\"\n\nconst A$0=1\njsx(A$0,\x7b suppressHydrationWarning: true \x7d)"

def clashingExtraction (tree : Node) : Extraction :=
  let scan := Import.scan clashingPage sampleOptions.library
  Extraction.ofTree clashingPage sampleOptions.library scan.factories (bindings sampleOptions.registry scan.library) tree

theorem run_clashes :
    ∃ output tree before after, (run sampleOptions sampleRenderer clashingPage "page.js").result = .ok (some output) ∧
      Script.parse? (Script.Dialect.ofPage "page.js") clashingPage = some tree ∧
      output.code = before ++ block output.declarations ++ after ∧ (before ++ after).toList = clashingText.toList ∧
      "A$0" ∈ topNames output.declarations ∧ "A$0" ∈ tree.scopeNames 0 ∧ ¬ Fresh tree output.declarations := by
  have outcome : (run sampleOptions sampleRenderer clashingPage "page.js").result.toOption.join.any (fun output =>
      decide ("A$0" ∈ topNames output.declarations)) = true := by
    decide +kernel
  obtain ⟨output, made, named⟩ := (Option.any_eq_true _ _).mp outcome
  have named := of_decide_eq_true named
  have ran := run_of_toOption made
  have own : (Script.parse? (Script.Dialect.ofPage "page.js") clashingPage).any (fun tree =>
      decide ("A$0" ∈ tree.scopeNames 0) &&
        decide ((clashingExtraction tree).code.toList = clashingText.toList)) = true := by
    simp only [clashingExtraction, Extraction.code_toList]
    decide +kernel
  obtain ⟨tree, parsed, facts⟩ := (Option.any_eq_true _ _).mp own
  simp only [Bool.and_eq_true, decide_eq_true_eq] at facts
  obtain ⟨declared, kept⟩ := facts
  obtain ⟨before, after, split, is⟩ :=
    inserted_of_run sampleOptions sampleRenderer clashingPage "page.js" output tree ran parsed
  exact ⟨output, tree, before, after, ran, parsed, is, split ▸ kept, named, declared,
    fun fresh => fresh "A$0" named (.inl (Node.writes_of_scopeNames declared))⟩

end Transform

end Prerender
