import Mathlib.Data.List.Nodup
import Mathlib.Data.List.Perm.Subperm
import Mathlib.Logic.Relation
import Prerender.Proofs.Build.Copy

set_option autoImplicit false

namespace Prerender.Build

open FileTree (Place)
open Prerender.Path (Component IsName components place passed under)

variable {build : Build} {here : Place} {tree now made after : FileTree} {path : String} {paths : List String}
  {names : List String} {content : ByteArray} {summary : Summary}

def Apart (build : Build) (here : Place) : Prop :=
  ¬ place here build.output <+: place here build.source ∧ ¬ place here build.source <+: place here build.output

def Aligned (build : Build) : Prop :=
  components build.output <+: components build.source ∨
    ∃ names : List String, components build.output = components build.source ++ names.map .name

theorem isOutput_under_iff (are : ∀ name ∈ names, IsName name) : build.isOutput (under build.source names) = true ↔
    components build.output <+: components build.source ++ names.map .name := by
  rw [isOutput, Path.isWithin_iff, Path.components_under are]

-- A single file that is passed over is enough to see it.
theorem aligned_of_output (are : ∀ name ∈ names, IsName name)
    (output : build.isOutput (under build.source names) = true) : build.Aligned := by
  have inside := (isOutput_under_iff are).mp output
  rcases List.prefix_or_prefix_of_prefix inside (List.prefix_append _ _) with begins | ⟨front, goes_on⟩
  · exact .inl begins
  · rw [← goes_on, List.prefix_append_right_inj] at inside
    obtain ⟨back, split⟩ := inside
    obtain ⟨names, -, -, rfl, -⟩ := List.map_eq_append_iff.mp split.symm
    exact .inr ⟨names, goes_on.symm⟩

theorem aligned_of_told (named : ∀ name ∈ here, IsName name) (told : build.Told here) (near : ¬ build.Apart here) :
    build.Aligned := by
  rcases not_and_or.mp near with above | below
  · have inside : place here build.output <+: place here build.source ++ [] := by
      rw [List.append_nil]
      exact not_not.mp above
    exact aligned_of_output (List.forall_mem_nil _) (told [] (List.forall_mem_nil _) inside)
  · obtain ⟨rest, same⟩ := not_not.mp below
    have are : ∀ name ∈ rest, IsName name := fun name member =>
      FileTree.isName_of_mem_place named build.output (same ▸ List.mem_append_right _ member)
    exact aligned_of_output are (told rest are (by rw [same]))

theorem told_of_aligned (aligned : build.Aligned) (here : Place) : build.Told here := by
  intro names are inside
  rw [isOutput_under_iff are]
  rcases aligned with begins | ⟨rest, goes_on⟩
  · exact begins.trans (List.prefix_append _ _)
  · have leads : place here build.output = place here build.source ++ rest := by
      rw [Path.place_eq_components, goes_on, List.foldl_append, ← Path.place_eq_components, Path.foldl_advance]
    rw [leads, List.prefix_append_right_inj] at inside
    rw [goes_on, List.prefix_append_right_inj]
    exact inside.map Component.name

theorem told_of_apart (apart : build.Apart here) : build.Told here := by
  intro names _ inside
  rcases List.prefix_or_prefix_of_prefix inside (List.prefix_append _ _) with above | below
  · exact absurd above apart.1
  · exact absurd below apart.2

theorem told_iff (build : Build) (standing : ∀ name ∈ here, IsName name) :
    build.Told here ↔ build.Apart here ∨ build.Aligned := by
  constructor
  · intro told
    by_cases near : build.Apart here
    · exact .inl near
    · exact .inr (aligned_of_told standing told near)
  · rintro (apart | aligned)
    · exact told_of_apart apart
    · exact told_of_aligned aligned here

-- A relative path and one from the root are never in line, though the one directory may be below the other.
example : ¬ (sampleBuild .strict "src" "/home/src/out").Told ["home"] := by
  intro told
  have output := told ["out"] (by decide) (by decide +kernel)
  revert output
  decide +kernel

theorem new_of_filed {result : Except Loader.Error Bool × FileTree} (meets : build.Meets here now path names content)
    (filed : Filed build here now path names content result) {q : Place} (file : result.2.IsFile q) :
    now.IsFile q ∨ q = place here build.output ++ names := by
  have old {made : FileTree} (lays : now.Lays (build.ways here names) made) (is : made.IsFile q) : now.IsFile q :=
    is.imp fun _ => lays.keeps.mp
  cases filed with
  | blocked _ => exact .inl file
  | refused lays _ => exact .inl (old lays file)
  | occupied lays _ => exact .inl (old lays file)
  | written lays _ _ _ =>
      by_cases target : place here build.output ++ names = q
      · exact .inr target.symm
      · unfold FileTree.IsFile at file
        rw [FileTree.get?_put meets.inner, if_neg target] at file
        exact .inl (old lays file)

def Known (build : Build) (here : Place) (tree : FileTree) (q : Place) : Prop :=
  tree.IsFile q ∨ ∃ path, build.Visible tree path ∧ q = place here (build.target path)

theorem Steady.known {q : Place} (steady : build.Steady here tree now)
    (old : ∀ q, now.IsFile q → build.Known here tree q) (known : build.Known here now q) :
    build.Known here tree q := by
  rcases known with file | ⟨path, visible, target⟩
  · exact old q file
  · exact .inr ⟨path, (steady.visible path).mp visible, target⟩

theorem known_of_leave (told : build.Told here) (fit : build.Fit here now) (there : path ∈ now.filesUnder build.source)
    (q : Place) (file : (build.leave now path).IsFile q) : build.Known here now q := by
  unfold leave at file
  split at file
  · exact .inl file
  · next input =>
    have visible : build.Visible now path := ⟨there, Bool.eq_false_iff.mpr input⟩
    obtain ⟨names, content, meets⟩ := (visible_iff told fit).mp visible
    refine (new_of_filed meets (filed_file meets fit.sound) file).imp_right fun target => ⟨path, visible, ?_⟩
    rw [target, meets.place_target]

theorem known_of_files (told : build.Told here) (fit : build.Fit here now) (walks : build.Walks now paths)
    (summary : Summary) (q : Place) (file : (outcome (build.files paths summary) now).2.IsFile q) :
    build.Known here now q := by
  induction paths generalizing now summary with
  | nil => exact .inl file
  | cons path paths ih =>
      obtain ⟨there, walks⟩ := walks
      have step := steady_leave told fit there
      have old := known_of_leave told fit there
      rw [outcome_files_cons] at file
      unfold leave at step walks old
      split at file
      · next output =>
        rw [if_pos output] at walks
        exact ih fit walks summary file
      · next input =>
        rw [if_neg input] at step walks old
        generalize outcome (build.file path) now = result at step walks old file
        rcases result with ⟨_ | transformed, made⟩
        · exact old q file
        · exact step.known old (ih step.fit walks _ file)

theorem walked (told : build.Told here) (fit : build.Fit here now) (walks : build.Walks now paths)
    (member : path ∈ paths) : (∃ names, (∀ name ∈ names, IsName name) ∧ path = under build.source names) ∧
      (path ∈ now.filesUnder build.source ∨
        ∃ origin, build.Visible now origin ∧ place here path = place here (build.target origin)) := by
  induction paths generalizing now with
  | nil => cases member
  | cons first paths ih =>
      obtain ⟨there, walks⟩ := walks
      obtain ⟨given, way, names, content, holds⟩ := fit.mem_files.mp there
      rcases List.mem_cons.mp member with rfl | member
      · exact ⟨⟨names, holds.are, holds.spelled⟩, .inl there⟩
      · have step := steady_leave told fit there
        obtain ⟨spelled, later | ⟨origin, visible, target⟩⟩ := ih step.fit walks member
        · refine ⟨spelled, ?_⟩
          obtain ⟨-, -, more, bytes, held⟩ := step.fit.mem_files.mp later
          have leads : place here path = place here build.source ++ more := by
            rw [held.spelled, Path.place_under held.are]
          rcases known_of_leave told fit there _ ⟨bytes, held.found⟩ with ⟨before, is⟩ | ⟨origin, visible, target⟩
          · exact .inl (fit.mem_files.mpr ⟨given, way, more, before, { held with found := is }⟩)
          · exact .inr ⟨origin, visible, leads.trans target⟩
        · exact ⟨spelled, .inr ⟨origin, (step.visible origin).mp visible, target⟩⟩

theorem walk_length_le (told : build.Told here) (fit : build.Fit here tree) (walks : build.Walks tree paths)
    (once : paths.Nodup) :
    paths.length ≤ (tree.filesUnder build.source).length + (build.inputs (tree.filesUnder build.source)).length := by
  have places : (paths.map (place here)).Nodup := by
    refine once.map_on fun path there other there' same => ?_
    obtain ⟨⟨names, are, rfl⟩, -⟩ := walked told fit walks there
    obtain ⟨⟨more, are', rfl⟩, -⟩ := walked told fit walks there'
    rw [Path.place_under are, Path.place_under are'] at same
    rw [List.append_cancel_left same]
  have found : paths.map (place here) ⊆ (tree.filesUnder build.source).map (place here) ++
      (build.inputs (tree.filesUnder build.source)).map fun path => place here (build.target path) := by
    intro q member
    obtain ⟨path, there, rfl⟩ := List.mem_map.mp member
    obtain ⟨-, before | ⟨origin, visible, target⟩⟩ := walked told fit walks there
    · exact List.mem_append_left _ (List.mem_map_of_mem before)
    · have input := ((walk_filesUnder told fit).mem_inputs_iff told fit).mpr visible
      exact List.mem_append_right _ (List.mem_map.mpr ⟨origin, input, target.symm⟩)
  have short := (List.subperm_of_subset places found).length_le
  simpa only [List.length_map, List.length_append] using short

def Leads (build : Build) (tree after : FileTree) : Prop :=
  ∃ paths summary, build.Walks tree paths ∧ after = (outcome (build.files paths summary) tree).2

theorem steady_of_leads (told : build.Told here) (fit : build.Fit here tree)
    (builds : Relation.ReflTransGen build.Leads tree after) :
    build.Steady here tree after ∧ ∀ q, after.IsFile q → build.Known here tree q := by
  induction builds with
  | refl => exact ⟨.refl fit, fun _ => .inl⟩
  | tail _ step ih =>
      obtain ⟨steady, old⟩ := ih
      obtain ⟨paths, summary, walks, rfl⟩ := step
      exact ⟨steady.trans (steady_files told steady.fit walks summary), fun q file =>
        steady.known old (known_of_files told steady.fit walks summary q file)⟩

/-- Wherever it is run, a build tells all files in its output directory for what they are exactly if that
directory lies apart from the source, or is spelled in line with it; if it is not spelled so, no file below the
source is passed over, and what is in the output directory is built into it once more, one level deeper. If all are
told, it takes no output for input: a walk builds only files that were there when it began, and outside of the output
directory, and it ends; and after any number of builds there are the same files to build, and no others than at first
but their outputs. -/
theorem told_unnested (build : Build) (here : Place) (standing : ∀ name ∈ here, IsName name) :
    (build.Told here ↔ build.Apart here ∨ build.Aligned) ∧
    (¬ build.Aligned → build.source ≠ "" → ∀ names, names ≠ [] → (∀ name ∈ names, IsName name) →
      build.isOutput (under build.source names) = false ∧
      place here (build.target (under build.source names)) = place here build.output ++ names) ∧
    (build.Told here → ∀ tree, build.Fit here tree →
      (∀ paths, build.Walks tree paths →
        (∀ path ∈ paths, build.isOutput path = true ∨
          path ∈ tree.filesUnder build.source ∧ ¬ place here build.output <+: place here path) ∧
        (paths.Nodup → paths.length ≤
          (tree.filesUnder build.source).length + (build.inputs (tree.filesUnder build.source)).length)) ∧
      ∀ after, Relation.ReflTransGen build.Leads tree after →
        (∀ path, build.Visible after path ↔ build.Visible tree path) ∧
          ∀ q, after.IsFile q → build.Known here tree q) := by
  refine ⟨told_iff build standing, fun other given names named are => ⟨?_, ?_⟩,
    fun told tree fit => ⟨fun paths walks => ⟨fun path member => ?_, walk_length_le told fit walks⟩, fun after builds => ?_⟩⟩
  · exact Bool.eq_false_iff.mpr fun output => other (aligned_of_output are output)
  · rw [target_under given are named, Path.place_under are]
  · cases input : build.isOutput path with
    | true => exact .inl rfl
    | false =>
        have visible := visible_of_walks told fit walks member input
        obtain ⟨names, content, meets⟩ := (visible_iff told fit).mp visible
        exact .inr ⟨visible.there, by rw [meets.place_path]; exact meets.apart⟩
  · obtain ⟨steady, known⟩ := steady_of_leads told fit builds
    exact ⟨steady.visible, known⟩

-- The paths begin in the working directory, and take a way round over another directory, but the same one.
def detourTree : FileTree :=
  ⟨[(["home"], .directory), (["home", "a"], .directory), (["home", "src"], .directory),
    (["home", "src", "x.txt"], .file "x".toUTF8), (["home", "src", "out"], .directory),
    (["home", "src", "out", "old.txt"], .file "old".toUTF8)], ["home"]⟩

def detourWalk : List String := ["a/../src/x.txt", "a/../src/out/x.txt", "a/../src/out/old.txt"]

theorem told_unnested_detour :
    let build := sampleBuild .strict "a/../src" "a/../src/out"
    let here : Place := ["home"]
    let after := (outcome (build.files detourWalk ⟨0, 0⟩) detourTree).2
    (∀ name ∈ here, IsName name) ∧ build.Told here ∧ build.Fit here detourTree ∧
    build.Walks detourTree detourWalk ∧ detourWalk.Nodup ∧
    (∀ path ∈ detourWalk, build.isOutput path = true ∨
      path ∈ detourTree.filesUnder build.source ∧ ¬ place here build.output <+: place here path) ∧
    detourWalk.length ≤ 2 + 1 ∧
    (∀ path, build.Visible after path ↔ build.Visible detourTree path) ∧
      ∀ q, after.IsFile q → build.Known here detourTree q := by
  intro build here after
  have standing : ∀ name ∈ here, IsName name := by decide
  have aligned : build.Aligned := .inr ⟨["out"], by decide +kernel⟩
  obtain ⟨tells, -, unnested⟩ := told_unnested build here standing
  have told : build.Told here := tells.mpr (.inr aligned)
  have fit : build.Fit here detourTree := by decide +kernel
  have walks : build.Walks detourTree detourWalk := by decide +kernel
  have once : detourWalk.Nodup := by decide
  obtain ⟨walk, builds⟩ := unnested told detourTree fit
  obtain ⟨visits, ends⟩ := walk detourWalk walks
  have short : (detourTree.filesUnder build.source).length +
      (build.inputs (detourTree.filesUnder build.source)).length = 2 + 1 := by decide +kernel
  have leads : Relation.ReflTransGen build.Leads detourTree after := .single ⟨detourWalk, ⟨0, 0⟩, walks, rfl⟩
  exact ⟨standing, told, fit, walks, once, visits, short ▸ ends once, builds after leads⟩

def respelledTree : FileTree := ⟨[(["src"], .directory), (["src", "a.txt"], .file "a".toUTF8)], []⟩

theorem respelled_nests :
    let build := sampleBuild .strict "src" "src/../src/out"
    let once := (outcome build.run respelledTree).2
    let twice := (outcome build.run once).2
    build.Fit [] respelledTree ∧ ¬ build.Told [] ∧
    build.Visible once "src/out/a.txt" ∧ place [] build.output <+: place [] "src/out/a.txt" ∧
    ¬ build.Visible respelledTree "src/out/a.txt" ∧ twice.IsFile ["src", "out", "out", "a.txt"] := by
  intro build once twice
  have fit : build.Fit [] respelledTree := by decide +kernel
  have passed_over : build.isOutput "src/out/a.txt" = false := by decide +kernel
  have there : "src/out/a.txt" ∈ once.filesUnder "src" := by decide +kernel
  have absent : "src/out/a.txt" ∉ respelledTree.filesUnder "src" := by decide +kernel
  have inside : place [] build.output <+: place [] build.source ++ ["out", "a.txt"] := by decide +kernel
  refine ⟨fit, fun told => ?_, ⟨there, passed_over⟩, by decide +kernel, fun visible => absent visible.there, by decide +kernel⟩
  have output := told ["out", "a.txt"] (by decide +kernel) inside
  revert output
  decide +kernel

end Prerender.Build
