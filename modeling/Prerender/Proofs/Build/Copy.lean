import Prerender.Proofs.Build.Stage
import Prerender.Proofs.Wholeness

set_option autoImplicit false

namespace Prerender.Build

open FileTree (Place Entry)
open Prerender.Path (place passed stops under)

variable {build : Build} {here : Place} {tree now after : FileTree} {path : String} {paths : List String}
  {names : List String} {seen : List (List String)} {content : ByteArray} {summary : Summary}

structure Copied (build : Build) (here : Place) (tree : FileTree) (summary : Summary) (after : FileTree) : Prop where
  built : ∀ path, build.Visible tree path → ∃ content code, tree.read path = .ok content ∧
    build.loader.loadFile tree path = .ok code ∧
    after.read (build.target path) = .ok ((code.map String.toUTF8).getD content)
  kept : ∀ q content, (∀ path, build.Visible tree path → q ≠ place here (build.target path)) →
    (after.get? q = some (.file content) ↔ tree.get? q = some (.file content))
  source : ∀ q content, ¬ place here build.output <+: q →
    (after.get? q = some (.file content) ↔ tree.get? q = some (.file content))
  directories : ∀ q, after.get? q = some .directory ↔ tree.get? q = some .directory ∨
    ∃ path above, build.Visible tree path ∧ Path.parent? (build.target path) = some above ∧ q ∈ Path.route here above
  transformed : summary.transformed =
    (build.inputs (tree.filesUnder build.source)).countP (transforms build.loader tree)
  all : summary.transformed + summary.copied = (build.inputs (tree.filesUnder build.source)).length

theorem Meets.place_target (meets : build.Meets here tree path names content) :
    place here (build.target path) = place here build.output ++ names := by
  rw [meets.target_eq, Path.place_under meets.holds.are]

theorem load_of_image {bytes : ByteArray} (is : image build.loader tree path content = .ok bytes) :
    ∃ code, build.loader.loadFile tree path = .ok code ∧ (code.map String.toUTF8).getD content = bytes := by
  unfold image at is
  cases load : build.loader.loadFile tree path with
  | error error =>
      rw [load] at is
      cases is
  | ok code =>
      rw [load] at is
      exact ⟨code, rfl, Except.ok.inj is⟩

theorem Built.read {bytes : ByteArray} (fit : build.Fit here now)
    (built : build.Built here tree now names content bytes) :
    now.read (build.target (under build.source names)) = .ok bytes := by
  rw [built.meets.target_eq]
  have laid := built.laid
  have found := built.found
  obtain ⟨init, last, rfl, is, are, split⟩ := built.meets.split
  rw [split]
  refine FileTree.read_join is (open_of_ways fit.sound fit.stands laid) ?_
  rw [place_last build.output last fit.stands are]
  exact found

theorem Walk.mem_inputs_iff (told : build.Told here) (fit : build.Fit here tree) (walk : build.Walk tree paths) :
    path ∈ build.inputs paths ↔ build.Visible tree path := by
  rw [mem_inputs]
  exact ⟨fun ⟨member, input⟩ => visible_of_walks told fit walk.there member input,
    fun visible => ⟨walk.all path visible.there, visible.input⟩⟩

theorem Walk.perm_inputs (told : build.Told here) (fit : build.Fit here tree) (steady : build.Steady here tree now)
    (walk : build.Walk now paths) : (build.inputs paths).Perm (build.inputs (tree.filesUnder build.source)) := by
  refine (List.perm_ext_iff_of_nodup (walk.once.filter _) ((FileTree.filesUnder_nodup fit.sound _).filter _)).mpr ?_
  intro path
  change path ∈ build.inputs paths ↔ path ∈ build.inputs (tree.filesUnder build.source)
  rw [walk.mem_inputs_iff told steady.fit, steady.visible, (walk_filesUnder told fit).mem_inputs_iff told fit]

theorem Walk.tally_eq (told : build.Told here) (fit : build.Fit here tree) (steady : build.Steady here tree now)
    (walk : build.Walk now paths) :
    build.tally tree paths summary = build.tally tree (tree.filesUnder build.source) summary := by
  have perm := walk.perm_inputs told fit steady
  rw [tally, tally, perm.countP_eq, perm.countP_eq]

structure Done (build : Build) (here : Place) (tree after : FileTree) : Prop where
  steady : build.Steady here tree after
  built : ∀ {path names content}, build.Meets here tree path names content →
    ∃ bytes, build.Built here tree after names content bytes
  rest : ∀ q, (∀ path names content, build.Meets here tree path names content →
    q ≠ place here build.output ++ names ∧ q ∉ build.ways here names) → after.get? q = tree.get? q

theorem Walk.done (told : build.Told here) (fit : build.Fit here tree) (walk : build.Walk tree paths)
    (result : outcome (build.files paths ⟨0, 0⟩) tree = (.ok summary, after)) :
    summary = build.tally tree (tree.filesUnder build.source) ⟨0, 0⟩ ∧ build.Done here tree after := by
  obtain ⟨seen, are, stage, total⟩ := stage_files told fit (.start fit) walk.there result
  rw [List.nil_append] at stage
  have known {names : List String} : names ∈ seen → build.Visible tree (under build.source names) := fun member => by
    rw [← walk.mem_inputs_iff told fit, are]
    exact List.mem_map_of_mem member
  refine ⟨total.trans (walk.tally_eq told fit (.refl fit)), stage.steady, fun {path names content} meets => ?_, fun q aside => ?_⟩
  · have member := (walk.mem_inputs_iff told fit).mpr ((visible_iff told fit).mpr ⟨names, content, meets⟩)
    obtain ⟨same, there, is⟩ := List.mem_map.mp (are ▸ member)
    obtain ⟨content', bytes, built⟩ := stage.built same there
    obtain rfl := Path.under_injective built.meets.holds.are meets.holds.are (is.trans meets.holds.spelled)
    have alike := built.meets.holds.found.symm.trans meets.holds.found
    obtain rfl := Entry.file.inj (Option.some.inj alike)
    exact ⟨bytes, built⟩
  · refine stage.rest q fun names member => ?_
    obtain ⟨content, bytes, built⟩ := stage.built names member
    exact aside _ names content built.meets

-- Where a build has been: at an output, on the way to one, or not at all.
theorem where_touched (build : Build) (here : Place) (tree : FileTree) (q : Place) :
    (∃ path names content, build.Meets here tree path names content ∧ q = place here build.output ++ names) ∨
    (∃ path names content, build.Meets here tree path names content ∧ q ∈ build.ways here names) ∨
      ∀ path names content, build.Meets here tree path names content →
        q ≠ place here build.output ++ names ∧ q ∉ build.ways here names := by
  by_contra none
  push Not at none
  obtain ⟨no_target, no_way, path, names, content, meets, touched⟩ := none
  exact no_way path names content meets (touched (no_target path names content meets))

theorem Done.get?_eq (done : build.Done here tree after) (other : build.Done here tree now) (q : Place) :
    now.get? q = after.get? q := by
  rcases where_touched build here tree q with ⟨path, names, content, meets, rfl⟩ |
    ⟨path, names, content, meets, on_way⟩ | aside
  · obtain ⟨bytes, built⟩ := done.built meets
    obtain ⟨bytes', built'⟩ := other.built meets
    rw [built.found, built'.found, Except.ok.inj (built'.image.symm.trans built.image)]
  · obtain ⟨bytes, built⟩ := done.built meets
    obtain ⟨bytes', built'⟩ := other.built meets
    rw [built.laid q on_way, built'.laid q on_way]
  · rw [done.rest q aside, other.rest q aside]

theorem Done.directory_iff (told : build.Told here) (fit : build.Fit here tree) (done : build.Done here tree after)
    (q : Place) :
    after.get? q = some .directory ↔ tree.get? q = some .directory ∨
      ∃ path above, build.Visible tree path ∧ Path.parent? (build.target path) = some above ∧
        q ∈ Path.route here above := by
  constructor
  · intro is
    rcases where_touched build here tree q with ⟨path, names, content, meets, rfl⟩ |
      ⟨path, names, content, meets, on_way⟩ | aside
    · obtain ⟨bytes, built⟩ := done.built meets
      cases is.symm.trans built.found
    · obtain ⟨above, parent, same⟩ := meets.above
      rw [same] at on_way
      exact .inr ⟨path, above, (visible_iff told fit).mpr ⟨names, content, meets⟩, parent, on_way⟩
    · exact .inl ((done.rest q aside).symm.trans is)
  · rintro (is | ⟨path, above, visible, parent, on_way⟩)
    · exact done.steady.spares.grows q is
    · obtain ⟨names, content, meets⟩ := (visible_iff told fit).mp visible
      obtain ⟨above', parent', same⟩ := meets.above
      obtain rfl := Option.some.inj (parent.symm.trans parent')
      obtain ⟨bytes, built⟩ := done.built meets
      exact built.laid q (same ▸ on_way)

theorem Done.file_iff (told : build.Told here) (fit : build.Fit here tree) (done : build.Done here tree after)
    {q : Place} (aside : ∀ path, build.Visible tree path → q ≠ place here (build.target path)) :
    after.get? q = some (.file content) ↔ tree.get? q = some (.file content) := by
  rcases where_touched build here tree q with ⟨path, names, bytes, meets, rfl⟩ |
    ⟨path, names, bytes, meets, on_way⟩ | none
  · exact absurd meets.place_target.symm (aside path ((visible_iff told fit).mpr ⟨names, bytes, meets⟩))
  · obtain ⟨_, built⟩ := done.built meets
    refine ⟨fun is => (nomatch (built.laid q on_way).symm.trans is), fun is => ?_⟩
    exact absurd ⟨content, is⟩ (built.free.clear q on_way)
  · rw [done.rest q none]

theorem Done.copied (told : build.Told here) (fit : build.Fit here tree) (done : build.Done here tree after) :
    build.Copied here tree (build.tally tree (tree.filesUnder build.source) ⟨0, 0⟩) after where
  built path visible := by
    obtain ⟨names, content, meets⟩ := (visible_iff told fit).mp visible
    obtain ⟨bytes, built⟩ := done.built meets
    obtain ⟨code, load, rfl⟩ := load_of_image built.image
    have read := built.read done.steady.fit
    obtain rfl := meets.holds.spelled
    exact ⟨content, code, meets.read fit.sound, load, read⟩
  kept _ _ aside := done.file_iff told fit aside
  source := done.steady.spares.keeps
  directories := done.directory_iff told fit
  transformed := Nat.zero_add _
  all := by
    rw [List.length_eq_countP_add_countP (transforms build.loader tree)]
    simp [tally]

theorem Done.again (told : build.Told here) (fit : build.Fit here tree) (done : build.Done here tree after)
    (walk : build.Walk after paths) : outcome (build.files paths ⟨0, 0⟩) after =
      (.ok (build.tally tree (tree.filesUnder build.source) ⟨0, 0⟩), after) := by
  rw [← walk.tally_eq told fit done.steady]
  refine files_again fit done.steady ⟨0, 0⟩ fun path member => ?_
  have visible := (done.steady.visible path).mp ((walk.mem_inputs_iff told done.steady.fit).mp member)
  obtain ⟨names, content, meets⟩ := (visible_iff told fit).mp visible
  obtain ⟨bytes, built⟩ := done.built meets
  exact ⟨names, content, bytes, meets.holds.spelled, built⟩

theorem Done.other (told : build.Told here) (fit : build.Fit here tree) (done : build.Done here tree after)
    (walk : build.Walk tree paths) : ∃ same, outcome (build.files paths ⟨0, 0⟩) tree =
      (.ok (build.tally tree (tree.filesUnder build.source) ⟨0, 0⟩), same) ∧ ∀ q, same.get? q = after.get? q := by
  obtain ⟨total, same, result⟩ := files_succeed told fit (.start fit) walk.there ⟨0, 0⟩
    fun path _ names content meets => by
      obtain ⟨bytes, built⟩ := done.built meets
      have is := built.image
      rw [← meets.holds.spelled] at is
      exact ⟨built.free, bytes, is⟩
  obtain ⟨rfl, other⟩ := walk.done told fit result
  exact ⟨same, result, done.get?_eq other⟩

theorem visible_iff_of_plain (source : Path.Plain build.source) (output : Path.Plain build.output)
    (fit : build.Fit here tree) :
    build.Visible tree path ↔ path ∈ tree.filesUnder build.source ∧ ¬ place here build.output <+: place here path := by
  have told (there : path ∈ tree.filesUnder build.source) :
      build.isOutput path = true ↔ place here build.output <+: place here path := by
    obtain ⟨_, _, names, content, holds⟩ := fit.mem_files.mp there
    rw [holds.spelled, Path.place_under holds.are]
    exact isOutput_iff_of_plain source output holds.are
  exact ⟨fun ⟨there, input⟩ => ⟨there, by rw [← told there, input]; nofun⟩,
    fun ⟨there, outside⟩ => ⟨there, Bool.eq_false_iff.mpr fun is => outside ((told there).mp is)⟩⟩

/-- A build that succeeds copies faithfully, in whatever order it comes to the files, and building again over what
it has left changes nothing. A run is such a build, through a list of the files made at its begin. -/
theorem files_faithful (build : Build) (here : Place) (tree after : FileTree) (paths : List String) (summary : Summary)
    (source : Path.Plain build.source) (output : Path.Plain build.output) (fit : build.Fit here tree)
    (walk : build.Walk tree paths) (result : outcome (build.files paths ⟨0, 0⟩) tree = (.ok summary, after)) :
    (∀ path, build.Visible tree path ↔
        path ∈ tree.filesUnder build.source ∧ ¬ place here build.output <+: place here path) ∧
      build.Copied here tree summary after ∧
      (∀ others, build.Walk tree others → ∃ same, outcome (build.files others ⟨0, 0⟩) tree = (.ok summary, same) ∧
        ∀ q, same.get? q = after.get? q) ∧
      (∀ again, build.Walk after again → outcome (build.files again ⟨0, 0⟩) after = (.ok summary, after)) ∧
      (∃ same, outcome build.run tree = (.ok summary, same) ∧ ∀ q, same.get? q = after.get? q) ∧
      outcome build.run after = (.ok summary, after) := by
  have told := told_of_plain source output here
  obtain ⟨rfl, done⟩ := walk.done told fit result
  refine ⟨fun _ => visible_iff_of_plain source output fit, done.copied told fit, fun _ => done.other told fit,
    fun _ => done.again told fit, ?_, ?_⟩
  · rw [outcome_run]
    exact done.other told fit (walk_filesUnder told fit)
  · rw [outcome_run]
    exact done.again told fit (walk_filesUnder told done.steady.fit)

def sampleBuild (policy : Policy) (source output : String) : Build :=
  ⟨⟨Transform.sampleOptions, Transform.sampleRenderer, policy, Loader.defaultExtensions⟩, source, output⟩

def sampleTree : FileTree :=
  ⟨[(["src"], .directory), (["src", "page.js"], .file Transform.samplePage.toUTF8),
    (["src", "notes.txt"], .file "notes".toUTF8), (["src", "out"], .directory),
    (["src", "out", "kept.txt"], .file "kept".toUTF8)], ["src"]⟩

-- The output directory is below the source, and the walk comes to what has just been written there.
def sampleWalk : List String := ["/src/page.js", "/src/out/page.js", "/src/notes.txt", "/src/out/kept.txt"]

theorem files_faithful_inside :
    let build := sampleBuild .strict "/src" "/src/out"
    let here : Place := ["src"]
    Path.Plain build.source ∧ Path.Plain build.output ∧ build.Fit here sampleTree ∧ build.Walk sampleTree sampleWalk ∧
    ∃ after, outcome (build.files sampleWalk ⟨0, 0⟩) sampleTree = (.ok ⟨1, 1⟩, after) ∧
      (∀ path, build.Visible sampleTree path ↔
        path ∈ sampleTree.filesUnder build.source ∧ ¬ place here build.output <+: place here path) ∧
      build.Copied here sampleTree ⟨1, 1⟩ after ∧
      (∀ others, build.Walk sampleTree others → ∃ same,
        outcome (build.files others ⟨0, 0⟩) sampleTree = (.ok ⟨1, 1⟩, same) ∧ ∀ q, same.get? q = after.get? q) ∧
      (∀ again, build.Walk after again → outcome (build.files again ⟨0, 0⟩) after = (.ok ⟨1, 1⟩, after)) ∧
      (∃ same, outcome build.run sampleTree = (.ok ⟨1, 1⟩, same) ∧ ∀ q, same.get? q = after.get? q) ∧
      outcome build.run after = (.ok ⟨1, 1⟩, after) := by
  intro build here
  have source : Path.Plain build.source := by decide +kernel
  have output : Path.Plain build.output := by decide +kernel
  have fit : build.Fit here sampleTree := by decide +kernel
  have walk : build.Walk sampleTree sampleWalk := by decide +kernel
  have succeeds : (outcome (build.files sampleWalk ⟨0, 0⟩) sampleTree).1.toOption = some ⟨1, 1⟩ := by decide +kernel
  have result := outcome_eq_of_toOption succeeds
  exact ⟨source, output, fit, walk, _, result,
    files_faithful build here sampleTree _ sampleWalk ⟨1, 1⟩ source output fit walk result⟩

end Prerender.Build
