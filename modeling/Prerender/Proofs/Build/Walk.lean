import Prerender.Proofs.Build.Step

set_option autoImplicit false

/-!
Building file after file while walking through the source. A walk may come to its files in any order, also to
those that the build has written before it gets there. If files in the output directory are told by their
spelling, the files to build stay the same all the way, and so does everything outside of that directory.
-/
namespace Prerender.Build

open FileTree (Place)
open Prerender.Path (IsName place stops under)

variable {build : Build} {here : Place} {tree now made after : FileTree} {path : String} {paths : List String}
  {names : List String} {content bytes : ByteArray} {summary : Summary}

-- A file below the source that is in the output directory is told by its spelling, if the working directory is `here`.
def Told (build : Build) (here : Place) : Prop := ∀ names, (∀ name ∈ names, IsName name) →
  place here build.output <+: place here build.source ++ names → build.isOutput (under build.source names) = true

theorem isOutput_iff_of_plain (source : Path.Plain build.source) (output : Path.Plain build.output)
    (are : ∀ name ∈ names, IsName name) :
    build.isOutput (under build.source names) = true ↔
      place here build.output <+: place here build.source ++ names := by
  rw [isOutput, Path.isWithin_iff, Path.components_under are, source.components_eq here, output.components_eq here,
    List.cons_append, List.cons_prefix_cons, ← List.map_append, List.prefix_map_iff_of_injective Path.name_injective]
  exact and_iff_right rfl

theorem told_of_plain (source : Path.Plain build.source) (output : Path.Plain build.output) (here : Place) :
    build.Told here := fun _ are => (isOutput_iff_of_plain source output are).mpr

structure Fit (build : Build) (here : Place) (tree : FileTree) : Prop where
  sound : tree.Sound
  stands : tree.directory = here
  folder : ¬ tree.IsFile (place here build.source)

instance (build : Build) (here : Place) (tree : FileTree) : Decidable (build.Fit here tree) :=
  decidable_of_iff (tree.Sound ∧ tree.directory = here ∧ ¬ tree.IsFile (place here build.source))
    ⟨fun ⟨sound, stands, folder⟩ => ⟨sound, stands, folder⟩, fun ⟨sound, stands, folder⟩ => ⟨sound, stands, folder⟩⟩

theorem Fit.mem_files (fit : build.Fit here tree) : path ∈ tree.filesUnder build.source ↔
    build.source ≠ "" ∧ tree.Open build.source ∧ ∃ names content, tree.Holds here build.source path names content := by
  obtain ⟨sound, rfl, folder⟩ := fit
  exact FileTree.mem_filesUnder sound folder

structure Visible (build : Build) (tree : FileTree) (path : String) : Prop where
  there : path ∈ tree.filesUnder build.source
  input : build.isOutput path = false

theorem visible_iff (told : build.Told here) (fit : build.Fit here tree) :
    build.Visible tree path ↔ ∃ names content, build.Meets here tree path names content := by
  constructor
  · rintro ⟨there, input⟩
    obtain ⟨given, way, names, content, holds⟩ := fit.mem_files.mp there
    refine ⟨names, content, fit.stands, given, way, holds, input, fun inside => ?_⟩
    rw [holds.spelled, told names holds.are inside] at input
    cases input
  · rintro ⟨names, content, meets⟩
    exact ⟨fit.mem_files.mpr ⟨meets.given, meets.way, names, content, meets.holds⟩, meets.input⟩

-- Directories stay, files stay files, and outside of the output directory each file is as it was.
structure Spares (build : Build) (here : Place) (before after : FileTree) : Prop where
  stands : after.directory = before.directory
  sound : before.Sound → after.Sound
  grows : ∀ q, before.get? q = some .directory → after.get? q = some .directory
  files : ∀ q, before.IsFile q → after.IsFile q
  keeps : ∀ q content, ¬ place here build.output <+: q →
    (after.get? q = some (.file content) ↔ before.get? q = some (.file content))

theorem Spares.refl (tree : FileTree) : Spares build here tree tree :=
  ⟨rfl, id, fun _ => id, fun _ => id, fun _ _ _ => Iff.rfl⟩

theorem Spares.trans (first : build.Spares here tree made) (second : build.Spares here made after) :
    build.Spares here tree after :=
  ⟨second.stands.trans first.stands, second.sound ∘ first.sound, fun q => second.grows q ∘ first.grows q,
    fun q => second.files q ∘ first.files q,
    fun q content apart => (second.keeps q content apart).trans (first.keeps q content apart)⟩

theorem spares_of_lays {ways : List Place} (lays : tree.Lays ways made) : build.Spares here tree made :=
  ⟨lays.directory, lays.sound, fun _ => lays.grows, fun _ ⟨content, is⟩ => ⟨content, lays.keeps.mpr is⟩,
    fun _ _ _ => lays.keeps⟩

theorem written_sound (meets : build.Meets here now path names content) (sound : now.Sound)
    (lays : now.Lays (build.ways here names) made)
    (free : made.get? (place here build.output ++ names) ≠ some .directory) :
    (made.put (place here build.output ++ names) (.file bytes)).Sound := by
  obtain ⟨init, last, rfl, is, are, -⟩ := meets.split
  have above := (open_of_lays sound meets.stands lays).place
  rw [lays.directory, meets.stands, Path.place_under are] at above
  rw [← List.append_assoc] at free ⊢
  exact (lays.sound sound).put is above free

theorem Meets.inner (meets : build.Meets here now path names content) : place here build.output ++ names ≠ [] := by
  simp [meets.holds.named]

theorem spares_of_filed {result : Except Loader.Error Bool × FileTree} (meets : build.Meets here now path names content)
    (sound : now.Sound) (filed : Filed build here now path names content result) : build.Spares here now result.2 := by
  cases filed with
  | blocked _ => exact .refl now
  | refused lays _ => exact spares_of_lays lays
  | occupied lays _ => exact spares_of_lays lays
  | @written made bytes _ lays free =>
      have entries := @FileTree.get?_put made _ meets.inner (.file bytes)
      refine (spares_of_lays lays).trans ⟨rfl, fun _ => written_sound meets sound lays free, fun q is => ?_,
        fun q ⟨content, is⟩ => ?_, fun q content apart => ?_⟩
      · rw [entries, if_neg fun same => free (by rw [same, is]), is]
      · by_cases same : place here build.output ++ names = q
        · exact ⟨bytes, by rw [entries, if_pos same]⟩
        · exact ⟨content, by rw [entries, if_neg same, is]⟩
      · rw [entries, if_neg fun same => apart (by rw [← same]; exact List.prefix_append _ _)]

theorem Meets.spares (meets : build.Meets here now path names content) (sound : now.Sound) :
    build.Spares here now (outcome (build.file path) now).2 := spares_of_filed meets sound (filed_file meets sound)

theorem Spares.meets (spares : build.Spares here tree after) (meets : build.Meets here tree path names content) :
    build.Meets here after path names content where
  stands := spares.stands.trans meets.stands
  given := meets.given
  way := meets.way.mono spares.stands spares.grows
  holds := { meets.holds with found := (spares.keeps _ _ meets.apart).mpr meets.holds.found }
  input := meets.input
  apart := meets.apart

theorem Spares.meets_back (spares : build.Spares here tree after) (way : tree.Open build.source)
    (meets : build.Meets here after path names content) : build.Meets here tree path names content where
  stands := spares.stands.symm.trans meets.stands
  given := meets.given
  way := way
  holds := { meets.holds with found := (spares.keeps _ _ meets.apart).mp meets.holds.found }
  input := meets.input
  apart := meets.apart

def leave (build : Build) (tree : FileTree) (path : String) : FileTree :=
  if build.isOutput path then tree else (outcome (build.file path) tree).2

def Walks (build : Build) : FileTree → List String → Prop
  | _, [] => True
  | tree, path :: paths => path ∈ tree.filesUnder build.source ∧ Walks build (build.leave tree path) paths

-- A whole walk comes to no file twice, and to all that were there when it began.
structure Walk (build : Build) (tree : FileTree) (paths : List String) : Prop where
  there : build.Walks tree paths
  once : paths.Nodup
  all : ∀ path ∈ tree.filesUnder build.source, path ∈ paths

instance decidableWalks (build : Build) (paths : List String) (tree : FileTree) : Decidable (build.Walks tree paths) :=
  match paths with
  | [] => .isTrue trivial
  | path :: paths => @instDecidableAnd _ _ _ (decidableWalks build paths (build.leave tree path))

instance (build : Build) (tree : FileTree) (paths : List String) : Decidable (build.Walk tree paths) :=
  decidable_of_iff (build.Walks tree paths ∧ paths.Nodup ∧ ∀ path ∈ tree.filesUnder build.source, path ∈ paths)
    ⟨fun ⟨there, once, all⟩ => ⟨there, once, all⟩, fun ⟨there, once, all⟩ => ⟨there, once, all⟩⟩

theorem outcome_files_cons (build : Build) (path : String) (paths : List String) (summary : Summary)
    (tree : FileTree) : outcome (build.files (path :: paths) summary) tree =
      if build.isOutput path then outcome (build.files paths summary) tree
      else
        match outcome (build.file path) tree with
        | (.ok transformed, made) => outcome (build.files paths (summary.add transformed)) made
        | (.error error, made) => (.error error, made) := by
  rw [files]
  split
  · rfl
  · rw [outcome_bind]
    cases outcome (build.file path) tree with
    | mk result made => cases result <;> rfl

-- What a build leaves as it is on its way: it keeps to the frame, and finds the same files to build.
structure Steady (build : Build) (here : Place) (before after : FileTree) : Prop where
  fit : build.Fit here after
  spares : build.Spares here before after
  stays : ∀ path ∈ before.filesUnder build.source, path ∈ after.filesUnder build.source
  visible : ∀ path, build.Visible after path ↔ build.Visible before path

theorem Steady.refl (fit : build.Fit here tree) : build.Steady here tree tree :=
  ⟨fit, .refl tree, fun _ => id, fun _ => Iff.rfl⟩

theorem Steady.trans (first : build.Steady here tree made) (second : build.Steady here made after) :
    build.Steady here tree after :=
  ⟨second.fit, first.spares.trans second.spares, fun path => second.stays path ∘ first.stays path,
    fun path => (second.visible path).trans (first.visible path)⟩

theorem Meets.steady (told : build.Told here) (fit : build.Fit here now)
    (meets : build.Meets here now path names content) : build.Steady here now (outcome (build.file path) now).2 := by
  have spares := meets.spares fit.sound
  have fit_after : build.Fit here (outcome (build.file path) now).2 := by
    refine ⟨spares.sound fit.sound, spares.stands.trans fit.stands, fun ⟨content, is⟩ => fit.folder ⟨content, ?_⟩⟩
    exact (spares.keeps _ _ fun above => meets.apart (above.trans (List.prefix_append _ _))).mp is
  refine ⟨fit_after, spares, fun other there => ?_, fun other => ?_⟩
  · obtain ⟨given, way, names, content, holds⟩ := fit.mem_files.mp there
    obtain ⟨content', found⟩ := spares.files _ ⟨content, holds.found⟩
    exact fit_after.mem_files.mpr
      ⟨given, way.mono spares.stands spares.grows, names, content', { holds with found := found }⟩
  · rw [visible_iff told fit, visible_iff told fit_after]
    exact ⟨fun ⟨names, content, other⟩ => ⟨names, content, spares.meets_back meets.way other⟩,
      fun ⟨names, content, other⟩ => ⟨names, content, spares.meets other⟩⟩

theorem steady_leave (told : build.Told here) (fit : build.Fit here now) (there : path ∈ now.filesUnder build.source) :
    build.Steady here now (build.leave now path) := by
  unfold leave
  split
  · exact .refl fit
  · next input =>
    obtain ⟨names, content, meets⟩ := (visible_iff told fit).mp ⟨there, Bool.eq_false_iff.mpr input⟩
    exact meets.steady told fit

theorem steady_files (told : build.Told here) (fit : build.Fit here now) (walks : build.Walks now paths)
    (summary : Summary) : build.Steady here now (outcome (build.files paths summary) now).2 := by
  induction paths generalizing now summary with
  | nil => exact .refl fit
  | cons path paths ih =>
      obtain ⟨there, walks⟩ := walks
      have step := steady_leave told fit there
      rw [outcome_files_cons]
      unfold leave at step walks
      split
      · next output =>
        rw [if_pos output] at walks
        exact ih fit walks summary
      · next input =>
        rw [if_neg input] at step walks
        generalize outcome (build.file path) now = result at step walks
        rcases result with ⟨_ | transformed, made⟩
        · exact step
        · exact step.trans (ih step.fit walks _)

theorem visible_of_walks (told : build.Told here) (fit : build.Fit here now) (walks : build.Walks now paths)
    (member : path ∈ paths) (input : build.isOutput path = false) : build.Visible now path := by
  induction paths generalizing now with
  | nil => cases member
  | cons first paths ih =>
      obtain ⟨there, walks⟩ := walks
      rcases List.mem_cons.mp member with rfl | member
      · exact ⟨there, input⟩
      · have step := steady_leave told fit there
        exact (step.visible path).mp (ih step.fit walks member)

theorem walk_filesUnder (told : build.Told here) (fit : build.Fit here tree) :
    build.Walk tree (tree.filesUnder build.source) := by
  have walks (paths : List String) : ∀ now, build.Fit here now → (∀ path ∈ paths, path ∈ now.filesUnder build.source) →
      build.Walks now paths := by
    induction paths with
    | nil => exact fun _ _ _ => trivial
    | cons path paths ih =>
        intro now fit there
        rw [List.forall_mem_cons] at there
        have step := steady_leave told fit there.1
        exact ⟨there.1, ih _ step.fit fun path member => step.stays path (there.2 path member)⟩
  exact ⟨walks _ tree fit fun _ => id, FileTree.filesUnder_nodup fit.sound _, fun _ => id⟩

theorem outcome_run (build : Build) (tree : FileTree) :
    outcome build.run tree = outcome (build.files (tree.filesUnder build.source) ⟨0, 0⟩) tree := by
  rw [run, outcome_bind]
  rfl

end Prerender.Build
