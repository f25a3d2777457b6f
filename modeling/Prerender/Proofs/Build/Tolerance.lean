import Prerender.Proofs.Build.Copy

set_option autoImplicit false

namespace Prerender

namespace Loader

variable {loader : Loader} {tree : FileTree} {path : String} {content : ByteArray}

def Legible (loader : Loader) (path : String) (content : ByteArray) : Prop :=
  loader.handles path = true → (String.fromUTF8? content).isSome = true

theorem loadFile_of_read (found : tree.read path = .ok content) : loader.loadFile tree path =
    if loader.handles path then
      match String.fromUTF8? content with
      | some text => (loader.load text path).result
      | none => .error (.file path .notText)
    else .ok none := by
  have text : tree.readText path = (String.fromUTF8? content).elim (.error .notText) .ok := by
    rw [FileTree.readText, found]
    simp only [bind, Except.bind]
    cases String.fromUTF8? content <;> rfl
  rw [loadFile, text]
  cases String.fromUTF8? content <;> simp only [Option.elim]

theorem load_tolerant (tolerant : loader.policy = .tolerant) (source id : String) :
    ∃ code, (loader.load source id).result = .ok code := by
  unfold load
  split
  · simp only [tolerant]
    cases (Transform.run loader.options loader.renderer source id).result with
    | ok output => exact ⟨_, rfl⟩
    | error cause => exact ⟨none, rfl⟩
  · exact ⟨none, rfl⟩

theorem loadFile_tolerant (tolerant : loader.policy = .tolerant) (found : tree.read path = .ok content) :
    loader.Legible path content ∧ (∃ code, loader.loadFile tree path = .ok code) ∨
      ¬ loader.Legible path content ∧ loader.loadFile tree path = .error (.file path .notText) := by
  rw [loadFile_of_read found, Legible]
  by_cases handled : loader.handles path = true
  · rw [if_pos handled]
    cases text : String.fromUTF8? content with
    | some source => exact .inl ⟨fun _ => rfl, load_tolerant tolerant source path⟩
    | none => exact .inr ⟨fun legible => (nomatch legible handled), rfl⟩
  · rw [if_neg handled]
    exact .inl ⟨fun is => absurd is handled, none, rfl⟩

theorem loadFile_tolerant_iff (tolerant : loader.policy = .tolerant) (found : tree.read path = .ok content) :
    (∃ code, loader.loadFile tree path = .ok code) ↔ loader.Legible path content := by
  rcases loadFile_tolerant tolerant found with ⟨legible, loads⟩ | ⟨illegible, fails⟩
  · exact iff_of_true loads legible
  · rw [fails]
    exact iff_of_false (fun ⟨_, ok⟩ => nomatch ok) illegible

def withPolicy (loader : Loader) (policy : Policy) : Loader := { loader with policy := policy }

theorem handles_withPolicy (loader : Loader) (policy : Policy) (id : String) :
    (loader.withPolicy policy).handles id = loader.handles id := by
  unfold handles
  cases Path.extension? (Path.withoutQuery id) <;> rfl

theorem load_of_strict {source id : String} {code : Option String} (policy : Policy)
    (strict : ((loader.withPolicy .strict).load source id).result = .ok code) :
    ((loader.withPolicy policy).load source id).result = .ok code := by
  unfold load at strict ⊢
  rw [handles_withPolicy] at strict ⊢
  by_cases handled : loader.handles id = true
  · simp only [if_pos handled, withPolicy] at strict ⊢
    cases result : (Transform.run loader.options loader.renderer source id).result with
    | ok output =>
        rw [result] at strict
        exact strict
    | error cause =>
        rw [result] at strict
        cases strict
  · rw [if_neg handled] at strict ⊢
    exact strict

theorem loadFile_of_strict {code : Option String} (policy : Policy)
    (strict : (loader.withPolicy .strict).loadFile tree path = .ok code) :
    (loader.withPolicy policy).loadFile tree path = .ok code := by
  unfold loadFile at strict ⊢
  rw [handles_withPolicy] at strict ⊢
  by_cases handled : loader.handles path = true
  · rw [if_pos handled] at strict ⊢
    cases read : tree.readText path with
    | ok source =>
        rw [read] at strict
        exact load_of_strict policy strict
    | error fault =>
        rw [read] at strict
        cases strict
  · rw [if_neg handled] at strict ⊢
    exact strict

end Loader

namespace Build

open FileTree (Place)
open Prerender.Path (place under)

variable {build : Build} {here : Place} {tree after : FileTree} {path : String} {paths : List String}
  {names : List String} {content : ByteArray} {summary : Summary}

def Writable (build : Build) (tree : FileTree) (path : String) : Prop :=
  ∃ made, tree.provide (build.target path) ByteArray.empty = .ok made

theorem Meets.writable_iff (meets : build.Meets here tree path names content) (sound : tree.Sound) :
    build.Writable tree path ↔ build.Free here tree names := by
  obtain ⟨above, parent, ways_eq⟩ := meets.above
  have target := meets.target_eq
  obtain ⟨init, last, rfl, is, are, split⟩ := meets.split
  unfold Writable FileTree.provide
  simp only [parent]
  rw [target, split]
  rcases FileTree.ensureDirectory_cases sound above with ⟨made, ensured, lays⟩ | ⟨fault, failed, obstructed⟩
  · rw [meets.stands, ← ways_eq] at lays
    have leads := place_last build.output last (lays.directory.trans meets.stands) are
    have way := open_of_lays sound meets.stands lays
    simp only [ensured, bind, Except.bind, FileTree.write_join_iff is, leads, lays.entries]
    constructor
    · rintro ⟨_, -, free, -⟩
      have beside : place here build.output ++ (init ++ [last]) ∉ build.ways here (init ++ [last]) :=
        fun on_way => free (if_pos on_way)
      exact ⟨lays.clear, beside, by rwa [if_neg beside] at free⟩
    · rintro ⟨-, beside, free⟩
      exact ⟨_, way, by rwa [if_neg beside], rfl⟩
  · simp only [failed, bind, Except.bind]
    refine iff_of_false ?_ fun free => obstructed ?_
    · rintro ⟨_, done⟩
      cases done
    · rw [FileTree.Clear, meets.stands, ← ways_eq]
      exact free.clear

/-- What the tolerant policy promises. It answers for every file that is text, or that the loader does not handle; a
handled file that is no text is the one thing it fails on. So a build with room for its output succeeds exactly if there is
no such file, whatever the renderer and the order, and copies faithfully then; and it does what the strict policy does,
where that gives an answer. -/
theorem tolerant_iff (build : Build) (here : Place) (tree : FileTree) (tolerant : build.loader.policy = .tolerant)
    (told : build.Told here) (fit : build.Fit here tree)
    (writable : ∀ path, build.Visible tree path → build.Writable tree path) :
    (∀ path content, tree.read path = .ok content →
      ((∃ code, build.loader.loadFile tree path = .ok code) ↔ build.loader.Legible path content) ∧
      (¬ build.loader.Legible path content → build.loader.loadFile tree path = .error (.file path .notText))) ∧
    (∀ paths, build.Walk tree paths →
      ((∃ summary after, outcome (build.files paths ⟨0, 0⟩) tree = (.ok summary, after)) ↔
        ∀ path content, build.Visible tree path → tree.read path = .ok content → build.loader.Legible path content) ∧
      ∀ summary after, outcome (build.files paths ⟨0, 0⟩) tree = (.ok summary, after) →
        build.Copied here tree summary after) ∧
    ∀ path code, (build.loader.withPolicy .strict).loadFile tree path = .ok code →
      build.loader.loadFile tree path = .ok code := by
  refine ⟨fun path content found => ⟨Loader.loadFile_tolerant_iff tolerant found, fun illegible => ?_⟩,
    fun paths walk => ⟨⟨?_, fun legible => ?_⟩, fun summary after result => ?_⟩, fun path code strict => ?_⟩
  · rcases Loader.loadFile_tolerant tolerant found with ⟨legible, -⟩ | ⟨-, fails⟩
    · exact absurd legible illegible
    · exact fails
  · rintro ⟨summary, after, result⟩ path content visible found
    obtain ⟨-, done⟩ := walk.done told fit result
    obtain ⟨names, content', meets⟩ := (visible_iff told fit).mp visible
    obtain ⟨bytes, built⟩ := done.built meets
    obtain ⟨code, load, -⟩ := load_of_image built.image
    rw [← meets.holds.spelled] at load
    exact (Loader.loadFile_tolerant_iff tolerant found).mp ⟨code, load⟩
  · refine files_succeed told fit (.start fit) walk.there ⟨0, 0⟩ fun path _ names content meets => ?_
    have visible := (visible_iff told fit).mpr ⟨names, content, meets⟩
    have found := meets.read fit.sound
    obtain ⟨code, load⟩ := (Loader.loadFile_tolerant_iff tolerant found).mpr (legible path content visible found)
    exact ⟨(meets.writable_iff fit.sound).mp (writable path visible), _, by rw [image, load]; rfl⟩
  · obtain ⟨rfl, done⟩ := walk.done told fit result
    exact done.copied told fit
  · exact Loader.loadFile_of_strict build.loader.policy strict

def roughTree : FileTree :=
  ⟨[(["src"], .directory), (["src", "page.js"], .file Transform.samplePage.toUTF8),
    (["src", "cut.js"], .file "import \x7bjsx\x7d from \"react/jsx-runtime\"\nimport \x7bA\x7d from \"lib\"\njsx(A,".toUTF8),
    (["src", "logo.png"], .file ⟨#[255]⟩)], []⟩

theorem writable_of_all
    (all : ∀ path ∈ tree.filesUnder build.source, (tree.provide (build.target path) ByteArray.empty).isOk = true) :
    ∀ path, build.Visible tree path → build.Writable tree path := by
  intro path visible
  have ok := all path visible.there
  unfold Writable
  cases provided : tree.provide (build.target path) ByteArray.empty with
  | ok made => exact ⟨made, rfl⟩
  | error fault =>
      rw [provided] at ok
      cases ok

theorem tolerant_iff_rough :
    let build := sampleBuild .tolerant "/src" "/out"
    build.loader.policy = .tolerant ∧ build.Told [] ∧ build.Fit [] roughTree ∧
    (∀ path, build.Visible roughTree path → build.Writable roughTree path) ∧
    (∀ path content, roughTree.read path = .ok content →
      ((∃ code, build.loader.loadFile roughTree path = .ok code) ↔ build.loader.Legible path content) ∧
      (¬ build.loader.Legible path content → build.loader.loadFile roughTree path = .error (.file path .notText))) ∧
    (∀ paths, build.Walk roughTree paths →
      ((∃ summary after, outcome (build.files paths ⟨0, 0⟩) roughTree = (.ok summary, after)) ↔
        ∀ path content, build.Visible roughTree path → roughTree.read path = .ok content →
          build.loader.Legible path content) ∧
      ∀ summary after, outcome (build.files paths ⟨0, 0⟩) roughTree = (.ok summary, after) →
        build.Copied [] roughTree summary after) ∧
    (∀ path code, (build.loader.withPolicy .strict).loadFile roughTree path = .ok code →
      build.loader.loadFile roughTree path = .ok code) ∧
    (outcome build.run roughTree).1 = .ok ⟨1, 2⟩ ∧
    (build.loader.withPolicy .strict).loadFile roughTree "/src/cut.js" =
      .error (.transform "/src/cut.js" (.parse "/src/cut.js")) := by
  intro build
  have told : build.Told [] := told_of_plain (by decide +kernel) (by decide +kernel) []
  have fit : build.Fit [] roughTree := by decide +kernel
  have writable : ∀ path, build.Visible roughTree path → build.Writable roughTree path :=
    writable_of_all (by decide +kernel)
  obtain ⟨answers, builds, agrees⟩ := tolerant_iff build [] roughTree rfl told fit writable
  exact ⟨rfl, told, fit, writable, answers, builds, agrees, by decide +kernel, by decide +kernel⟩

def illegibleTree : FileTree := ⟨[(["src"], .directory), (["src", "a.js"], .file ⟨#[255]⟩)], []⟩

theorem tolerant_illegible :
    let build := sampleBuild .tolerant "/src" "/out"
    build.Fit [] illegibleTree ∧ build.Visible illegibleTree "/src/a.js" ∧ build.Writable illegibleTree "/src/a.js" ∧
    build.loader.loadFile illegibleTree "/src/a.js" = .error (.file "/src/a.js" .notText) ∧
    (outcome build.run illegibleTree).1 = .error (.file "/src/a.js" .notText) ∧
    ¬ (outcome build.run illegibleTree).2.IsFile ["out", "a.js"] := by
  intro build
  have there : "/src/a.js" ∈ illegibleTree.filesUnder "/src" := by decide +kernel
  have visible : build.Visible illegibleTree "/src/a.js" := ⟨there, by decide +kernel⟩
  exact ⟨by decide +kernel, visible, writable_of_all (by decide +kernel) _ visible, by decide +kernel,
    by decide +kernel, by decide +kernel⟩

end Build

end Prerender
