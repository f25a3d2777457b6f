import Prerender.Build
import Prerender.Proofs.FileTree

set_option autoImplicit false

/-!
Building one file. What can come of it is said once: the directories above its target are made, the file is
loaded, and the target is written with what it was loaded as or with its own bytes, each if the step before did not
fail. So nothing changes but the target and what had no entry above it.
-/
namespace Prerender.Build

open FileTree (Place Fault)
open Prerender.Path (IsName place passed stops under)

def outcome {α : Type} (action : Action α) (tree : FileTree) : Except Loader.Error α × FileTree := action.run tree

section
variable {α β : Type}

@[simp] theorem outcome_get (tree : FileTree) : outcome get tree = (.ok tree, tree) := rfl

theorem outcome_bind (action : Action α) (next : α → Action β) (tree : FileTree) :
    outcome (action >>= next) tree =
      match outcome action tree with
      | (.ok a, made) => outcome (next a) made
      | (.error error, made) => (.error error, made) := by
  change (ExceptT.bindCont next (action.run tree).1).run (action.run tree).2 = _
  rw [outcome]
  cases action.run tree with
  | mk result made => cases result <;> rfl

theorem outcome_eq_of_toOption {action : Action α} {tree : FileTree} {a : α}
    (is : (outcome action tree).1.toOption = some a) : outcome action tree = (.ok a, (outcome action tree).2) := by
  cases result : outcome action tree with
  | mk value made =>
      cases value with
      | error error => simp [result, Except.toOption] at is
      | ok b => simpa [result, Except.toOption] using is

theorem outcome_change (path : String) (f : FileTree → Except Fault FileTree) (tree : FileTree) :
    outcome (change path f) tree =
      match f tree with
      | .ok made => (.ok (), made)
      | .error fault => (.error (.file path fault), tree) := by
  unfold change
  rw [outcome_bind]
  simp only [outcome_get]
  cases f tree <;> rfl

end

variable {build : Build} {here : Place} {tree now made after : FileTree} {path : String} {names : List String}
  {content bytes : ByteArray}

def image (loader : Loader) (tree : FileTree) (path : String) (content : ByteArray) : Except Loader.Error ByteArray :=
  (loader.loadFile tree path).map fun code => (code.map String.toUTF8).getD content

def transforms (loader : Loader) (tree : FileTree) (path : String) : Bool :=
  (loader.loadFile tree path).toOption.join.isSome

theorem loadFile_congr (loader : Loader) (same : now.read path = tree.read path) :
    loader.loadFile now path = loader.loadFile tree path := by
  unfold Loader.loadFile FileTree.readText
  rw [same]

-- A walk through the source, with the working directory `here`, comes to a file, at `names` below the source, that is
-- built and not in the output directory.
structure Meets (build : Build) (here : Place) (tree : FileTree) (path : String) (names : List String)
    (content : ByteArray) : Prop where
  stands : tree.directory = here
  given : build.source ≠ ""
  way : tree.Open build.source
  holds : tree.Holds here build.source path names content
  input : build.isOutput path = false
  apart : ¬ place here build.output <+: place here build.source ++ names

def ways (build : Build) (here : Place) (names : List String) : List Place :=
  Path.route here (under build.output names.dropLast)

inductive Filed (build : Build) (here : Place) (now : FileTree) (path : String) (names : List String)
    (content : ByteArray) : Except Loader.Error Bool × FileTree → Prop
  | blocked {error : Loader.Error} : (∃ q ∈ build.ways here names, now.IsFile q) →
      Filed build here now path names content (.error error, now)
  | refused {error : Loader.Error} {made : FileTree} : now.Lays (build.ways here names) made →
      image build.loader now path content = .error error → Filed build here now path names content (.error error, made)
  | occupied {error : Loader.Error} {made : FileTree} : now.Lays (build.ways here names) made →
      made.get? (place here build.output ++ names) = some .directory →
      Filed build here now path names content (.error error, made)
  | written {made : FileTree} {bytes : ByteArray} {transformed : Bool} : now.Lays (build.ways here names) made →
      made.get? (place here build.output ++ names) ≠ some .directory →
      image build.loader now path content = .ok bytes → transformed = transforms build.loader now path →
      Filed build here now path names content
        (.ok transformed, made.put (place here build.output ++ names) (.file bytes))

theorem Meets.place_path (meets : build.Meets here now path names content) :
    place here path = place here build.source ++ names := by
  rw [meets.holds.spelled, Path.place_under meets.holds.are]

theorem target_under (given : build.source ≠ "") (are : ∀ name ∈ names, IsName name) (named : names ≠ []) :
    build.target (under build.source names) = under build.output names := by
  rw [target, Path.relativeTo?_under given are named, Option.getD_some, Path.join_ofNames are named]

theorem Meets.target_eq (meets : build.Meets here now path names content) :
    build.target path = under build.output names := by
  rw [meets.holds.spelled, target_under meets.given meets.holds.are meets.holds.named]

theorem Meets.split (meets : build.Meets here now path names content) :
    ∃ init last, names = init ++ [last] ∧ IsName last ∧ (∀ name ∈ init, IsName name) ∧
      ∀ base, under base names = Path.join (under base init) last := by
  obtain ⟨init, last, is⟩ := List.eq_nil_or_concat names |>.resolve_left meets.holds.named
  rw [List.concat_eq_append] at is
  subst is
  have are := meets.holds.are
  simp only [List.forall_mem_append, List.forall_mem_singleton] at are
  exact ⟨init, last, rfl, are.2, are.1, fun base => Path.under_append base init [last]⟩

theorem open_of_ways {init : List String} {last : String} (sound : now.Sound) (stands : now.directory = here)
    (laid : ∀ q ∈ build.ways here (init ++ [last]), now.get? q = some .directory) :
    now.Open (under build.output init) := by
  subst stands
  refine List.forall_mem_cons.mpr ⟨sound.grounded_start _ _ (List.prefix_refl _), fun q member => laid q ?_⟩
  rwa [ways, List.dropLast_concat]

theorem open_of_lays {init : List String} {last : String} (sound : now.Sound) (stands : now.directory = here)
    (lays : now.Lays (build.ways here (init ++ [last])) made) : made.Open (under build.output init) :=
  open_of_ways (lays.sound sound) (lays.directory.trans stands) fun q member => by rw [lays.entries, if_pos member]

theorem place_last {init : List String} (base last : String) (stands : now.directory = here)
    (are : ∀ name ∈ init, IsName name) :
    place now.directory (under base init) ++ [last] = place here base ++ (init ++ [last]) := by
  rw [stands, Path.place_under are, List.append_assoc]

theorem Meets.read (meets : build.Meets here now path names content) (sound : now.Sound) :
    now.read path = .ok content := by
  obtain ⟨init, last, rfl, is, are, split⟩ := meets.split
  have above : now.get? (place now.directory build.source ++ init) = some .directory := by
    have found := meets.holds.found
    rw [← meets.stands, ← List.append_assoc] at found
    exact sound.above (List.cons_ne_nil last []) found
  have way := FileTree.open_under sound meets.way are above
  rw [meets.holds.spelled, split]
  refine FileTree.read_join is way ?_
  rw [place_last build.source last meets.stands are]
  exact meets.holds.found

-- The directory above the output is made by its own spelling, which leads over the same places.
theorem Meets.above (meets : build.Meets here now path names content) :
    ∃ above, Path.parent? (build.target path) = some above ∧ build.ways here names = Path.route here above := by
  obtain ⟨above, parent, begins, same⟩ := Path.parent?_under build.output meets.holds.are meets.holds.named
  have are : ∀ name ∈ names.dropLast, IsName name := fun name member => meets.holds.are name (List.mem_of_mem_dropLast member)
  refine ⟨above, by rw [meets.target_eq, parent], ?_⟩
  rw [ways, Path.route, Path.start_under are, Path.passed_under are, Path.route, same, Path.start, Path.start, begins]

def store (tree : FileTree) (path target : String) : Option String → Except Fault FileTree
  | some code => tree.write target code.toUTF8
  | none => tree.copy path target

theorem outcome_file {above : String} (parent : Path.parent? (build.target path) = some above) (tree : FileTree) :
    outcome (build.file path) tree =
      match tree.ensureDirectory above with
      | .error fault => (.error (.file above fault), tree)
      | .ok made =>
          match build.loader.loadFile made path with
          | .error error => (.error error, made)
          | .ok code =>
              match store made path (build.target path) code with
              | .error fault => (.error (.file (build.target path) fault), made)
              | .ok after => (.ok code.isSome, after) := by
  unfold file
  simp only [parent, outcome_bind, outcome_change]
  cases tree.ensureDirectory above with
  | error fault => rfl
  | ok made =>
      simp only [outcome_get]
      cases build.loader.loadFile made path with
      | error error => rfl
      | ok code =>
          cases code with
          | some code =>
              simp only [outcome_bind, outcome_change, store]
              cases made.write (build.target path) code.toUTF8 <;> rfl
          | none =>
              simp only [outcome_bind, outcome_change, store]
              cases made.copy path (build.target path) <;> rfl

theorem filed_file (meets : build.Meets here now path names content) (sound : now.Sound) :
    Filed build here now path names content (outcome (build.file path) now) := by
  obtain ⟨above, parent, ways_eq⟩ := meets.above
  have read := meets.read sound
  have elsewhere : place here path ≠ place here build.output ++ names := fun is =>
    meets.apart (by rw [← meets.place_path, is]; exact List.prefix_append _ _)
  obtain ⟨init, last, rfl, is, are, split⟩ := meets.split
  rw [outcome_file parent, meets.target_eq, split]
  rcases FileTree.ensureDirectory_cases sound above with ⟨made, ensured, lays⟩ | ⟨fault, failed, obstructed⟩
  · rw [meets.stands, ← ways_eq] at lays
    have stands : made.directory = here := lays.directory.trans meets.stands
    have leads := place_last build.output last stands are
    have loaded := loadFile_congr build.loader ((lays.read read).trans read.symm)
    have way := open_of_lays sound meets.stands lays
    simp only [ensured, loaded]
    cases load : build.loader.loadFile now path with
    | error error => exact .refused lays (by rw [image, load]; rfl)
    | ok code =>
        have stored : store made path (Path.join (under build.output init) last) code =
            made.write (Path.join (under build.output init) last) ((code.map String.toUTF8).getD content) := by
          cases code with
          | some code => rfl
          | none => exact FileTree.copy_join is (lays.read read) (by rwa [leads, stands])
        have flag : transforms build.loader now path = code.isSome := by
          rw [transforms, load]
          cases code <;> rfl
        simp only [stored]
        cases wrote : made.write (Path.join (under build.output init) last) ((code.map String.toUTF8).getD content) with
        | error fault =>
            refine .occupied lays ?_
            by_contra free
            cases wrote.symm.trans ((FileTree.write_join_iff is).mpr ⟨way, by rwa [leads], rfl⟩)
        | ok after =>
            obtain ⟨-, free, rfl⟩ := (FileTree.write_join_iff is).mp wrote
            rw [leads] at free ⊢
            exact .written lays free (by rw [image, load]; rfl) flag.symm
  · rw [failed]
    refine .blocked ?_
    rw [ways_eq, ← meets.stands]
    simpa [FileTree.Clear] using obstructed

end Prerender.Build
