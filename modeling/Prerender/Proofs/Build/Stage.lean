import Prerender.Proofs.Build.Walk

set_option autoImplicit false

/-!
How far a build got that has not failed yet: the files built so far have their output, with directories above it,
and the rest of the tree is as it was. No output stands in the way of another, since the sources do not; so
a build that has room for each output by itself goes through, in any order, and building again finds all done.
-/
namespace Prerender.Build

open FileTree (Place Entry)
open Prerender.Path (IsName place passed stops under)

variable {build : Build} {here : Place} {tree now made after : FileTree} {path other : String} {paths : List String}
  {names more : List String} {seen : List (List String)} {content content' bytes : ByteArray} {summary total : Summary}

-- There is room for the output of a file: no file is where a directory has to be, and no directory where it goes.
structure Free (build : Build) (here : Place) (tree : FileTree) (names : List String) : Prop where
  clear : ∀ q ∈ build.ways here names, ¬ tree.IsFile q
  beside : place here build.output ++ names ∉ build.ways here names
  free : tree.get? (place here build.output ++ names) ≠ some .directory

theorem mem_ways (are : ∀ name ∈ names, IsName name) {q : Place} :
    q ∈ build.ways here names ↔ q ∈ Path.route here build.output ∨
      ∃ init, init ≠ [] ∧ init <+: names.dropLast ∧ q = place here build.output ++ init := by
  rw [ways, FileTree.route_under fun name member => are name (List.mem_of_mem_dropLast member), List.mem_append,
    FileTree.mem_stops_names]

-- If it were, the one source would be a directory above the other.
theorem not_mem_ways (sound : tree.Sound) (meets : build.Meets here tree path names content)
    (others : build.Meets here tree other more content') (free : build.Free here tree names) :
    place here build.output ++ names ∉ build.ways here more := by
  rw [mem_ways others.holds.are]
  rintro (on_way | ⟨init, -, above, same⟩)
  · exact free.beside ((mem_ways meets.holds.are).mpr (.inl on_way))
  · obtain rfl := List.append_cancel_left same
    obtain ⟨front, last, rfl, -⟩ := others.split
    rw [List.dropLast_concat] at above
    obtain ⟨rest, rfl⟩ := above
    have found := others.holds.found
    rw [List.append_assoc, ← List.append_assoc (place here build.source)] at found
    have directory := sound.above (List.append_ne_nil_of_right_ne_nil rest (List.cons_ne_nil last [])) found
    cases directory.symm.trans meets.holds.found

theorem image_eq (meets : build.Meets here tree path names content) (later : build.Meets here now path more content)
    (sound : tree.Sound) (sound_now : now.Sound) :
    image build.loader now path content = image build.loader tree path content ∧
      transforms build.loader now path = transforms build.loader tree path := by
  have same := loadFile_congr build.loader ((later.read sound_now).trans (meets.read sound).symm)
  rw [image, transforms, same]
  exact ⟨rfl, rfl⟩

structure Built (build : Build) (here : Place) (tree now : FileTree) (names : List String) (content bytes : ByteArray) :
    Prop where
  meets : build.Meets here tree (under build.source names) names content
  free : build.Free here tree names
  image : image build.loader tree (under build.source names) content = .ok bytes
  found : now.get? (place here build.output ++ names) = some (.file bytes)
  laid : ∀ q ∈ build.ways here names, now.get? q = some .directory

structure Stage (build : Build) (here : Place) (tree : FileTree) (seen : List (List String)) (now : FileTree) :
    Prop where
  steady : build.Steady here tree now
  built : ∀ names ∈ seen, ∃ content bytes, build.Built here tree now names content bytes
  rest : ∀ q, (∀ names ∈ seen, q ≠ place here build.output ++ names ∧ q ∉ build.ways here names) →
    now.get? q = tree.get? q

theorem Stage.start (fit : build.Fit here tree) : build.Stage here tree [] tree :=
  ⟨.refl fit, fun _ none => (nomatch none), fun _ _ => rfl⟩

theorem Stage.origin (told : build.Told here) (fit : build.Fit here tree) (stage : build.Stage here tree seen now)
    (meets : build.Meets here now path names content) : build.Meets here tree path names content := by
  have before := (stage.steady.visible path).mp ((visible_iff told stage.steady.fit).mpr ⟨names, content, meets⟩)
  obtain ⟨_, _, first⟩ := (visible_iff told fit).mp before
  exact stage.steady.spares.meets_back first.way meets

theorem Stage.room (fit : build.Fit here tree) (stage : build.Stage here tree seen now)
    (meets : build.Meets here tree path names content) (free : build.Free here tree names) :
    build.Free here now names := by
  refine ⟨fun q on_way ⟨bytes, is⟩ => ?_, free.beside, fun is => ?_⟩
  · by_cases touched : ∀ more ∈ seen, q ≠ place here build.output ++ more ∧ q ∉ build.ways here more
    · exact free.clear q on_way ⟨bytes, (stage.rest q touched).symm.trans is⟩
    · push Not at touched
      obtain ⟨more, member, touched⟩ := touched
      obtain ⟨_, _, built⟩ := stage.built more member
      by_cases same : q = place here build.output ++ more
      · rw [same] at on_way
        exact not_mem_ways fit.sound built.meets meets built.free on_way
      · cases (built.laid q (touched same)).symm.trans is
  · by_cases touched : ∀ more ∈ seen, place here build.output ++ names ≠ place here build.output ++ more ∧
        place here build.output ++ names ∉ build.ways here more
    · exact free.free ((stage.rest _ touched).symm.trans is)
    · push Not at touched
      obtain ⟨more, member, touched⟩ := touched
      obtain ⟨_, _, built⟩ := stage.built more member
      by_cases same : place here build.output ++ names = place here build.output ++ more
      · rw [same] at is
        cases is.symm.trans built.found
      · exact not_mem_ways fit.sound meets built.meets free (touched same)

theorem Stage.step {transformed : Bool} (told : build.Told here) (fit : build.Fit here tree)
    (stage : build.Stage here tree seen now) (meets : build.Meets here now path names content)
    (result : outcome (build.file path) now = (.ok transformed, after)) :
    build.Stage here tree (seen ++ [names]) after ∧ transformed = transforms build.loader tree path := by
  have steady := meets.steady told stage.steady.fit
  have filed := filed_file meets stage.steady.fit.sound
  rw [result] at steady filed
  have first := stage.origin told fit meets
  have same := image_eq first meets fit.sound stage.steady.fit.sound
  cases filed with
  | @written made bytes _ lays free is flag =>
      have entries := @FileTree.get?_put made _ meets.inner (.file bytes)
      rw [same.1] at is
      have room : build.Free here tree names := by
        refine ⟨fun q on_way file => lays.clear q on_way (stage.steady.spares.files q file), fun on_way => free ?_,
          fun directory => free (lays.grows (stage.steady.spares.grows _ directory))⟩
        rw [lays.entries, if_pos on_way]
      refine ⟨⟨stage.steady.trans steady, fun more member => ?_, fun q touched => ?_⟩, flag.trans same.2⟩
      · rcases List.mem_append.mp member with member | member
        · obtain ⟨content', bytes', built⟩ := stage.built more member
          refine ⟨content', bytes', { built with found := ?_, laid := fun q on_way => ?_ }⟩
          · rw [entries]
            split
            · next both =>
              obtain rfl := List.append_cancel_left both
              obtain rfl := first.holds.spelled
              have alike := built.meets.holds.found.symm.trans first.holds.found
              obtain rfl := Entry.file.inj (Option.some.inj alike)
              rw [Except.ok.inj (built.image.symm.trans is)]
            · exact lays.keeps.mpr built.found
          · rw [entries, if_neg fun target => ?_]
            · exact lays.grows (built.laid q on_way)
            · rw [← target] at on_way
              exact not_mem_ways fit.sound first built.meets room on_way
        · obtain rfl := List.mem_singleton.mp member
          obtain rfl := first.holds.spelled
          refine ⟨content, bytes, first, room, is, by rw [entries, if_pos rfl], fun q on_way => ?_⟩
          rw [entries, if_neg fun target => room.beside (by rwa [target]), lays.entries, if_pos on_way]
      · obtain ⟨apart, aside⟩ := touched names (List.mem_append_right _ (List.mem_singleton_self _))
        rw [entries, if_neg apart.symm, lays.entries, if_neg aside]
        exact stage.rest q fun more member => touched more (List.mem_append_left _ member)

def inputs (build : Build) (paths : List String) : List String := paths.filter fun path => !build.isOutput path

def tally (build : Build) (tree : FileTree) (paths : List String) (summary : Summary) : Summary where
  transformed := summary.transformed + (build.inputs paths).countP (transforms build.loader tree)
  copied := summary.copied + (build.inputs paths).countP fun path => !transforms build.loader tree path

theorem mem_inputs : path ∈ build.inputs paths ↔ path ∈ paths ∧ build.isOutput path = false := by
  rw [inputs, List.mem_filter, Bool.not_eq_true']

theorem inputs_cons_output (output : build.isOutput path = true) : build.inputs (path :: paths) = build.inputs paths :=
  List.filter_cons_of_neg (by simp [output])

theorem inputs_cons_input (input : build.isOutput path = false) :
    build.inputs (path :: paths) = path :: build.inputs paths :=
  List.filter_cons_of_pos (by simp [input])

theorem tally_cons_output (output : build.isOutput path = true) :
    build.tally tree (path :: paths) summary = build.tally tree paths summary := by
  rw [tally, tally, inputs_cons_output output]

theorem tally_cons_input (input : build.isOutput path = false) : build.tally tree (path :: paths) summary =
    build.tally tree paths (summary.add (transforms build.loader tree path)) := by
  rw [tally, tally, inputs_cons_input input]
  cases is : transforms build.loader tree path <;> simp [is, Summary.add] <;> omega

theorem stage_files (told : build.Told here) (fit : build.Fit here tree) (stage : build.Stage here tree seen now)
    (walks : build.Walks now paths) (result : outcome (build.files paths summary) now = (.ok total, after)) :
    ∃ more, build.inputs paths = more.map (under build.source) ∧ build.Stage here tree (seen ++ more) after ∧
      total = build.tally tree paths summary := by
  induction paths generalizing now seen summary with
  | nil =>
      obtain ⟨rfl, rfl⟩ := Prod.mk.inj result |>.imp_left Except.ok.inj
      exact ⟨[], rfl, by rwa [List.append_nil], rfl⟩
  | cons path paths ih =>
      obtain ⟨there, walks⟩ := walks
      rw [outcome_files_cons] at result
      unfold leave at walks
      by_cases output : build.isOutput path = true
      · rw [if_pos output] at walks result
        rw [inputs_cons_output output, tally_cons_output output]
        exact ih stage walks result
      · rw [if_neg output] at walks result
        have input := Bool.eq_false_iff.mpr output
        obtain ⟨names, content, meets⟩ := (visible_iff told stage.steady.fit).mp ⟨there, input⟩
        cases step : outcome (build.file path) now with
        | mk flag made =>
            rw [step] at walks result
            cases flag with
            | error error => cases result
            | ok transformed =>
                obtain ⟨next, flag⟩ := stage.step told fit meets step
                obtain ⟨more, are, stage, count⟩ := ih next walks result
                refine ⟨names :: more, ?_, ?_, ?_⟩
                · rw [inputs_cons_input input, are, meets.holds.spelled]
                  rfl
                · rwa [List.append_assoc] at stage
                · rw [count, tally_cons_input input, flag]

theorem files_succeed (told : build.Told here) (fit : build.Fit here tree) (stage : build.Stage here tree seen now)
    (walks : build.Walks now paths) (summary : Summary)
    (ready : ∀ path ∈ paths, ∀ names content, build.Meets here tree path names content →
      build.Free here tree names ∧ ∃ bytes, image build.loader tree path content = .ok bytes) :
    ∃ total after, outcome (build.files paths summary) now = (.ok total, after) := by
  induction paths generalizing now seen summary with
  | nil => exact ⟨summary, now, rfl⟩
  | cons path paths ih =>
      obtain ⟨there, walks⟩ := walks
      rw [List.forall_mem_cons] at ready
      rw [outcome_files_cons]
      unfold leave at walks
      by_cases output : build.isOutput path = true
      · rw [if_pos output] at walks ⊢
        exact ih stage walks summary ready.2
      · rw [if_neg output] at walks ⊢
        obtain ⟨names, content, meets⟩ :=
          (visible_iff told stage.steady.fit).mp ⟨there, Bool.eq_false_iff.mpr output⟩
        have first := stage.origin told fit meets
        obtain ⟨free, bytes, is⟩ := ready.1 names content first
        have room := stage.room fit first free
        have same := image_eq first meets fit.sound stage.steady.fit.sound
        have filed := filed_file meets stage.steady.fit.sound
        generalize step : outcome (build.file path) now = result at walks filed
        cases filed with
        | blocked found =>
            obtain ⟨q, on_way, file⟩ := found
            exact absurd file (room.clear q on_way)
        | refused _ failed =>
            rw [same.1, is] at failed
            cases failed
        | occupied lays directory =>
            rw [lays.entries, if_neg room.beside] at directory
            exact absurd directory room.free
        | written => exact ih (stage.step told fit meets step).1 walks _ ready.2

theorem Built.again (fit : build.Fit here tree) (steady : build.Steady here tree after)
    (built : build.Built here tree after names content bytes) : outcome (build.file (under build.source names)) after =
      (.ok (transforms build.loader tree (under build.source names)), after) := by
  have meets := steady.spares.meets built.meets
  have same := image_eq built.meets meets fit.sound steady.fit.sound
  have filed := filed_file meets steady.fit.sound
  generalize outcome (build.file (under build.source names)) after = result at filed ⊢
  cases filed with
  | blocked found =>
      obtain ⟨q, on_way, file⟩ := found
      exact absurd file (FileTree.not_isFile_of_directory (built.laid q on_way))
  | refused _ failed =>
      rw [same.1, built.image] at failed
      cases failed
  | occupied lays directory =>
      obtain rfl := lays.same built.laid
      cases directory.symm.trans built.found
  | written lays _ is flag =>
      obtain rfl := lays.same built.laid
      rw [same.1, built.image] at is
      rw [flag, same.2, ← Except.ok.inj is, FileTree.put_same meets.inner built.found]

theorem files_again (fit : build.Fit here tree) (steady : build.Steady here tree after) (summary : Summary)
    (known : ∀ path ∈ build.inputs paths, ∃ names content bytes, path = under build.source names ∧
      build.Built here tree after names content bytes) :
    outcome (build.files paths summary) after = (.ok (build.tally tree paths summary), after) := by
  induction paths generalizing summary with
  | nil => rfl
  | cons path paths ih =>
      rw [outcome_files_cons]
      by_cases output : build.isOutput path = true
      · rw [inputs_cons_output output] at known
        rw [if_pos output, tally_cons_output output]
        exact ih summary known
      · have input := Bool.eq_false_iff.mpr output
        rw [inputs_cons_input input, List.forall_mem_cons] at known
        obtain ⟨⟨names, content, bytes, rfl, built⟩, known⟩ := known
        rw [if_neg output, built.again fit steady, tally_cons_input input]
        exact ih _ known

end Prerender.Build
