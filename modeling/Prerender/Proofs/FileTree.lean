import Prerender.FileTree
import Prerender.Proofs.Keyed
import Prerender.Proofs.Path

set_option autoImplicit false

/-!
What the actions on a tree of files do to it. Each acts on the place that a path denotes by its spelling, if the
stops of the path on the way there are directories; a directory is made wherever nothing is, and no action
takes one away.
-/
namespace Prerender

namespace FileTree

open Prerender.Path (Component IsName advance passed place route start stem stops under)

variable {tree made : FileTree} {here : Place}

def IsFile (tree : FileTree) (q : Place) : Prop := ∃ content, tree.get? q = some (.file content)

-- A tree as it can come about: each place is there once, with names on the way to it that stand in directories, and
-- the working directory is one.
structure Sound (tree : FileTree) : Prop where
  once : (Keyed.keys tree.entries).Nodup
  named : ∀ q ∈ Keyed.keys tree.entries, q ≠ [] ∧ ∀ name ∈ q, IsName name
  rooted : ∀ q name, q ++ [name] ∈ Keyed.keys tree.entries → tree.get? q = some .directory
  stands : tree.get? tree.directory = some .directory

instance : DecidableEq Entry
  | .directory, .directory => isTrue rfl
  | .directory, .file _ | .file _, .directory => isFalse nofun
  | .file content, .file other =>
      decidable_of_iff (content.data = other.data)
        ⟨fun same => congrArg Entry.file (ByteArray.ext same), fun same => congrArg ByteArray.data (Entry.file.inj same)⟩

instance (tree : FileTree) (q : Place) : Decidable (tree.IsFile q) :=
  decidable_of_iff (tree.get? q ≠ none ∧ tree.get? q ≠ some .directory) <| by
    rw [IsFile]
    rcases tree.get? q with _ | _ | content <;> simp

instance (tree : FileTree) : Decidable tree.Sound :=
  decidable_of_iff ((Keyed.keys tree.entries).Nodup ∧
      (∀ q ∈ Keyed.keys tree.entries, q ≠ [] ∧ ∀ name ∈ q, IsName name) ∧
      (∀ q ∈ Keyed.keys tree.entries, tree.get? q.dropLast = some .directory) ∧
      tree.get? tree.directory = some .directory) <| by
    refine ⟨fun ⟨once, named, rooted, stands⟩ => ⟨once, named, fun q name member => ?_, stands⟩,
      fun sound => ⟨sound.once, sound.named, fun q member => ?_, sound.stands⟩⟩
    · simpa using rooted _ member
    · obtain ⟨init, last, rfl⟩ := List.eq_nil_or_concat q |>.resolve_left (sound.named q member).1
      rw [List.concat_eq_append, List.dropLast_concat]
      rw [List.concat_eq_append] at member
      exact sound.rooted init last member

@[simp] theorem get?_root (tree : FileTree) : tree.get? [] = some .directory := rfl

theorem get?_of_ne_nil {q : Place} (inner : q ≠ []) : tree.get? q = Keyed.get? tree.entries q := if_neg inner

theorem get?_put {q : Place} (inner : q ≠ []) (entry : Entry) (r : Place) :
    (tree.put q entry).get? r = if q = r then some entry else tree.get? r := by
  by_cases root : r = []
  · subst root
    rw [get?_root, if_neg inner, get?_root]
  · rw [get?_of_ne_nil root, get?_of_ne_nil root]
    exact Keyed.get?_put tree.entries q r entry

theorem put_put (q : Place) (first second : Entry) : (tree.put q first).put q second = tree.put q second :=
  congrArg (FileTree.mk · tree.directory) (Keyed.put_put first second)

theorem put_same {q : Place} {entry : Entry} (inner : q ≠ []) (found : tree.get? q = some entry) :
    tree.put q entry = tree :=
  congrArg (FileTree.mk · tree.directory) (Keyed.put_same ((get?_of_ne_nil inner).symm.trans found))

@[simp] theorem directory_put (q : Place) (entry : Entry) : (tree.put q entry).directory = tree.directory := rfl

theorem not_isFile_of_directory {q : Place} (is : tree.get? q = some .directory) : ¬ tree.IsFile q := by
  rintro ⟨content, other⟩
  cases is.symm.trans other

theorem Sound.isName (sound : tree.Sound) {q : Place} {entry : Entry} (found : tree.get? q = some entry) :
    ∀ name ∈ q, IsName name := by
  intro name member
  have inner : q ≠ [] := List.ne_nil_of_mem member
  exact (sound.named q (Keyed.mem_keys ((get?_of_ne_nil inner).symm.trans found))).2 name member

theorem Sound.above (sound : tree.Sound) {q r : Place} {entry : Entry} (some_step : r ≠ [])
    (found : tree.get? (q ++ r) = some entry) : tree.get? q = some .directory := by
  induction r using List.reverseRecOn generalizing entry with
  | nil => contradiction
  | append_singleton init last ih =>
      rw [← List.append_assoc] at found
      have inner : q ++ init ++ [last] ≠ [] := by simp
      have up := sound.rooted _ _ (Keyed.mem_keys ((get?_of_ne_nil inner).symm.trans found))
      by_cases start : init = []
      · rwa [start, List.append_nil] at up
      · exact ih start up

theorem Sound.put (sound : tree.Sound) {q : Place} {name : String} {entry : Entry} (is : IsName name)
    (above : tree.get? q = some .directory) (free : tree.get? (q ++ [name]) ≠ some .directory) :
    (tree.put (q ++ [name]) entry).Sound := by
  have inner : q ++ [name] ≠ [] := by simp
  have keys : Keyed.keys (tree.put (q ++ [name]) entry).entries = _ := Keyed.keys_put tree.entries (q ++ [name]) entry
  have either {r : Place} (member : r ∈ Keyed.keys (tree.put (q ++ [name]) entry).entries) :
      r ∈ Keyed.keys tree.entries ∨ r = q ++ [name] := by
    rw [keys] at member
    split at member
    · exact .inl member
    · exact (List.mem_append.mp member).imp_right List.mem_singleton.mp
  refine ⟨?_, fun r member => ?_, fun r last member => ?_, ?_⟩
  · rw [keys]
    split
    · exact sound.once
    · next fresh =>
      refine List.nodup_append.mpr ⟨sound.once, List.pairwise_singleton _ _, fun r known last member same => fresh ?_⟩
      rwa [← List.mem_singleton.mp member, ← same]
  · rcases either member with known | rfl
    · exact sound.named r known
    · refine ⟨inner, fun n n_in => ?_⟩
      rcases List.mem_append.mp n_in with n_in | n_in
      · exact sound.isName above n n_in
      · exact List.mem_singleton.mp n_in ▸ is
  · rw [get?_put inner]
    rcases either member with known | same
    · have up := sound.rooted r last known
      rw [if_neg fun same => free (by rw [same, up])]
      exact up
    · obtain ⟨rfl, -⟩ := List.append_inj' same rfl
      rw [if_neg (by simp)]
      exact above
  · rw [directory_put, get?_put inner, if_neg fun same => free (by rw [same, sound.stands])]
    exact sound.stands

theorem stops_append (here : Place) (cs ds : List Component) :
    stops here (cs ++ ds) = stops here cs ++ stops (cs.foldl advance here) ds := by
  induction cs generalizing here with
  | nil => rfl
  | cons c cs ih => rw [List.cons_append, stops, ih]; rfl

theorem mem_stops_names {names : List String} {q : Place} :
    q ∈ stops here (names.map .name) ↔ ∃ init, init ≠ [] ∧ init <+: names ∧ q = here ++ init := by
  induction names generalizing here with
  | nil => simp [stops]
  | cons name names ih =>
      simp only [List.map_cons, stops, List.mem_cons, advance, ih]
      constructor
      · rintro (rfl | ⟨init, some, is_prefix, rfl⟩)
        · exact ⟨[name], List.cons_ne_nil name [], List.prefix_append [name] names, rfl⟩
        · exact ⟨name :: init, List.cons_ne_nil name init, List.cons_prefix_cons.mpr ⟨rfl, is_prefix⟩, by simp⟩
      · rintro ⟨init, some, is_prefix, rfl⟩
        obtain ⟨first, init, rfl⟩ := List.exists_cons_of_ne_nil some
        obtain ⟨rfl, behind⟩ := List.cons_prefix_cons.mp is_prefix
        by_cases start : init = []
        · exact .inl (by rw [start])
        · exact .inr ⟨init, start, behind, by simp⟩

theorem route_under {base : String} {names : List String} (are : ∀ name ∈ names, IsName name) :
    route here (under base names) = route here base ++ stops (place here base) (names.map .name) := by
  rw [route, Path.start_under are, Path.passed_under are, stops_append]
  rfl

-- Where a path begins is a directory, and so is every stop on its way, and where it leads.
def Open (tree : FileTree) (path : String) : Prop :=
  ∀ q ∈ start tree.directory path :: route tree.directory path, tree.get? q = some .directory

def Clear (tree : FileTree) (path : String) : Prop := ∀ q ∈ route tree.directory path, ¬ tree.IsFile q

theorem component?_cases (piece : List Char) : Path.component? piece = none ∨ Path.component? piece = some .parent ∨
    Path.component? piece = some (.name (String.ofList piece)) := by
  unfold Path.component?
  split
  · exact .inl rfl
  · split
    · exact .inr (.inl rfl)
    · exact .inr (.inr rfl)

theorem step_eq_ok {piece : List Char} {next : Place} : tree.step here piece = .ok next ↔
    tree.get? here = some .directory ∧ next = (Path.component? piece).elim here (advance here) := by
  unfold step
  cases tree.get? here with
  | none => simp
  | some entry =>
      cases entry with
      | file content => simp
      | directory =>
          rcases component?_cases piece with is | is | is <;> simp [is, advance, eq_comm]

theorem stops_cons (here : Place) (piece : List Char) (ps : List (List Char)) :
    stops here ((piece :: ps).filterMap Path.component?) = ((Path.component? piece).map (advance here)).toList ++
      stops ((Path.component? piece).elim here (advance here)) (ps.filterMap Path.component?) := by
  cases is : Path.component? piece <;> simp [is, stops]

theorem foldl_cons (here : Place) (piece : List Char) (ps : List (List Char)) :
    ((piece :: ps).filterMap Path.component?).foldl advance here =
      (ps.filterMap Path.component?).foldl advance ((Path.component? piece).elim here (advance here)) := by
  cases is : Path.component? piece <;> simp [is]

theorem foldlM_step (ps : List (List Char)) (start : tree.get? here = some .directory)
    (way : ∀ q ∈ stops here (ps.filterMap Path.component?), tree.get? q = some .directory) :
    ps.foldlM tree.step here = .ok ((ps.filterMap Path.component?).foldl advance here) ∧
      tree.get? ((ps.filterMap Path.component?).foldl advance here) = some .directory := by
  induction ps generalizing here with
  | nil => exact ⟨rfl, start⟩
  | cons piece ps ih =>
      rw [stops_cons] at way
      have next : tree.get? ((Path.component? piece).elim here (advance here)) = some .directory := by
        cases is : Path.component? piece with
        | none => exact start
        | some c => exact way _ (by simp [is])
      rw [List.foldlM_cons, step_eq_ok.mpr ⟨start, rfl⟩, foldl_cons]
      exact ih next fun q member => way q (List.mem_append_right _ member)

theorem of_foldlM_step {ps : List (List Char)} {there : Place} (found : ps.foldlM tree.step here = .ok there) :
    there = (ps.filterMap Path.component?).foldl advance here ∧
      (tree.get? there = some .directory → tree.get? here = some .directory ∧
        ∀ q ∈ stops here (ps.filterMap Path.component?), tree.get? q = some .directory) := by
  induction ps generalizing here with
  | nil =>
      obtain rfl := Except.ok.inj found
      exact ⟨rfl, fun is => ⟨is, fun q member => by cases member⟩⟩
  | cons piece ps ih =>
      rw [List.foldlM_cons] at found
      cases stepped : tree.step here piece with
      | error fault =>
          rw [stepped] at found
          cases found
      | ok next =>
          obtain ⟨start, rfl⟩ := step_eq_ok.mp stepped
          rw [stepped] at found
          obtain ⟨same, way⟩ := ih found
          refine ⟨same.trans (foldl_cons here piece ps).symm, fun is => ⟨start, fun q member => ?_⟩⟩
          rw [stops_cons] at member
          rcases List.mem_append.mp member with member | member
          · cases count : Path.component? piece with
            | none => simp [count] at member
            | some c =>
                obtain rfl : q = advance here c := by simpa [count] using member
                simpa [count] using (way is).1
          · exact (way is).2 q member

theorem locate_ok {path : String} {there : Place} (found : tree.locate path = .ok there) :
    path ≠ "" ∧ there = place tree.directory path ∧ (tree.get? there = some .directory → tree.Open path) := by
  unfold locate at found
  split at found
  · cases found
  · next given =>
    obtain ⟨same, way⟩ := of_foldlM_step found
    exact ⟨fun empty => given (by rw [empty]; rfl), same, fun is => List.forall_mem_cons.mpr (way is)⟩

theorem join_ne_empty {base name : String} (is : IsName name) : Path.join base name ≠ "" := by
  intro empty
  have spelled := Path.pieces_join_name base is
  rw [empty] at spelled
  cases start : stem base with
  | nil =>
      rw [start] at spelled
      exact is.ne_nil (List.cons.inj spelled).1.symm
  | cons first rest =>
      rw [start] at spelled
      cases rest <;> cases (List.cons.inj spelled).2

theorem Open.leads {path : String} (way : tree.Open path) :
    (Path.pieces path).foldlM tree.step (start tree.directory path) = .ok (place tree.directory path) ∧
      tree.get? (place tree.directory path) = some .directory := by
  obtain ⟨begins, way⟩ := List.forall_mem_cons.mp way
  exact foldlM_step (Path.pieces path) begins way

theorem Open.place {path : String} (way : tree.Open path) : tree.get? (place tree.directory path) = some .directory :=
  way.leads.2

theorem Open.mono {path : String} (stays : made.directory = tree.directory)
    (grows : ∀ q, tree.get? q = some .directory → made.get? q = some .directory) (way : tree.Open path) :
    made.Open path := by
  unfold Open
  rw [stays]
  exact fun q member => grows q (way q member)

theorem Open.stem {base : String} (way : tree.Open base) :
    (stem base).foldlM tree.step (start tree.directory base) = .ok (Path.place tree.directory base) := by
  have same := Path.passed_eq_stem base
  obtain ⟨begins, way⟩ := List.forall_mem_cons.mp way
  rw [route, same] at way
  rw [Path.place, same]
  exact (foldlM_step (Path.stem base) begins way).1

theorem foldlM_step_single (here : Place) (piece : List Char) : [piece].foldlM tree.step here = tree.step here piece := by
  rw [List.foldlM_cons]
  exact bind_pure (tree.step here piece)

theorem locate_join {base name : String} (is : IsName name) (way : tree.Open base) :
    tree.locate (Path.join base name) = .ok (place tree.directory base ++ [name]) := by
  have last : tree.step (place tree.directory base) name.toList = .ok (place tree.directory base ++ [name]) :=
    step_eq_ok.mpr ⟨way.place, by rw [is.counts]; rfl⟩
  rw [locate, if_neg (by simpa using join_ne_empty is), Path.pieces_join_name _ is, Path.start_join is,
    List.foldlM_append, way.stem]
  exact (foldlM_step_single _ _).trans last

theorem read_join {base name : String} {content : ByteArray} (is : IsName name) (way : tree.Open base)
    (found : tree.get? (place tree.directory base ++ [name]) = some (.file content)) :
    tree.read (Path.join base name) = .ok content := by
  unfold read
  rw [locate_join is way]
  simp only [bind, Except.bind, found]

theorem of_locate_join {base name : String} {there : Place} (is : IsName name)
    (found : tree.locate (Path.join base name) = .ok there) :
    tree.Open base ∧ there = place tree.directory base ++ [name] := by
  rw [locate, if_neg (by simpa using join_ne_empty is), Path.pieces_join_name _ is, Path.start_join is,
    List.foldlM_append] at found
  cases before : (Path.stem base).foldlM tree.step (start tree.directory base) with
  | error fault =>
      rw [before] at found
      cases found
  | ok q =>
      obtain ⟨same, way⟩ := of_foldlM_step before
      rw [before] at found
      obtain ⟨above, rfl⟩ := step_eq_ok.mp ((foldlM_step_single q name.toList).symm.trans found)
      rw [← Path.passed_eq_stem] at same way
      exact ⟨List.forall_mem_cons.mpr (way above), by rw [is.counts, same]; rfl⟩

theorem locateNew_join {base name : String} (is : IsName name) :
    tree.locateNew (Path.join base name) = tree.locate (Path.join base name) := by
  rw [locateNew, locate, Path.pieces_join_name _ is, List.reverse_concat,
    List.dropWhile_cons_of_neg (by simpa using is.ne_nil), List.reverse_cons, List.reverse_reverse]

theorem last_join {base name : String} (is : IsName name) : (Path.join base name).toList.getLast? ≠ some '/' := by
  have ends : name.toList <:+ (Path.join base name).toList := by
    rw [Path.join, if_neg (by simp [is.relative])]
    split
    · exact ⟨base.toList, String.toList_append.symm⟩
    · exact ⟨(base ++ "/").toList, String.toList_append.symm⟩
  obtain ⟨before, split⟩ := ends
  intro last
  rw [← split, List.getLast?_append_of_ne_nil _ is.ne_nil] at last
  exact is.single (List.mem_of_getLast? last)

theorem write_join_iff {base name : String} {content : ByteArray} (is : IsName name) :
    tree.write (Path.join base name) content = .ok made ↔ tree.Open base ∧
      tree.get? (place tree.directory base ++ [name]) ≠ some .directory ∧
      made = tree.put (place tree.directory base ++ [name]) (.file content) := by
  unfold write
  simp only [locateNew_join is, if_neg (last_join is)]
  constructor
  · intro wrote
    cases found : tree.locate (Path.join base name) with
    | error fault =>
        rw [found] at wrote
        cases wrote
    | ok there =>
        obtain ⟨way, rfl⟩ := of_locate_join is found
        rw [found] at wrote
        simp only [bind, Except.bind] at wrote
        split at wrote
        · cases wrote
        · next free => exact ⟨way, free, (Except.ok.inj wrote).symm⟩
  · rintro ⟨way, free, rfl⟩
    rw [locate_join is way]
    simp only [bind, Except.bind]

theorem open_under (sound : tree.Sound) {base : String} {names : List String} (way : tree.Open base)
    (are : ∀ name ∈ names, IsName name) (found : tree.get? (place tree.directory base ++ names) = some .directory) :
    tree.Open (under base names) := by
  obtain ⟨begins, way⟩ := List.forall_mem_cons.mp way
  rw [Open, Path.start_under are, route_under are]
  refine List.forall_mem_cons.mpr ⟨begins, fun q member => ?_⟩
  rcases List.mem_append.mp member with member | member
  · exact way q member
  · obtain ⟨init, -, ⟨rest, rfl⟩, rfl⟩ := mem_stops_names.mp member
    by_cases last : rest = []
    · rwa [last, List.append_nil] at found
    · rw [← List.append_assoc] at found
      exact sound.above last found

def Grounded (tree : FileTree) (here : Place) : Prop := ∀ q, q <+: here → tree.get? q = some .directory

theorem grounded_root (tree : FileTree) : tree.Grounded [] := by
  intro q above
  rw [List.prefix_nil.mp above]
  rfl

theorem Sound.grounded (sound : tree.Sound) (is : tree.get? here = some .directory) : tree.Grounded here := by
  rintro q ⟨rest, rfl⟩
  by_cases last : rest = []
  · rwa [last, List.append_nil] at is
  · exact sound.above last is

theorem Sound.grounded_start (sound : tree.Sound) (path : String) : tree.Grounded (start tree.directory path) := by
  unfold start
  split
  · exact grounded_root tree
  · exact sound.grounded sound.stands

theorem Grounded.concat {name : String} (ground : tree.Grounded here)
    (is : tree.get? (here ++ [name]) = some .directory) : tree.Grounded (here ++ [name]) := by
  intro q above
  rcases List.prefix_concat_iff.mp above with rfl | above
  · exact is
  · exact ground q above

theorem Grounded.dropLast (ground : tree.Grounded here) : tree.Grounded here.dropLast :=
  fun q above => ground q (above.trans (List.dropLast_prefix here))

theorem Grounded.mono (ground : tree.Grounded here)
    (grows : ∀ q, tree.get? q = some .directory → made.get? q = some .directory) : made.Grounded here :=
  fun q above => grows q (ground q above)

-- Directories are made at some places, where nothing is; the rest stays as it is.
structure Lays (tree : FileTree) (ways : List Place) (made : FileTree) : Prop where
  clear : ∀ q ∈ ways, ¬ tree.IsFile q
  entries : ∀ q, made.get? q = if q ∈ ways then some .directory else tree.get? q
  sound : tree.Sound → made.Sound
  same : (∀ q ∈ ways, tree.get? q = some .directory) → made = tree
  directory : made.directory = tree.directory

namespace Lays

variable {ways more : List Place} {done : FileTree}

theorem nothing (tree : FileTree) : tree.Lays [] tree :=
  ⟨fun _ member => (nomatch member), fun _ => (if_neg List.not_mem_nil).symm, id, fun _ => rfl, rfl⟩

theorem there {q : Place} (is : tree.get? q = some .directory) : tree.Lays [q] tree := by
  refine ⟨fun r member => ?_, fun r => ?_, id, fun _ => rfl, rfl⟩
  · rw [List.mem_singleton.mp member]
    exact not_isFile_of_directory is
  · split
    · next member => rw [List.mem_singleton.mp member, is]
    · rfl

theorem append (first : tree.Lays ways made) (second : made.Lays more done) : tree.Lays (ways ++ more) done := by
  refine ⟨fun q member => ?_, fun q => ?_, second.sound ∘ first.sound, fun are => ?_,
    second.directory.trans first.directory⟩
  · by_cases mine : q ∈ ways
    · exact first.clear q mine
    · rintro ⟨content, is⟩
      refine second.clear q ((List.mem_append.mp member).resolve_left mine) ⟨content, ?_⟩
      rw [first.entries, if_neg mine, is]
  · rw [second.entries, first.entries]
    by_cases mine : q ∈ ways <;> by_cases theirs : q ∈ more <;> simp [mine, theirs]
  · obtain rfl := first.same fun q member => are q (List.mem_append_left more member)
    exact second.same fun q member => are q (List.mem_append_right ways member)

theorem grows (lays : tree.Lays ways made) {q : Place} (is : tree.get? q = some .directory) :
    made.get? q = some .directory := by
  rw [lays.entries, is, ite_self]

theorem keeps (lays : tree.Lays ways made) {q : Place} {content : ByteArray} :
    made.get? q = some (.file content) ↔ tree.get? q = some (.file content) := by
  rw [lays.entries]
  split
  · next member => exact ⟨fun is => (nomatch is), fun is => absurd ⟨content, is⟩ (lays.clear q member)⟩
  · exact Iff.rfl

end Lays

theorem isName_of_component {piece : List Char} {text : String} (single : '/' ∉ piece)
    (is : Path.component? piece = some (.name text)) : IsName text := by
  rcases component?_cases piece with other | other | same
  · cases is.symm.trans other
  · cases is.symm.trans other
  · obtain rfl := Component.name.inj (Option.some.inj (is.symm.trans same))
    exact ⟨by rwa [String.toList_ofList], by rw [String.toList_ofList, is]⟩

theorem isName_of_mem_place {name : String} (named_here : ∀ n ∈ here, IsName n) (path : String)
    (member : name ∈ place here path) : IsName name := by
  have single : ∀ piece ∈ Path.pieces path, '/' ∉ piece := fun piece => Path.single_of_mem_pieces path
  have named (cs : List Component) (are : ∀ text, .name text ∈ cs → IsName text) :
      ∀ here : Place, (∀ n ∈ here, IsName n) → ∀ n ∈ cs.foldl advance here, IsName n := by
    induction cs with
    | nil => exact fun _ => id
    | cons c cs ih =>
        intro here known
        refine ih (fun text there => are text (List.mem_cons_of_mem c there)) _ fun n there => ?_
        cases c with
        | name text =>
            rcases List.mem_append.mp there with there | there
            · exact known n there
            · exact List.mem_singleton.mp there ▸ are text List.mem_cons_self
        | parent => exact known n (List.mem_of_mem_dropLast there)
        | root => cases there
        | current => exact known n there
  have begins : ∀ n ∈ start here path, IsName n := by
    unfold start
    split
    · exact List.forall_mem_nil _
    · exact named_here
  refine named (passed path) (fun text there => ?_) _ begins name member
  obtain ⟨piece, one, is⟩ := List.mem_filterMap.mp there
  exact isName_of_component (single piece one) is

theorem Lays.fresh {name : String} (is : IsName name) (above : tree.get? here = some .directory)
    (free : tree.get? (here ++ [name]) = none) : tree.Lays [here ++ [name]] (tree.put (here ++ [name]) .directory) := by
  refine ⟨fun q member => ?_, fun q => ?_, fun sound => sound.put is above (by rw [free]; nofun), fun are => ?_, rfl⟩
  · rintro ⟨content, there⟩
    rw [List.mem_singleton.mp member, free] at there
    cases there
  · rw [get?_put (by simp)]
    simp only [List.mem_singleton, eq_comm]
  · cases free.symm.trans (are _ (List.mem_singleton_self _))

theorem enter_cases {piece : List Char} (single : '/' ∉ piece) (ground : tree.Grounded here) :
    (∃ made there, tree.enter here piece = .ok (made, there) ∧ there = (Path.component? piece).elim here (advance here) ∧
      tree.Lays ((Path.component? piece).map (advance here)).toList made ∧ made.Grounded there) ∨
    (∃ fault, tree.enter here piece = .error fault ∧
      ∃ q ∈ ((Path.component? piece).map (advance here)).toList, tree.IsFile q) := by
  rcases component?_cases piece with is | is | is
  · exact .inl ⟨tree, here, by rw [enter, is], by rw [is]; rfl, by rw [is]; exact .nothing tree, ground⟩
  · have up : tree.get? here.dropLast = some .directory := ground _ (List.dropLast_prefix here)
    exact .inl ⟨tree, here.dropLast, by rw [enter, is], by rw [is]; rfl, by rw [is]; exact .there up, ground.dropLast⟩
  · have above := ground here (List.prefix_refl here)
    have name := isName_of_component single is
    simp only [enter, is, Option.map_some, Option.toList_some, Option.elim_some, advance]
    cases found : tree.get? (here ++ [String.ofList piece]) with
    | none =>
        have lays := Lays.fresh name above found
        refine .inl ⟨_, _, rfl, rfl, lays, (ground.mono fun q => lays.grows).concat ?_⟩
        rw [lays.entries, if_pos (List.mem_singleton_self _)]
    | some entry =>
        cases entry with
        | directory => exact .inl ⟨tree, _, rfl, rfl, .there found, ground.concat found⟩
        | file content => exact .inr ⟨.exists, rfl, _, List.mem_singleton_self _, content, found⟩

abbrev enterAll (ps : List (List Char)) (start : FileTree × Place) : Except Fault (FileTree × Place) :=
  ps.foldlM (fun (tree, place) => tree.enter place) start

theorem enterAll_cons (piece : List Char) (ps : List (List Char)) :
    enterAll (piece :: ps) (tree, here) = tree.enter here piece >>= enterAll ps := List.foldlM_cons

theorem enterAll_cases (ps : List (List Char)) (single : ∀ piece ∈ ps, '/' ∉ piece) (ground : tree.Grounded here) :
    (∃ made there, enterAll ps (tree, here) = .ok (made, there) ∧
      tree.Lays (stops here (ps.filterMap Path.component?)) made) ∨
    (∃ fault, enterAll ps (tree, here) = .error fault ∧
      ∃ q ∈ stops here (ps.filterMap Path.component?), tree.IsFile q) := by
  induction ps generalizing tree here with
  | nil => exact .inl ⟨tree, here, rfl, .nothing tree⟩
  | cons piece ps ih =>
      rw [List.forall_mem_cons] at single
      rw [enterAll_cons, stops_cons]
      rcases enter_cases single.1 ground with ⟨made, there, entered, rfl, lays, ground⟩ | ⟨fault, failed, q, member, file⟩
      · rw [entered]
        rcases ih single.2 ground with ⟨done, last, rest, more⟩ | ⟨fault, failed, q, member, content, file⟩
        · exact .inl ⟨done, last, rest, lays.append more⟩
        · exact .inr ⟨fault, failed, q, List.mem_append_right _ member, content, lays.keeps.mp file⟩
      · rw [failed]
        exact .inr ⟨fault, rfl, q, List.mem_append_left _ member, file⟩

theorem fault_of_foldlM_step {ps : List (List Char)} (failed : ps.foldlM tree.step here = .error .notDirectory) :
    tree.IsFile here ∨ ∃ q ∈ stops here (ps.filterMap Path.component?), tree.IsFile q := by
  induction ps generalizing here with
  | nil => cases failed
  | cons piece ps ih =>
      rw [List.foldlM_cons] at failed
      cases stepped : tree.step here piece with
      | ok next =>
          obtain ⟨-, rfl⟩ := step_eq_ok.mp stepped
          rw [stepped] at failed
          rw [stops_cons]
          rcases ih failed with file | ⟨q, member, file⟩
          · cases is : Path.component? piece with
            | none =>
                rw [is] at file
                exact .inl file
            | some c =>
                rw [is] at file
                exact .inr ⟨_, by simp, file⟩
          · exact .inr ⟨q, List.mem_append_right _ member, file⟩
      | error fault =>
          rw [stepped] at failed
          obtain rfl := Except.error.inj failed
          unfold step at stepped
          split at stepped
          · cases stepped
          · next content is => exact .inl ⟨content, is⟩
          · split at stepped <;> cases stepped

theorem counted_without_slashes (ps : List (List Char)) :
    ((ps.reverse.dropWhile List.isEmpty).reverse).filterMap Path.component? = ps.filterMap Path.component? := by
  induction ps using List.reverseRecOn with
  | nil => rfl
  | append_singleton init last ih =>
      rw [List.reverse_concat]
      cases last with
      | nil =>
          rw [List.dropWhile_cons_of_pos rfl, List.filterMap_append, List.filterMap_cons_none Path.component?_nil, ih]
          exact (List.append_nil _).symm
      | cons c cs => rw [List.dropWhile_cons_of_neg (by simp), List.reverse_cons, List.reverse_reverse]

theorem fault_of_locateNew (sound : tree.Sound) {path : String} (failed : tree.locateNew path = .error .notDirectory) :
    ∃ q ∈ route tree.directory path, tree.IsFile q := by
  unfold locateNew at failed
  split at failed
  · cases failed
  · rcases fault_of_foldlM_step failed with file | found
    · exact absurd file (not_isFile_of_directory (sound.grounded_start path _ (List.prefix_refl _)))
    · rwa [counted_without_slashes] at found

theorem ensureDirectory_cases (sound : tree.Sound) (path : String) :
    (∃ made, tree.ensureDirectory path = .ok made ∧ tree.Lays (route tree.directory path) made) ∨
    (∃ fault, tree.ensureDirectory path = .error fault ∧ ¬ tree.Clear path) := by
  have single : ∀ piece ∈ Path.pieces path, '/' ∉ piece := fun piece => Path.single_of_mem_pieces path
  have filed (found : ∃ q ∈ route tree.directory path, tree.IsFile q) : ¬ tree.Clear path :=
    fun clear => let ⟨q, member, file⟩ := found; clear q member file
  unfold ensureDirectory
  split
  · next failed => exact .inr ⟨.notDirectory, rfl, filed (fault_of_locateNew sound failed)⟩
  · rcases enterAll_cases (Path.pieces path) single (sound.grounded_start path) with ⟨made, there, entered, lays⟩ |
      ⟨fault, failed, found⟩
    · refine .inl ⟨made, ?_, lays⟩
      unfold enterAll at entered
      rw [entered]
      rfl
    · refine .inr ⟨fault, ?_, filed found⟩
      unfold enterAll at failed
      rw [failed]
      rfl

theorem foldlM_step_mono {ps : List (List Char)} {there : Place}
    (grows : ∀ q, tree.get? q = some .directory → made.get? q = some .directory)
    (found : ps.foldlM tree.step here = .ok there) : ps.foldlM made.step here = .ok there := by
  induction ps generalizing here with
  | nil => exact found
  | cons piece ps ih =>
      rw [List.foldlM_cons] at found ⊢
      cases stepped : tree.step here piece with
      | error fault =>
          rw [stepped] at found
          cases found
      | ok next =>
          obtain ⟨start, rfl⟩ := step_eq_ok.mp stepped
          rw [stepped] at found
          rw [step_eq_ok.mpr ⟨grows here start, rfl⟩]
          exact ih found

theorem locate_mono {path : String} {there : Place} (stays : made.directory = tree.directory)
    (grows : ∀ q, tree.get? q = some .directory → made.get? q = some .directory)
    (found : tree.locate path = .ok there) : made.locate path = .ok there := by
  unfold locate at found ⊢
  split at found
  · cases found
  · next given => rw [if_neg given, stays, foldlM_step_mono grows found]

theorem read_eq_ok {path : String} {content : ByteArray} : tree.read path = .ok content ↔
    ∃ there, tree.locate path = .ok there ∧ tree.get? there = some (.file content) := by
  unfold read
  cases found : tree.locate path with
  | error fault => simp [bind, Except.bind]
  | ok there =>
      simp only [bind, Except.bind, Except.ok.injEq, exists_eq_left']
      split
      · next content' is => simp [is]
      · next is => simp [is]
      · next is => simp [is]

theorem Lays.read {ways : List Place} (lays : tree.Lays ways made) {path : String} {content : ByteArray}
    (found : tree.read path = .ok content) : made.read path = .ok content := by
  obtain ⟨there, located, is⟩ := read_eq_ok.mp found
  exact read_eq_ok.mpr ⟨there, locate_mono lays.directory (fun _ => lays.grows) located, lays.keeps.mpr is⟩

theorem write_fault {base name : String} {first second : ByteArray} {fault : Fault} (is : IsName name)
    (failed : tree.write (Path.join base name) first = .error fault) :
    tree.write (Path.join base name) second = .error fault := by
  unfold write at failed ⊢
  simp only [locateNew_join is, if_neg (last_join is)] at failed ⊢
  cases found : tree.locate (Path.join base name) with
  | error other => rwa [found] at failed
  | ok there =>
      rw [found] at failed
      simp only [bind, Except.bind] at failed ⊢
      split at failed
      · exact failed
      · cases failed

theorem copy_join {source base name : String} {content : ByteArray} (is : IsName name)
    (found : tree.read source = .ok content)
    (apart : place tree.directory source ≠ place tree.directory base ++ [name]) :
    tree.copy source (Path.join base name) = tree.write (Path.join base name) content := by
  obtain ⟨there, located, file⟩ := read_eq_ok.mp found
  obtain rfl : there = place tree.directory source := (locate_ok located).2.1
  unfold copy
  simp only [located, bind, Except.bind, file]
  cases emptied : tree.write (Path.join base name) ByteArray.empty with
  | error fault => exact (write_fault is emptied).symm
  | ok bare =>
      obtain ⟨way, free, rfl⟩ := (write_join_iff is).mp emptied
      have inner : place tree.directory base ++ [name] ≠ [] := by simp
      have grows (q : Place) (directory : tree.get? q = some .directory) :
          (tree.put (place tree.directory base ++ [name]) (.file ByteArray.empty)).get? q = some .directory := by
        rw [get?_put inner, if_neg fun same => free (by rw [same, directory]), directory]
      have again : (tree.put (place tree.directory base ++ [name]) (.file ByteArray.empty)).read source = .ok content :=
        read_eq_ok.mpr ⟨_, locate_mono (directory_put _ _) grows located,
          by rw [get?_put inner, if_neg apart.symm, file]⟩
      rw [(write_join_iff is).mpr ⟨way, free, rfl⟩]
      simp only [again]
      refine (write_join_iff is).mpr ⟨fun q member => grows q (way q member), ?_, (put_put _ _ _).symm⟩
      rw [directory_put, get?_put inner, if_pos rfl]
      nofun

theorem below?_eq_some {base q rest : Place} : below? base q = some rest ↔ q = base ++ rest := by
  induction base generalizing q with
  | nil => simp [below?, eq_comm]
  | cons n base ih =>
      cases q with
      | nil => simp [below?]
      | cons m q =>
          by_cases same : n = m
          · simp [below?, same, ih]
          · simp [below?, same, Ne.symm same]

theorem Sound.mem_entries (sound : tree.Sound) {q : Place} {content : ByteArray} :
    (q, Entry.file content) ∈ tree.entries ↔ tree.get? q = some (.file content) := by
  rw [← Keyed.get?_eq_some_iff sound.once]
  by_cases root : q = []
  · subst root
    refine ⟨fun found => absurd rfl (sound.named [] (Keyed.mem_keys found)).1, fun found => ?_⟩
    cases found
  · rw [get?_of_ne_nil root]

theorem locate_of_open {path : String} (given : path ≠ "") (way : tree.Open path) :
    tree.locate path = .ok (place tree.directory path) := by
  rw [locate, if_neg (by simpa using given)]
  exact way.leads.1

-- A file that is found from `base` over some names, if the working directory is `here`.
structure Holds (tree : FileTree) (here : Place) (base path : String) (names : List String)
    (content : ByteArray) : Prop where
  found : tree.get? (place here base ++ names) = some (.file content)
  spelled : path = under base names
  are : ∀ name ∈ names, IsName name
  named : names ≠ []

theorem mem_filesUnder (sound : tree.Sound) {base path : String} (folder : ¬ tree.IsFile (place tree.directory base)) :
    path ∈ tree.filesUnder base ↔ base ≠ "" ∧ tree.Open base ∧
      ∃ names content, tree.Holds tree.directory base path names content := by
  unfold filesUnder
  cases located : tree.locate base with
  | error fault =>
      refine ⟨fun member => (nomatch member), fun ⟨given, way, _⟩ => ?_⟩
      cases located.symm.trans (locate_of_open given way)
  | ok there =>
      obtain ⟨given, rfl, way⟩ := locate_ok located
      cases is : tree.get? (place tree.directory base) with
      | none => exact ⟨fun member => by simp [is] at member, fun ⟨_, way, _⟩ => nomatch is.symm.trans way.place⟩
      | some entry =>
          cases entry with
          | file content => exact absurd ⟨content, is⟩ folder
          | directory =>
              simp only [is, List.mem_filterMap]
              constructor
              · rintro ⟨⟨q, entry⟩, member, found⟩
                cases entry with
                | directory => cases found
                | file content =>
                    cases below : below? (place tree.directory base) q with
                    | none =>
                        rw [below] at found
                        cases found
                    | some names =>
                        rw [below] at found
                        obtain rfl := below?_eq_some.mp below
                        have there := sound.mem_entries.mp member
                        refine ⟨given, way is, names, content, there, (Option.some.inj found).symm,
                          fun name name_in => sound.isName there name (List.mem_append_right _ name_in), ?_⟩
                        rintro rfl
                        rw [List.append_nil, is] at there
                        cases there
              · rintro ⟨-, -, names, content, holds⟩
                refine ⟨(place tree.directory base ++ names, .file content), sound.mem_entries.mpr holds.found, ?_⟩
                rw [below?_eq_some.mpr rfl, holds.spelled]
                rfl

theorem filesUnder_nodup (sound : tree.Sound) (base : String) : (tree.filesUnder base).Nodup := by
  unfold filesUnder
  split
  · exact List.nodup_nil
  · split
    · exact List.nodup_nil
    · exact List.pairwise_singleton _ _
    · -- One spelling is of one place, since the steps from the base can be read off it.
      refine List.pairwise_filterMap.mpr ((List.pairwise_map.mp sound.once).imp_of_mem ?_)
      rintro ⟨q, entry⟩ ⟨r, other⟩ q_in r_in apart path found _ found' rfl
      dsimp only at found found'
      split at found
      · next names below =>
        split at found'
        · next more below' =>
          obtain rfl := below?_eq_some.mp below
          obtain rfl := below?_eq_some.mp below'
          have are := sound.isName (sound.mem_entries.mp q_in)
          have are' := sound.isName (sound.mem_entries.mp r_in)
          have same : names = more :=
            Path.under_injective (fun name member => are name (List.mem_append_right _ member))
              (fun name member => are' name (List.mem_append_right _ member)) (Option.some.inj (found.trans found'.symm))
          exact apart (by rw [same])
        · cases found'
      · cases found

end FileTree
end Prerender
