import Prerender.Proofs.Constructions
import Prerender.Proofs.Edits

set_option autoImplicit false

/-!
The edits by which calls are taken out of a module. Each is tied to one node: an import goes, the name of a
component is replaced, a mark is put into an object literal. Edits of different nodes are apart, so every
stretch of the module is either the stretch of an edit, or stays as it was written.
-/
namespace Prerender

open Script (Node Kind Span)

def Script.Kind.isClausePart : Kind → Bool
  | .absent | .specifier | .binding _ | .name _ | .string _ | .attributes | .property => true
  | _ => false

def Script.Node.isObject (n : Node) : Bool :=
  match n.kind with
  | .object _ => true
  | _ => false

def Script.Node.isImport (n : Node) : Bool :=
  match n.kind with
  | .importDeclaration _ => true
  | _ => false

-- A tree whose stretches are those of `source`: braces stand around the parts of an object literal, and
-- an import holds no expression.
structure Script.Node.Written (source : String) (tree : Node) : Prop where
  order : tree.InSourceOrder
  program : tree.kind = .program
  fits : tree.span.stop ≤ source.length
  braced : ∀ n ∈ tree.descendants, n.isObject = true → n.span.start + 1 < n.span.stop ∧
    ∀ part ∈ n.parts, part.isLeftOut = false ∧ n.span.start < part.span.start ∧ part.span.stop < n.span.stop
  imports : ∀ n ∈ tree.descendants, n.isImport = true →
    ∀ m ∈ Node.descendantsOf n.parts, m.kind.isClausePart = true

instance (source : String) (tree : Node) : Decidable (tree.Written source) :=
  decidable_of_iff (tree.InSourceOrder ∧ tree.kind = .program ∧ tree.span.stop ≤ source.length ∧
      (∀ n ∈ tree.descendants, n.isObject = true → n.span.start + 1 < n.span.stop ∧ ∀ part ∈ n.parts,
        part.isLeftOut = false ∧ n.span.start < part.span.start ∧ part.span.stop < n.span.stop) ∧
      ∀ n ∈ tree.descendants, n.isImport = true → ∀ m ∈ Node.descendantsOf n.parts,
        m.kind.isClausePart = true)
    ⟨fun ⟨order, program, fits, braced, imports⟩ => ⟨order, program, fits, braced, imports⟩,
      fun ⟨order, program, fits, braced, imports⟩ => ⟨order, program, fits, braced, imports⟩⟩

inductive Target (n : Node) (e : Edit) : Prop
  | deletion {library : String} : n.kind = .importDeclaration library → e.span = n.span → Target n e
  | replacement {name : String} : n.kind = .reference name → e.span = n.span → Target n e
  | insertion {comma : Bool} : n.kind = .object comma → e.span.start = e.span.stop →
      n.span.start < e.span.start → e.span.start < n.span.stop →
      (∀ part ∈ n.parts, part.span.stop ≤ e.span.start) → Target n e

theorem Target.kind {n : Node} {e : Edit} (target : Target n e) :
    n.isLeftOut = false ∧ n.isPlainName = false ∧ n.kind.isClausePart = false ∧ n.kind ≠ .program := by
  cases n with
  | mk kind span parts =>
      cases target with
      | deletion is | replacement is | insertion is =>
          obtain rfl : kind = _ := is
          exact ⟨rfl, rfl, rfl, by simp [Node.kind]⟩

namespace Script.Node.Written

variable {source : String} {tree : Node}

theorem stretch (written : tree.Written source) {w : List Nat} {n : Node} (here : tree.at? w = some n)
    (below : n.kind ≠ .program) (solid : n.isLeftOut = false) :
    n.span.start < n.span.stop ∧ n.span.stop ≤ source.length := by
  have some_step : w ≠ [] := by
    rintro rfl
    obtain rfl := Option.some.inj here
    exact below written.program
  obtain ⟨stretch, -, stops⟩ := written.order.within here some_step solid
  exact ⟨stretch, Nat.le_trans stops written.fits⟩

theorem inside_target (written : tree.Written source) {w : List Nat} {n : Node} {e : Edit}
    (here : tree.at? w = some n) (target : Target n e) :
    e.span.start ≤ e.span.stop ∧ n.span.start ≤ e.span.start ∧ e.span.stop ≤ n.span.stop ∧
      e.span.start < n.span.stop := by
  obtain ⟨solid, -, -, below⟩ := target.kind
  have n_stretch := written.stretch here below solid
  cases target with
  | deletion _ same | replacement _ same => rw [same]; omega
  | insertion _ empty after before _ => omega

theorem target_fits (written : tree.Written source) {w : List Nat} {n : Node} {e : Edit}
    (here : tree.at? w = some n) (target : Target n e) : Edit.Fits source.toList.length e := by
  obtain ⟨solid, -, -, below⟩ := target.kind
  have n_stretch := written.stretch here below solid
  have inside := written.inside_target here target
  rw [String.length_toList]
  exact ⟨inside.1, by omega⟩

def InImport (tree : Node) (v : List Nat) : Prop :=
  ∃ s r n library, v = s ++ r ∧ r ≠ [] ∧ tree.at? s = some n ∧ n.kind = .importDeclaration library

theorem clausePart_of_inImport (written : tree.Written source) {v : List Nat} {m : Node}
    (there : tree.at? v = some m) (within : InImport tree v) : m.kind.isClausePart = true := by
  obtain ⟨s, r, n, library, rfl, some_step, here, is⟩ := within
  rw [at_append, here, Option.bind_some] at there
  refine written.imports n ((mem_descendants tree n).mpr ⟨s, here⟩) (by simp [isImport, is]) m ?_
  cases r with
  | nil => exact absurd rfl some_step
  | cons i r =>
      obtain ⟨part, found, below⟩ := Option.bind_eq_some_iff.mp there
      exact (mem_descendantsOf n.parts m).mpr
        ⟨part, List.mem_of_getElem? found, (mem_descendants part m).mpr ⟨r, below⟩⟩

-- An edit does not reach into a node that is not above its own and stands outside of imports.
theorem spares (written : tree.Written source) {v w : List Nat} {m n : Node} {e : Edit}
    (here : tree.at? w = some n) (target : Target n e) (there : tree.at? v = some m) (different : w ≠ v)
    (solid : m.isLeftOut = false) (unshared : Unshared tree v m) (outside : ¬ InImport tree v)
    (not_above : ∀ r, w ≠ v ++ r) :
    (e.span.stop ≤ m.span.start ∧ e.span.start < m.span.start) ∨ m.span.stop ≤ e.span.start := by
  obtain ⟨n_solid, n_shared, -, n_below⟩ := target.kind
  have n_stretch := written.stretch here n_below n_solid
  have inside := written.inside_target here target
  rcases lt_trichotomy w v with before | same | before
  · rcases written.order.above_or_apart before here there n_solid solid (unshared_of_not_plain n_shared) with
      ⟨r, some_step, rfl, under⟩ | parted
    · cases target with
      | deletion is _ => exact absurd ⟨w, r, n, _, rfl, some_step, here, is⟩ outside
      | replacement is _ =>
          -- A name has nothing below it.
          have word : n.isName = true := by simp [isName, is]
          have leaf := written.order.words n ((mem_descendants tree n).mpr ⟨w, here⟩) word
          exact absurd (at_of_no_parts n m r leaf under).1 some_step
      | insertion _ _ _ _ behind =>
          obtain ⟨part, part_in, -, ends⟩ := written.order.under_part here some_step there solid
          exact .inr (Nat.le_trans ends (behind part part_in))
    · exact .inl (by omega)
  · exact absurd same different
  · rcases written.order.above_or_apart before there here solid n_solid unshared with
      ⟨r, -, rfl, -⟩ | parted
    · exact absurd rfl (not_above r)
    · exact .inr (by omega)

theorem ends_with_last (written : tree.Written source) {object last : Node} {comma : Bool}
    (member : object ∈ tree.descendants) (is : object.kind = .object comma)
    (ends : object.parts.getLast? = some last) : ∀ part ∈ object.parts, part.span.stop ≤ last.span.stop := by
  intro part part_in
  obtain ⟨before, split⟩ := List.getLast?_eq_some_iff.mp ends
  have solid : ∀ part ∈ object.parts, part.isLeftOut = false := fun part part_in =>
    ((written.braced object member (by simp [isObject, is])).2 part part_in).1
  have last_solid := solid last (List.mem_of_getLast? ends)
  have stretch := (written.order.nested object member last (List.mem_of_getLast? ends)).resolve_left (by simp [last_solid])
  have order := written.order.ordered object member
  have part_solid := solid part part_in
  rw [split] at order part_in
  rcases List.mem_append.mp part_in with part_in | part_in
  · rcases (List.pairwise_append.mp order).2.2 part part_in last List.mem_cons_self with
      out | out | ⟨property, -⟩ | parted
    · simp [part_solid] at out
    · simp [last_solid] at out
    · simp [is] at property
    · exact Nat.le_trans parted (Nat.le_of_lt stretch.1)
  · exact Nat.le_of_eq (congrArg (·.span.stop) (List.mem_singleton.mp part_in))

theorem targets_apart (written : tree.Written source) {v w : List Nat} {m n : Node} {d e : Edit}
    (here : tree.at? w = some n) (target : Target n e) (there : tree.at? v = some m) (other : Target m d)
    (different : w ≠ v) : Edit.Apart e d := by
  have parted (w v : List Nat) (n m : Node) (e d : Edit) (here : tree.at? w = some n) (target : Target n e)
      (there : tree.at? v = some m) (other : Target m d) (before : w < v) : Edit.Apart e d := by
    obtain ⟨m_solid, m_shared, m_kind, -⟩ := other.kind
    have inside := written.inside_target there other
    have spared := written.spares here target there (fun same => List.lt_irrefl v (same ▸ before)) m_solid
      (unshared_of_not_plain m_shared)
      (fun within => by simp [written.clausePart_of_inImport there within] at m_kind)
      (fun r below => List.not_lt.mpr (below ▸ List.le_append_left) before)
    unfold Edit.Apart
    omega
  rcases lt_trichotomy w v with before | same | before
  · exact parted w v n m e d here target there other before
  · exact absurd same different
  · exact (parted v w m n d e there other here target before).symm

end Script.Node.Written

namespace Construction

variable {source : String} {tree n : Node} {factories : List String} {bindings : Bindings} {c : Construction}
  {p : List Nat}

theorem target_name (here : tree.at? p = some n) (found : ofNode? factories bindings n = some c) :
    ∃ name local_name, tree.at? (p ++ [2]) = some name ∧ name.kind = .reference local_name ∧
      name.span = c.name := by
  obtain ⟨callee, generics, name, object, rest, local_name, comma, parts, is, same, -⟩ := parts_of_ofNode found
  exact ⟨name, local_name, Node.at_part_of here (by rw [parts]; rfl), is, same⟩

theorem target_mark (written : tree.Written source) (here : tree.at? p = some n)
    (found : ofNode? factories bindings n = some c) :
    ∃ object comma, tree.at? (p ++ [3]) = some object ∧ object.kind = .object comma ∧
      Target object c.markEdit := by
  obtain ⟨callee, generics, name, object, rest, local_name, comma, parts, -, -, is, same, listed⟩ :=
    parts_of_ofNode found
  have there : tree.at? (p ++ [3]) = some object := Node.at_part_of here (by rw [parts]; rfl)
  have member : object ∈ tree.descendants := (Node.mem_descendants tree object).mpr ⟨_, there⟩
  obtain ⟨room, braced⟩ := written.braced object member (by simp [Node.isObject, is])
  refine ⟨object, comma, there, is, ?_⟩
  rw [listed] at braced
  unfold markEdit
  cases last : c.properties.getLast? with
  | none =>
      have empty := List.getLast?_eq_none_iff.mp last
      refine .insertion is rfl ?_ ?_ fun part written => ?_
      · exact same ▸ Nat.lt_succ_self c.object.start
      · rw [same] at room ⊢
        exact room
      · simp [listed, empty] at written
  | some last_property =>
      have last_in := List.mem_of_getLast? last
      obtain ⟨solid, opens, closes⟩ := braced last_property last_in
      have stretch := (written.order.nested object member last_property (listed ▸ last_in)).resolve_left
        (by simp [solid])
      exact .insertion is rfl (Nat.lt_trans opens stretch.1) closes
        (written.ends_with_last member is (listed ▸ last))

end Construction

namespace Extraction

variable {source library : String} {tree : Node} {factories : List String} {bindings : Bindings}

theorem target_of_importEdit {n : Node} {e : Edit} (made : importEdit? library n = some e) :
    n.kind = .importDeclaration library ∧ e = ⟨n.span, ""⟩ := by
  unfold importEdit? at made
  split at made
  next other is =>
    split at made
    next same => exact ⟨same ▸ is, (Option.some.inj made).symm⟩
    next => cases made
  next => cases made

theorem target_of_edit (written : tree.Written source) {p : List Nat} {n : Node} {c : Construction} {k : Nat}
    {e : Edit} (here : tree.at? p = some n) (found : Construction.ofNode? factories bindings n = some c)
    (made : e ∈ c.edits k) :
    ∃ i m, tree.at? (p ++ [i]) = some m ∧ Target m e ∧ m.isImport = false ∧
      (m.isName = true → IsComponent factories bindings tree (p ++ [i])) := by
  rcases List.mem_cons.mp made with rfl | made
  · obtain ⟨name, local_name, there, is, same⟩ := Construction.target_name here found
    refine ⟨2, name, there, .replacement is same.symm, by simp [Node.isImport, is], fun _ => ?_⟩
    exact ⟨p, n, _, _, rfl, here, Construction.isConstruction_of_ofNode found⟩
  · obtain rfl := List.mem_singleton.mp made
    obtain ⟨object, comma, there, is, target⟩ := Construction.target_mark written here found
    exact ⟨3, object, there, target, by simp [Node.isImport, is], fun named => by simp [Node.isName, is] at named⟩

theorem edits_of_construction_apart (written : tree.Written source) {p : List Nat} {n : Node}
    {c : Construction} (k : Nat) (here : tree.at? p = some n)
    (found : Construction.ofNode? factories bindings n = some c) : (c.edits k).Pairwise Edit.Apart := by
  obtain ⟨name, local_name, name_there, is, same⟩ := Construction.target_name here found
  obtain ⟨object, comma, object_there, -, target⟩ := Construction.target_mark written here found
  refine List.pairwise_pair.mpr (written.targets_apart name_there (.replacement is same.symm) object_there target ?_)
  intro same
  simp at same

theorem imports_apart (written : tree.Written source) :
    (tree.descendants.filterMap (importEdit? library)).Pairwise Edit.Apart := by
  rw [Node.filterMap_descendants, List.pairwise_filterMap]
  apply (Node.places_ascending tree).imp
  intro p q before e e_made d d_made
  obtain ⟨n, here, e_made⟩ := Option.bind_eq_some_iff.mp e_made
  obtain ⟨m, there, d_made⟩ := Option.bind_eq_some_iff.mp d_made
  obtain ⟨n_is, rfl⟩ := target_of_importEdit e_made
  obtain ⟨m_is, rfl⟩ := target_of_importEdit d_made
  exact written.targets_apart here (.deletion n_is rfl) there (.deletion m_is rfl)
    fun same => List.lt_irrefl q (same ▸ before)

theorem construction_at {k : Nat} {c : Construction} (numbered : (Construction.all factories bindings tree)[k]? = some c) :
    ∃ p n, (Construction.places factories bindings tree)[k]? = some p ∧ tree.at? p = some n ∧
      Construction.ofNode? factories bindings n = some c := by
  have low := (List.getElem?_eq_some_iff.mp numbered).1
  rw [Construction.length_all] at low
  have at_k := List.getElem?_eq_getElem low
  have entry := Construction.get_all tree k _ at_k
  rw [numbered] at entry
  obtain ⟨n, here, found⟩ := Option.bind_eq_some_iff.mp entry.symm
  exact ⟨_, n, at_k, here, found⟩

theorem constructions_apart (written : tree.Written source) :
    ((Construction.all factories bindings tree).mapIdx fun k c => c.edits k).flatten.Pairwise Edit.Apart := by
  refine List.pairwise_flatten.mpr ⟨fun es member => ?_, List.pairwise_iff_getElem.mpr fun j k j_low k_low less => ?_⟩
  · obtain ⟨k, low, rfl⟩ := List.mem_iff_getElem.mp member
    rw [List.length_mapIdx] at low
    obtain ⟨p, n, -, here, found⟩ := construction_at (List.getElem?_eq_getElem low)
    rw [List.getElem_mapIdx]
    exact edits_of_construction_apart written k here found
  · rw [List.length_mapIdx] at j_low k_low
    obtain ⟨p, n, p_at, here, n_found⟩ := construction_at (List.getElem?_eq_getElem j_low)
    obtain ⟨q, m, q_at, there, m_found⟩ := construction_at (List.getElem?_eq_getElem k_low)
    rw [List.getElem_mapIdx, List.getElem_mapIdx]
    intro e e_made d d_made
    obtain ⟨i, x, x_there, x_target, -⟩ := target_of_edit written here n_found e_made
    obtain ⟨i', y, y_there, y_target, -⟩ := target_of_edit written there m_found d_made
    refine written.targets_apart x_there x_target y_there y_target fun same => ?_
    have same_place := (List.append_inj' same rfl).1
    obtain ⟨p_low, rfl⟩ := List.getElem?_eq_some_iff.mp p_at
    obtain ⟨q_low, rfl⟩ := List.getElem?_eq_some_iff.mp q_at
    have before := List.pairwise_iff_getElem.mp ((Node.places_ascending tree).filter _) j k p_low q_low less
    exact List.lt_irrefl _ (same_place ▸ before)

theorem target_of_mem_edits (written : tree.Written source) {e : Edit}
    (made : e ∈ edits library (Construction.all factories bindings tree) tree) :
    ∃ w n, tree.at? w = some n ∧ Target n e ∧ (n.isName = true → IsComponent factories bindings tree w) := by
  rcases List.mem_append.mp made with made | made
  · obtain ⟨n, member, made⟩ := List.mem_filterMap.mp made
    obtain ⟨w, here⟩ := (Node.mem_descendants tree n).mp member
    obtain ⟨is, rfl⟩ := target_of_importEdit made
    exact ⟨w, n, here, .deletion is rfl, fun named => by simp [Node.isName, is] at named⟩
  · obtain ⟨es, member, made⟩ := List.mem_flatten.mp made
    obtain ⟨k, low, rfl⟩ := List.mem_iff_getElem.mp member
    rw [List.length_mapIdx] at low
    rw [List.getElem_mapIdx] at made
    obtain ⟨p, n, -, here, found⟩ := construction_at (List.getElem?_eq_getElem low)
    obtain ⟨i, m, there, target, -, named⟩ := target_of_edit written here found made
    exact ⟨p ++ [i], m, there, target, named⟩

theorem edits_apart (written : tree.Written source) :
    (edits library (Construction.all factories bindings tree) tree).Pairwise Edit.Apart := by
  refine List.pairwise_append.mpr ⟨imports_apart written, constructions_apart written, fun d d_made e e_made => ?_⟩
  obtain ⟨n, member, d_made⟩ := List.mem_filterMap.mp d_made
  obtain ⟨w, here⟩ := (Node.mem_descendants tree n).mp member
  obtain ⟨n_is, rfl⟩ := target_of_importEdit d_made
  obtain ⟨es, member, e_made⟩ := List.mem_flatten.mp e_made
  obtain ⟨k, low, rfl⟩ := List.mem_iff_getElem.mp member
  rw [List.length_mapIdx] at low
  rw [List.getElem_mapIdx] at e_made
  obtain ⟨p, m, -, there, found⟩ := construction_at (List.getElem?_eq_getElem low)
  obtain ⟨i, x, x_there, target, not_import, -⟩ := target_of_edit written there found e_made
  refine written.targets_apart here (.deletion n_is rfl) x_there target ?_
  rintro rfl
  obtain rfl := Option.some.inj (here.symm.trans x_there)
  simp [Node.isImport, n_is] at not_import

theorem edits_fit (written : tree.Written source) :
    ∀ e ∈ edits library (Construction.all factories bindings tree) tree, Edit.Fits source.toList.length e := by
  intro e made
  obtain ⟨w, n, here, target, -⟩ := target_of_mem_edits written made
  exact written.target_fits here target

theorem replacement_mem_edits (library : String) {p : List Nat} {m : Node} (is : IsComponent factories bindings tree p)
    (there : tree.at? p = some m) :
    ∃ (k : Nat) (c : Construction), (Construction.all factories bindings tree)[k]? = some c ∧
      ⟨m.span, c.identifier k⟩ ∈ edits library (Construction.all factories bindings tree) tree := by
  obtain ⟨q, n, binding, properties, rfl, here, is⟩ := is
  obtain ⟨name, object, found⟩ := Construction.ofNode_of_isConstruction is
  have member := (Construction.mem_places tree q).mpr ⟨n, binding, properties, here, is⟩
  obtain ⟨k, low, at_k⟩ := List.mem_iff_getElem.mp member
  have numbered := Construction.get_all tree k q (List.getElem?_eq_some_iff.mpr ⟨low, at_k⟩)
  rw [here, Option.bind_some, found] at numbered
  obtain ⟨named, local_name, name_there, -, same⟩ := Construction.target_name here found
  obtain rfl := Option.some.inj (name_there.symm.trans there)
  have listed : ((Construction.all factories bindings tree).mapIdx fun k c => c.edits k)[k]? =
      some ((⟨binding, name, object, properties⟩ : Construction).edits k) := by
    rw [List.getElem?_mapIdx, numbered]
    rfl
  refine ⟨k, _, numbered, List.mem_append.mpr (.inr (List.mem_flatten.mpr ⟨_, List.mem_of_getElem? listed, ?_⟩))⟩
  rw [same]
  exact List.mem_cons_self

end Extraction

end Prerender
