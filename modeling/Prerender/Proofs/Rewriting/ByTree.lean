import Prerender.Proofs.Rewriting
import Prerender.Proofs.Rewriting.Weave
import Prerender.Proofs.Script.Parse

set_option autoImplicit false

namespace Prerender

open Script (Node Kind Span)
open Edit (stretch weave Woven)

structure Rewriting where
  source : List Char
  library : String
  factories : List String
  bindings : Bindings

namespace Rewriting

inductive Role where
  | plain
  | component (edit : Edit)
  | properties (mark : Edit)

def Role.edits : Role → List Edit
  | plain => []
  | component edit => [edit]
  | properties mark => [mark]

def rolesOf (c : Construction) (k : Nat) : List Role :=
  [.plain, .plain, .component ⟨c.name, c.identifier k⟩, .properties c.markEdit]

-- A part without a text of its own; a name is written as part of the text between nodes.
def isBare (n : Node) : Bool := n.isLeftOut || n.isPlainName

variable (r : Rewriting)

def count (n : Node) : Nat := (Construction.all r.factories r.bindings n).length

mutual
def text (k : Nat) : Role → Node → List Char
| .component edit, _ => edit.text.toList
| .properties mark, .mk _ span parts =>
    texts k [] span.start mark.span.start parts ++ (mark.text.toList ++ stretch r.source mark.span.stop span.stop)
| .plain, .mk kind span parts =>
    if kind = .importDeclaration r.library then []
    else
      match Construction.ofNode? r.factories r.bindings (.mk kind span parts) with
      | some c => texts (k + 1) (rolesOf c k) span.start span.stop parts
      | none => texts k [] span.start span.stop parts
def texts (k : Nat) (roles : List Role) (a b : Nat) : List Node → List Char
| [] => stretch r.source a b
| n :: ns =>
    if isBare n then texts k roles.tail a b ns
    else
      stretch r.source a n.span.start ++
        (text k (roles.headD .plain) n ++ texts (k + r.count n) roles.tail n.span.stop b ns)
end

mutual
def edits (k : Nat) : Role → Node → List Edit
| .component edit, _ => [edit]
| .properties mark, .mk _ _ parts => editsOf k [] parts ++ [mark]
| .plain, .mk kind span parts =>
    if kind = .importDeclaration r.library then [⟨span, ""⟩]
    else
      match Construction.ofNode? r.factories r.bindings (.mk kind span parts) with
      | some c => editsOf (k + 1) (rolesOf c k) parts
      | none => editsOf k [] parts
def editsOf (k : Nat) (roles : List Role) : List Node → List Edit
| [] => []
| n :: ns =>
    if isBare n then editsOf k roles.tail ns
    else edits k (roles.headD .plain) n ++ editsOf (k + r.count n) roles.tail ns
end

def Role.Suits (n : Node) : Role → Prop
  | plain => True
  | component edit => (∃ name, n.kind = .reference name) ∧ edit.span = n.span
  | properties mark => (∃ comma, n.kind = .object comma) ∧ mark.span.start = mark.span.stop ∧
      n.span.start < mark.span.start ∧ mark.span.start < n.span.stop ∧
      ∀ part ∈ n.parts, part.span.stop ≤ mark.span.start

def Suited : List Role → List Node → Prop
  | [], _ => True
  | _ :: _, [] => False
  | role :: roles, n :: ns => role.Suits n ∧ Suited roles ns

theorem Suited.uncons {roles : List Role} {n : Node} {ns : List Node} (suited : Suited roles (n :: ns)) :
    (roles.headD .plain).Suits n ∧ Suited roles.tail ns := by
  cases roles with
  | nil => exact ⟨trivial, trivial⟩
  | cons role roles => exact suited

structure Lined (a b : Nat) (ns : List Node) : Prop where
  within : ∀ n ∈ ns, isBare n = true ∨ (n.span.start < n.span.stop ∧ a ≤ n.span.start ∧ n.span.stop ≤ b)
  ordered : ns.Pairwise fun m n => isBare m = true ∨ isBare n = true ∨ m.span.stop ≤ n.span.start

theorem Lined.skip {a b : Nat} {n : Node} {ns : List Node} (lined : Lined a b (n :: ns)) : Lined a b ns :=
  ⟨(List.forall_mem_cons.mp lined.within).2, (List.pairwise_cons.mp lined.ordered).2⟩

theorem Lined.pass {a b : Nat} {n : Node} {ns : List Node} (lined : Lined a b (n :: ns)) (written : isBare n = false) :
    (n.span.start < n.span.stop ∧ a ≤ n.span.start ∧ n.span.stop ≤ b) ∧ Lined n.span.stop b ns := by
  obtain ⟨first, within⟩ := List.forall_mem_cons.mp lined.within
  obtain ⟨before, ordered⟩ := List.pairwise_cons.mp lined.ordered
  refine ⟨first.resolve_left (by simp [written]), fun m member => ?_, ordered⟩
  rcases within m member, before m member with ⟨bare | inside, out | bare | parted⟩
  · exact .inl bare
  · exact .inl bare
  · exact .inl bare
  · simp [written] at out
  · exact .inl bare
  · exact .inr ⟨inside.1, parted, inside.2.2⟩

variable {r : Rewriting} {source : String} {tree : Node}

theorem mem_part {n part : Node} (member : n ∈ tree.descendants) (part_in : part ∈ n.parts) : part ∈ tree.descendants := by
  obtain ⟨p, here⟩ := (Node.mem_descendants tree n).mp member
  obtain ⟨i, found⟩ := List.mem_iff_getElem?.mp part_in
  exact (Node.mem_descendants tree part).mpr ⟨p ++ [i], Node.at_part_of here found⟩

theorem lined_parts (written : tree.Written source) {n : Node} (member : n ∈ tree.descendants) :
    Lined n.span.start n.span.stop n.parts := by
  refine ⟨fun part part_in => ?_, (written.order.ordered n member).imp fun {a b} parted => ?_⟩
  · exact (written.order.nested n member part part_in).imp_left fun out => by simp [isBare, out]
  · rcases parted with out | out | ⟨-, plain⟩ | parted
    · exact .inl (by simp [isBare, out])
    · exact .inr (.inl (by simp [isBare, out]))
    · exact .inl (by simp [isBare, plain])
    · exact .inr (.inr parted)

theorem suited_rolesOf (written : tree.Written source) {n : Node} {c : Construction} (k : Nat)
    (member : n ∈ tree.descendants) (found : Construction.ofNode? r.factories r.bindings n = some c) :
    Suited (rolesOf c k) n.parts := by
  obtain ⟨p, here⟩ := (Node.mem_descendants tree n).mp member
  obtain ⟨callee, generics, name, object, rest, local_name, comma, parts, is, same, -⟩ :=
    Construction.parts_of_ofNode found
  obtain ⟨object', comma', there, is', target⟩ := Construction.target_mark written here found
  obtain rfl : object = object' :=
    Option.some.inj ((Node.at_part_of here (by rw [parts]; rfl)).symm.trans there)
  rw [parts]
  refine ⟨trivial, trivial, ⟨⟨local_name, is⟩, same.symm⟩, ⟨⟨comma', is'⟩, ?_⟩, trivial⟩
  cases target with
  | deletion is | replacement is => simp [is'] at is
  | insertion _ empty after before behind => exact ⟨empty, after, before, behind⟩

mutual
theorem woven_text (written : tree.Written source) (k : Nat) (role : Role) : ∀ n : Node, n ∈ tree.descendants → role.Suits n →
    n.span.start < n.span.stop → Woven r.source n.span.start n.span.stop (r.edits k role n) (r.text k role n)
| .mk kind span parts, member, suits, stretches => by
    have lined := lined_parts written member
    have members : ∀ part ∈ parts, part ∈ tree.descendants := fun part part_in => mem_part member part_in
    cases role with
    | component edit =>
        obtain ⟨-, same⟩ := suits
        rw [← same] at stretches ⊢
        exact .alone r.source stretches
    | properties mark =>
        obtain ⟨-, empty, after, before, behind⟩ := suits
        have front : Lined span.start mark.span.start parts :=
          ⟨fun part part_in => (lined.within part part_in).imp_right fun ⟨some_room, low, _⟩ =>
            ⟨some_room, low, behind part part_in⟩, lined.ordered⟩
        have properties := woven_texts written k [] span.start mark.span.start parts members trivial front after.le
        exact properties.append (.one empty.le (empty ▸ before.le) before) after.le before.le
    | plain =>
        rw [edits, text]
        split
        · exact Woven.alone r.source (e := ⟨span, ""⟩) stretches
        · split
          · rename_i c found
            exact woven_texts written (k + 1) (rolesOf c k) _ _ parts members (suited_rolesOf written k member found) lined stretches.le
          · exact woven_texts written k [] _ _ parts members trivial lined stretches.le
theorem woven_texts (written : tree.Written source) (k : Nat) (roles : List Role) (a b : Nat) : ∀ ns : List Node,
    (∀ n ∈ ns, n ∈ tree.descendants) → Suited roles ns → Lined a b ns → a ≤ b →
    Woven r.source a b (r.editsOf k roles ns) (r.texts k roles a b ns)
| [], _, _, _, _ => .gap _ _ _
| n :: ns, members, suited, lined, room => by
    obtain ⟨suits, suited⟩ := suited.uncons
    obtain ⟨member, members⟩ := List.forall_mem_cons.mp members
    rw [editsOf, texts]
    split
    · exact woven_texts written k roles.tail a b ns members suited lined.skip room
    · rename_i written_name
      obtain ⟨⟨stretches, low, high⟩, lined⟩ := lined.pass (by simpa using written_name)
      have here := woven_text written k (roles.headD .plain) n member suits stretches
      have rest := woven_texts written (k + r.count n) roles.tail n.span.stop b ns members suited lined high
      have onward := here.append rest stretches.le high
      exact (Woven.gap r.source a n.span.start).append onward low (stretches.le.trans high)
end

theorem ofNode?_of_kind {n : Node} (other : n.kind ≠ .call) :
    Construction.ofNode? r.factories r.bindings n = none := by
  have uncalled : n.call? = none := by
    unfold Node.call?
    split
    · exact absurd rfl other
    · rfl
  rw [Construction.ofNode?, uncalled]

theorem importEdit?_of_kind {n : Node} {library : String} (other : n.kind ≠ .importDeclaration library) :
    Extraction.importEdit? library n = none := by
  unfold Extraction.importEdit?
  split
  · rename_i source is
    exact if_neg fun same => other (by rw [is, same])
  · rfl

def listed (r : Rewriting) (k : Nat) (ns : List Node) : List Edit :=
  ns.filterMap (Extraction.importEdit? r.library) ++
    ((ns.filterMap (Construction.ofNode? r.factories r.bindings)).mapIdx fun i c => c.edits (k + i)).flatten

theorem listed_append (r : Rewriting) (k : Nat) (n : Node) (ns : List Node) :
    (r.listed k (n.descendants ++ ns)).Perm (r.listed k n.descendants ++ r.listed (k + r.count n) ns) := by
  have index (count i : Nat) : k + (i + count) = k + count + i := by omega
  unfold listed count Construction.all
  rw [List.filterMap_append, List.filterMap_append, List.mapIdx_append, List.flatten_append, List.append_assoc,
    List.append_assoc]
  simp only [index]
  exact (List.perm_append_comm_assoc _ _ _).append_left _

theorem listed_cons {n : Node} (k : Nat) (ns : List Node) (kept : n.kind ≠ .importDeclaration r.library)
    (other : Construction.ofNode? r.factories r.bindings n = none) : r.listed k (n :: ns) = r.listed k ns := by
  rw [listed, List.filterMap_cons_none (importEdit?_of_kind kept), List.filterMap_cons_none other, listed]

theorem listed_construction {n : Node} {c : Construction} (k : Nat) (ns : List Node)
    (found : Construction.ofNode? r.factories r.bindings n = some c) :
    (r.listed k (n :: ns)).Perm (c.edits k ++ r.listed (k + 1) ns) := by
  have call : n.kind = .call := by
    by_contra other
    rw [ofNode?_of_kind other] at found
    cases found
  have index : (fun (i : Nat) (c : Construction) => c.edits (k + (i + 1))) = fun i c => c.edits (k + 1 + i) := by
    funext i c
    rw [Nat.add_comm i 1, Nat.add_assoc]
  rw [listed, List.filterMap_cons_none (importEdit?_of_kind (by simp [call])), List.filterMap_cons_some found,
    List.mapIdx_cons, List.flatten_cons, index, listed]
  exact List.perm_append_comm_assoc _ _ _

theorem listed_clause (k : Nat) {ns : List Node} (are : ∀ n ∈ ns, n.kind.isClausePart = true) :
    r.listed k ns = [] := by
  induction ns with
  | nil => rfl
  | cons n ns ih =>
      obtain ⟨is, are⟩ := List.forall_mem_cons.mp are
      rw [listed_cons k ns (fun same => by simp [same, Script.Kind.isClausePart] at is)
        (ofNode?_of_kind fun same => by simp [same, Script.Kind.isClausePart] at is), ih are]

theorem listed_bare (k : Nat) {n : Node} (bare : isBare n = true) :
    r.listed k n.descendants = [] ∧ r.count n = 0 := by
  have leaf : n.parts = [] ∧ n.kind.isClausePart = true := by
    rcases Bool.or_eq_true_iff.mp bare with out | plain
    · refine ⟨Node.isLeftOut_parts n out, ?_⟩
      unfold Node.isLeftOut at out
      split at out
      · rfl
      · cases out
    · refine ⟨Node.isPlainName_parts n plain, ?_⟩
      unfold Node.isPlainName at plain
      split at plain
      · rfl
      · cases plain
  cases n with
  | mk kind span parts =>
      obtain ⟨rfl, is⟩ := leaf
      refine ⟨listed_clause k (List.forall_mem_singleton.mpr is), ?_⟩
      have none : Construction.ofNode? r.factories r.bindings (.mk kind span []) = none :=
        ofNode?_of_kind fun same => by simp [same, Script.Kind.isClausePart] at is
      rw [count, Construction.all, Node.descendants, Node.descendantsOf, List.filterMap_cons_none none]
      rfl

theorem edits_of_bare {role : Role} {n : Node} (suits : role.Suits n) (bare : isBare n = true) : role.edits = [] := by
  unfold isBare Node.isLeftOut Node.isPlainName at bare
  cases role with
  | plain => rfl
  | component edit =>
      obtain ⟨⟨name, is⟩, -⟩ := suits
      split at bare
      · cases is
      · split at bare
        · cases is
        · cases bare
  | properties mark =>
      obtain ⟨⟨comma, is⟩, -⟩ := suits
      split at bare
      · cases is
      · split at bare
        · cases is
        · cases bare

mutual
theorem edits_perm (written : tree.Written source) (k : Nat) (role : Role) : ∀ n : Node, n ∈ tree.descendants →
    role.Suits n → (role.edits ++ r.listed k n.descendants).Perm (r.edits k role n)
| .mk kind span parts, member, suits => by
    have members : ∀ part ∈ parts, part ∈ tree.descendants := fun part part_in => mem_part member part_in
    rw [Node.descendants]
    cases role with
    | component edit =>
        obtain ⟨⟨name, is⟩, -⟩ := suits
        obtain rfl : kind = .reference name := is
        obtain rfl : parts = [] := written.order.words _ member rfl
        rw [listed_cons k _ (by simp [Node.kind]) (ofNode?_of_kind (by simp [Node.kind])), edits]
        exact .refl _
    | properties mark =>
        obtain ⟨⟨comma, is⟩, -⟩ := suits
        obtain rfl : kind = .object comma := is
        rw [listed_cons k _ (by simp [Node.kind]) (ofNode?_of_kind (by simp [Node.kind])), edits]
        exact List.perm_append_comm.trans ((editsOf_perm written k [] parts members trivial).append_right _)
    | plain =>
        rw [edits]
        split
        · rename_i is
          subst is
          have below : r.listed k (Node.descendantsOf parts) = [] := listed_clause k (written.imports _ member rfl)
          have own : Extraction.importEdit? r.library (.mk (.importDeclaration r.library) span parts) = some ⟨span, ""⟩ :=
            if_pos rfl
          rw [listed, List.append_eq_nil_iff] at below
          rw [listed, List.filterMap_cons_some own, List.filterMap_cons_none (ofNode?_of_kind (by simp [Node.kind])),
            below.1, below.2]
          exact .refl _
        · rename_i kept
          split
          · rename_i c found
            refine (listed_construction k _ found).trans ?_
            exact editsOf_perm written (k + 1) (rolesOf c k) parts members (suited_rolesOf written k member found)
          · rename_i none
            rw [listed_cons (n := .mk kind span parts) k _ kept none]
            exact editsOf_perm written k [] parts members trivial
theorem editsOf_perm (written : tree.Written source) (k : Nat) (roles : List Role) : ∀ ns : List Node,
    (∀ n ∈ ns, n ∈ tree.descendants) → Suited roles ns →
    (roles.flatMap Role.edits ++ r.listed k (Node.descendantsOf ns)).Perm (r.editsOf k roles ns)
| [], _, suited => by
    cases roles with
    | nil => exact .refl _
    | cons role roles => exact suited.elim
| n :: ns, members, suited => by
    obtain ⟨suits, suited⟩ := suited.uncons
    obtain ⟨member, members⟩ := List.forall_mem_cons.mp members
    have split_roles : roles.flatMap Role.edits = (roles.headD .plain).edits ++ roles.tail.flatMap Role.edits := by
      cases roles <;> rfl
    have apart := listed_append r k n (Node.descendantsOf ns)
    rw [Node.descendantsOf, editsOf, split_roles]
    refine (apart.append_left _).trans ?_
    split
    · rename_i bare
      obtain ⟨nothing, none⟩ := listed_bare (r := r) k bare
      rw [edits_of_bare suits bare, nothing, List.nil_append, List.nil_append]
      have rest := editsOf_perm written (k + r.count n) roles.tail ns members suited
      rwa [none] at rest ⊢
    · have here := edits_perm written k (roles.headD .plain) n member suits
      have rest := editsOf_perm written (k + r.count n) roles.tail ns members suited
      refine .trans ?_ (here.append rest)
      rw [List.append_assoc, List.append_assoc]
      exact (List.perm_append_comm_assoc _ _ _).append_left _
end

theorem lined_statements (written : tree.Written source) : Lined 0 source.toList.length tree.parts := by
  have root : tree ∈ tree.descendants := (Node.mem_descendants tree tree).mpr ⟨[], rfl⟩
  have fits : tree.span.stop ≤ source.toList.length := String.length_toList ▸ written.fits
  exact ⟨fun part part_in => ((lined_parts written root).within part part_in).imp_right fun ⟨some_room, _, high⟩ =>
    ⟨some_room, Nat.zero_le _, high.trans fits⟩, (lined_parts written root).ordered⟩

theorem applyAll_edits (written : tree.Written source) (library : String) (factories : List String)
    (bindings : Bindings) :
    Edit.applyAll (Extraction.edits library (Construction.all factories bindings tree) tree) source.toList =
      (⟨source.toList, library, factories, bindings⟩ : Rewriting).texts 0 [] 0 source.toList.length tree.parts := by
  obtain ⟨r, parameters⟩ : ∃ r : Rewriting, r = ⟨source.toList, library, factories, bindings⟩ := ⟨_, rfl⟩
  rw [← parameters]
  have root : tree ∈ tree.descendants := (Node.mem_descendants tree tree).mpr ⟨[], rfl⟩
  have members : ∀ part ∈ tree.parts, part ∈ tree.descendants := fun part part_in => mem_part root part_in
  have woven := woven_texts (r := r) written 0 [] 0 source.toList.length tree.parts members trivial
    (lined_statements written) (Nat.zero_le _)
  have perm := editsOf_perm (r := r) written 0 [] tree.parts members trivial
  have all : r.listed 0 tree.descendants = r.listed 0 (Node.descendantsOf tree.parts) := by
    have program := written.program
    cases tree with
    | mk kind span parts =>
        obtain rfl : kind = .program := program
        exact listed_cons 0 _ (by simp [Node.kind]) (ofNode?_of_kind (by simp [Node.kind]))
  have listing : Extraction.edits library (Construction.all factories bindings tree) tree = r.listed 0 tree.descendants := by
    simp only [parameters, listed, Nat.zero_add]
    rfl
  subst parameters
  rw [listing, all]
  exact woven.applyAll_eq perm.symm

theorem text_verbatim (written : tree.Written source) (k : Nat) {n : Node} (member : n ∈ tree.descendants)
    (room : n.span.start < n.span.stop) (kept : ∀ m ∈ n.descendants, m.kind ≠ .importDeclaration r.library)
    (unconstructed : ∀ m ∈ n.descendants, Construction.ofNode? r.factories r.bindings m = none) :
    r.text k .plain n = stretch r.source n.span.start n.span.stop := by
  have nothing : r.listed k n.descendants = [] := by
    have imports : n.descendants.filterMap (Extraction.importEdit? r.library) = [] :=
      List.filterMap_eq_nil_iff.mpr fun m below => importEdit?_of_kind (kept m below)
    have constructions : n.descendants.filterMap (Construction.ofNode? r.factories r.bindings) = [] :=
      List.filterMap_eq_nil_iff.mpr unconstructed
    rw [listed, imports, constructions]
    rfl
  have perm := edits_perm (r := r) written k .plain n member trivial
  rw [nothing] at perm
  have made := (woven_text (r := r) written k .plain n member trivial room).made
  rw [List.nil_perm.mp perm, weave] at made
  exact made.symm

theorem texts_from (k : Nat) (roles : List Role) {a b c : Nat} {ns : List Node} (low : a ≤ c) (high : c ≤ b)
    (behind : ∀ n ∈ ns, isBare n = true ∨ c ≤ n.span.start) :
    r.texts k roles a b ns = stretch r.source a c ++ r.texts k roles c b ns := by
  induction ns generalizing k roles with
  | nil => exact (Edit.stretch_append r.source low high).symm
  | cons n ns ih =>
      obtain ⟨first, behind⟩ := List.forall_mem_cons.mp behind
      rw [texts, texts]
      split
      · exact ih k roles.tail behind
      · rename_i written
        have begins := first.resolve_left written
        rw [← Edit.stretch_append r.source low begins, List.append_assoc]

theorem texts_verbatim (k : Nat) {a b : Nat} {ds ns : List Node} (room : a ≤ b) (lined : Lined a b (ds ++ ns))
    (still : ∀ d ∈ ds, isBare d = false ∧ ∀ k, r.text k .plain d = stretch r.source d.span.start d.span.stop) :
    let stop := ds.foldl (fun _ d => d.span.stop) a
    a ≤ stop ∧ stop ≤ b ∧ Lined stop b ns ∧
      ∃ k', r.texts k [] a b (ds ++ ns) = stretch r.source a stop ++ r.texts k' [] stop b ns := by
  induction ds generalizing a k with
  | nil => exact ⟨Nat.le_refl a, room, lined, k, by rw [List.foldl_nil, Edit.stretch_self]; rfl⟩
  | cons d ds ih =>
      obtain ⟨⟨written, verbatim⟩, still⟩ := List.forall_mem_cons.mp still
      obtain ⟨⟨solid, low, high⟩, onward⟩ := lined.pass written
      obtain ⟨further, ends, rest, k', same⟩ := ih (k + r.count d) high onward still
      refine ⟨low.trans (solid.le.trans further), ends, rest, k', ?_⟩
      rw [List.cons_append, texts, if_neg (by simp [written]), List.headD_nil, verbatim, List.tail_nil, same,
        List.foldl_cons, ← List.append_assoc, ← List.append_assoc, Edit.stretch_append r.source low solid.le,
        Edit.stretch_append r.source (low.trans solid.le) further]

theorem texts_bare (k : Nat) (roles : List Role) (a b : Nat) {ns : List Node} (bare : ∀ n ∈ ns, isBare n = true) :
    r.texts k roles a b ns = stretch r.source a b := by
  induction ns generalizing k roles with
  | nil => rfl
  | cons n ns ih =>
      obtain ⟨is, are⟩ := List.forall_mem_cons.mp bare
      rw [texts, if_pos is, ih k roles.tail are]

end Rewriting

namespace Extraction

/-- The edits of a source make it what is printed along its tree: every statement is rewritten by itself, and what stands
between statements stays as it is. -/
theorem run_by_tree (source path library : String) (factories : List String) (bindings : Bindings) :
    run source path library factories bindings =
      (Script.parse? (Script.Dialect.ofPage path) source).map fun tree =>
        { code := String.ofList ((⟨source.toList, library, factories, bindings⟩ : Rewriting).texts 0 [] 0
            source.toList.length tree.parts)
          calls := (Construction.all factories bindings tree).mapIdx fun k c => c.call k } := by
  unfold run
  cases read : Script.parse? (Script.Dialect.ofPage path) source with
  | none => rfl
  | some tree =>
      rw [Option.map_some, Option.map_some, ofTree]
      rw [Rewriting.applyAll_edits (Script.parse?_written read)]

def merging : String := "const a = jsx(MyComponent, \x7b\x7d)\nimport \x7b MyComponent \x7d from \"lib\"\n[1, 2].forEach(f)\n"

-- An import may be what ends the statement in front of it. Without it the statements around it are read as one.
theorem run_merges : (Script.parse? (.ofPage "page.js") merging).map (·.parts.length) = some 3 ∧
    ((run merging "page.js" "lib" ["jsx"] [("MyComponent", ⟨"MyComponent", "my-component"⟩)]).bind fun extraction =>
      Script.parse? (.ofPage "page.js") extraction.code).map (·.parts.length) = some 1 := by
  decide +kernel

end Extraction

end Prerender
