import Prerender.Script.Tree
import Mathlib.Data.List.Lex

set_option autoImplicit false

/-!
Places in a syntax tree. A place is the way from the root to a node, by the index of a part at each
step; places are ordered as the nodes are written. In a tree that is in source order, a node lies within
the stretch of each node above it, and of two nodes apart from each other the one at the earlier place ends
before the other begins.
-/
namespace Prerender.Script.Node

def at? : Node → List Nat → Option Node
  | n, [] => some n
  | n, i :: p => n.parts[i]?.bind fun part => part.at? p

mutual
def places : Node → List (List Nat)
| mk _ _ parts => [] :: placesFrom 0 parts
def placesFrom (i : Nat) : List Node → List (List Nat)
| [] => []
| n :: ns => n.places.map (i :: ·) ++ placesFrom (i + 1) ns
end

mutual
theorem map_at_places : ∀ n : Node, n.places.map n.at? = n.descendants.map some
| mk kind span parts => by
    rw [places, descendants, List.map_cons, List.map_cons]
    exact congrArg (_ :: ·) (map_at_placesFrom (mk kind span parts) 0 parts rfl)
theorem map_at_placesFrom (m : Node) (i : Nat) :
    ∀ ns : List Node, m.parts.drop i = ns → (placesFrom i ns).map m.at? = (descendantsOf ns).map some
| [], _ => rfl
| n :: ns, here => by
    have found : m.parts[i]? = some n := by
      rw [← Nat.add_zero i, ← List.getElem?_drop, here]
      rfl
    have below : m.parts.drop (i + 1) = ns := by
      rw [← List.drop_drop, here]
      rfl
    have inside : m.at? ∘ (i :: ·) = n.at? := by
      funext p
      simp only [Function.comp_apply, at?, found, Option.bind_some]
    rw [placesFrom, descendantsOf, List.map_append, List.map_append, List.map_map, inside, map_at_places n,
      map_at_placesFrom m (i + 1) ns below]
end

theorem mem_placesFrom (p : List Nat) (i : Nat) (ns : List Node) :
    p ∈ placesFrom i ns ↔ ∃ j n q, ns[j]? = some n ∧ q ∈ n.places ∧ p = (i + j) :: q := by
  induction ns generalizing i with
  | nil => simp [placesFrom]
  | cons n ns ih =>
      rw [placesFrom, List.mem_append, List.mem_map, ih]
      constructor
      · rintro (⟨q, member, rfl⟩ | ⟨j, m, q, found, member, rfl⟩)
        · exact ⟨0, n, q, rfl, member, rfl⟩
        · exact ⟨j + 1, m, q, found, member, by rw [Nat.add_right_comm, Nat.add_assoc]⟩
      · rintro ⟨j, m, q, found, member, rfl⟩
        cases j with
        | zero =>
            obtain rfl : n = m := by simpa using found
            exact .inl ⟨q, member, rfl⟩
        | succ j => exact .inr ⟨j, m, q, found, member, by rw [Nat.add_right_comm, Nat.add_assoc]⟩

theorem mem_places (p : List Nat) (n : Node) : p ∈ n.places ↔ ∃ m, n.at? p = some m := by
  induction p generalizing n with
  | nil => cases n with | mk kind span parts => simp [places, at?]
  | cons i q ih =>
      cases n with
      | mk kind span parts =>
          simp only [places, List.mem_cons, reduceCtorEq, false_or, mem_placesFrom, at?,
            Option.bind_eq_some_iff, Node.parts, Nat.zero_add]
          constructor
          · rintro ⟨j, part, r, found, member, same⟩
            obtain ⟨rfl, rfl⟩ := List.cons.inj same
            obtain ⟨m, there⟩ := (ih part).mp member
            exact ⟨m, part, found, there⟩
          · rintro ⟨m, part, found, there⟩
            exact ⟨i, part, q, found, (ih part).mpr ⟨m, there⟩, rfl⟩

mutual
theorem places_ascending : ∀ n : Node, n.places.Pairwise (· < ·)
| mk _ _ parts => by
    rw [places]
    refine List.pairwise_cons.mpr ⟨fun p member => ?_, placesFrom_ascending 0 parts⟩
    obtain ⟨j, n, q, -, -, rfl⟩ := (mem_placesFrom p 0 parts).mp member
    exact List.nil_lt_cons _ _
theorem placesFrom_ascending (i : Nat) : ∀ ns : List Node, (placesFrom i ns).Pairwise (· < ·)
| [] => .nil
| n :: ns => by
    rw [placesFrom, List.pairwise_append, List.pairwise_map]
    refine ⟨(places_ascending n).imp fun before => List.cons_lt_cons_iff.mpr (.inr ⟨rfl, before⟩),
      placesFrom_ascending (i + 1) ns, fun p mine q theirs => ?_⟩
    obtain ⟨p, -, rfl⟩ := List.mem_map.mp mine
    obtain ⟨j, m, q, -, -, rfl⟩ := (mem_placesFrom q (i + 1) ns).mp theirs
    exact List.cons_lt_cons_iff.mpr (.inl (by omega))
end

theorem places_nodup (n : Node) : n.places.Nodup := by
  apply (places_ascending n).imp
  intro p q before same
  exact List.lt_irrefl q (same ▸ before)

theorem at_append (n : Node) (p q : List Nat) : n.at? (p ++ q) = (n.at? p).bind fun m => m.at? q := by
  induction p generalizing n with
  | nil => rfl
  | cons i p ih => cases h : n.parts[i]? <;> simp [at?, h, ih]

theorem at_part {n part : Node} {i : Nat} (found : n.parts[i]? = some part) : n.at? [i] = some part := by
  rw [at?, found]
  rfl

theorem at_part_of {tree n part : Node} {p : List Nat} {i : Nat} (here : tree.at? p = some n)
    (found : n.parts[i]? = some part) : tree.at? (p ++ [i]) = some part := by
  rw [at_append, here, Option.bind_some, at_part found]

theorem mem_descendants (n m : Node) : m ∈ n.descendants ↔ ∃ p, n.at? p = some m := by
  have same : some m ∈ n.descendants.map some ↔ m ∈ n.descendants := by simp
  rw [← same, ← map_at_places, List.mem_map]
  exact ⟨fun ⟨p, _, found⟩ => ⟨p, found⟩, fun ⟨p, found⟩ => ⟨p, (mem_places p n).mpr ⟨m, found⟩, found⟩⟩

theorem mem_descendantsOf (ns : List Node) (m : Node) : m ∈ descendantsOf ns ↔ ∃ n ∈ ns, m ∈ n.descendants := by
  induction ns with
  | nil => simp [descendantsOf]
  | cons n ns ih => simp [descendantsOf, ih]

theorem filterMap_descendants {α : Type} (f : Node → Option α) (n : Node) :
    n.descendants.filterMap f = n.places.filterMap fun p => (n.at? p).bind f := by
  have wrapped : n.descendants.filterMap f = (n.descendants.map some).filterMap (·.bind f) := by
    rw [List.filterMap_map]
    rfl
  rw [wrapped, ← map_at_places, List.filterMap_map]
  rfl

theorem place_cases (p q : List Nat) (before : p < q) :
    (∃ r, r ≠ [] ∧ q = p ++ r) ∨
      ∃ s i j p' q', i < j ∧ p = s ++ i :: p' ∧ q = s ++ j :: q' := by
  induction p generalizing q with
  | nil =>
      cases q with
      | nil => exact absurd before (List.lt_irrefl _)
      | cons j q => exact .inl ⟨j :: q, List.cons_ne_nil j q, rfl⟩
  | cons i p ih =>
      cases q with
      | nil => exact absurd before (List.not_lt_nil _)
      | cons j q =>
          rcases List.cons_lt_cons_iff.mp before with less | ⟨rfl, below⟩
          · exact .inr ⟨[], i, j, p, q, less, rfl, rfl⟩
          · rcases ih q below with ⟨r, some_step, rfl⟩ | ⟨s, a, b, p', q', less, rfl, rfl⟩
            · exact .inl ⟨r, some_step, rfl⟩
            · exact .inr ⟨i :: s, a, b, p', q', less, rfl, rfl⟩

def isLeftOut : Node → Bool
  | mk .absent _ [] => true
  | _ => false

def isPlainName : Node → Bool
  | mk (.name _) _ [] => true
  | _ => false

def isName (n : Node) : Bool :=
  match n.kind with
  | .reference _ | .name _ | .jsxName _ => true
  | _ => false

-- Whether `a` ends before `b` begins, if both are written. The name of a property may also be its
-- value, and then they share one stretch.
def Precedes (parent a b : Node) : Prop :=
  a.isLeftOut = true ∨ b.isLeftOut = true ∨ (parent.kind = .property ∧ a.isPlainName = true) ∨
    a.span.stop ≤ b.span.start

def Encloses (parent part : Node) : Prop :=
  part.isLeftOut = true ∨ (part.span.start < part.span.stop ∧ parent.span.start ≤ part.span.start ∧
    part.span.stop ≤ parent.span.stop)

structure InSourceOrder (tree : Node) : Prop where
  nested : ∀ n ∈ tree.descendants, ∀ part ∈ n.parts, Encloses n part
  ordered : ∀ n ∈ tree.descendants, n.parts.Pairwise (Precedes n)
  words : ∀ n ∈ tree.descendants, n.isName = true → n.parts = []

instance (parent a b : Node) : Decidable (Precedes parent a b) :=
  inferInstanceAs (Decidable (_ ∨ _))

instance (parent part : Node) : Decidable (Encloses parent part) :=
  inferInstanceAs (Decidable (_ ∨ _))

instance (tree : Node) : Decidable (InSourceOrder tree) :=
  decidable_of_iff ((∀ n ∈ tree.descendants, ∀ part ∈ n.parts, Encloses n part) ∧
      (∀ n ∈ tree.descendants, n.parts.Pairwise (Precedes n)) ∧
      ∀ n ∈ tree.descendants, n.isName = true → n.parts = [])
    ⟨fun ⟨nested, ordered, words⟩ => ⟨nested, ordered, words⟩,
      fun ⟨nested, ordered, words⟩ => ⟨nested, ordered, words⟩⟩

theorem isLeftOut_parts (n : Node) (out : n.isLeftOut = true) : n.parts = [] := by
  unfold isLeftOut at out
  split at out
  · rfl
  · cases out

theorem isPlainName_parts (n : Node) (plain : n.isPlainName = true) : n.parts = [] := by
  unfold isPlainName at plain
  split at plain
  · rfl
  · cases plain

theorem at_of_no_parts (n m : Node) (q : List Nat) (leaf : n.parts = []) (found : n.at? q = some m) :
    q = [] ∧ m = n := by
  cases q with
  | nil => exact ⟨rfl, (Option.some.inj found).symm⟩
  | cons i q => simp [at?, leaf] at found

theorem InSourceOrder.below {tree n : Node} {p : List Nat} (order : InSourceOrder tree)
    (found : tree.at? p = some n) : InSourceOrder n := by
  have still : ∀ m ∈ n.descendants, m ∈ tree.descendants := by
    intro m member
    obtain ⟨q, there⟩ := (mem_descendants n m).mp member
    exact (mem_descendants tree m).mpr ⟨p ++ q, by rw [at_append, found, Option.bind_some, there]⟩
  exact ⟨fun m member => order.nested m (still m member), fun m member => order.ordered m (still m member),
    fun m member => order.words m (still m member)⟩

theorem InSourceOrder.within {n m : Node} {q : List Nat} (order : InSourceOrder n)
    (found : n.at? q = some m) (some_step : q ≠ []) (written : m.isLeftOut = false) :
    m.span.start < m.span.stop ∧ n.span.start ≤ m.span.start ∧ m.span.stop ≤ n.span.stop := by
  induction q generalizing n with
  | nil => exact absurd rfl some_step
  | cons i q ih =>
      obtain ⟨part, here, there⟩ := Option.bind_eq_some_iff.mp found
      have enclosed := order.nested n ((mem_descendants n n).mpr ⟨[], rfl⟩) part (List.mem_of_getElem? here)
      cases q with
      | nil =>
          obtain rfl := Option.some.inj there
          exact enclosed.resolve_left (by simp [written])
      | cons j q =>
          have deeper : part.isLeftOut = false := by
            by_contra out
            exact absurd (at_of_no_parts part m _ (isLeftOut_parts part (by simpa using out)) there).1
              (List.cons_ne_nil j q)
          have below : InSourceOrder part := order.below (at_part here)
          obtain ⟨_, left, right⟩ := enclosed.resolve_left (by simp [deeper])
          obtain ⟨stretch, left', right'⟩ := ih below there (List.cons_ne_nil j q)
          exact ⟨stretch, left.trans left', right'.trans right⟩

theorem InSourceOrder.inside {n m : Node} {q : List Nat} (order : InSourceOrder n)
    (found : n.at? q = some m) (written : m.isLeftOut = false) :
    n.span.start ≤ m.span.start ∧ m.span.stop ≤ n.span.stop := by
  by_cases here : q = []
  · subst here
    obtain rfl := Option.some.inj found
    exact ⟨Nat.le_refl _, Nat.le_refl _⟩
  · exact (order.within found here written).2

theorem InSourceOrder.under_part {tree n m : Node} {p r : List Nat} (order : InSourceOrder tree)
    (here : tree.at? p = some n) (some_step : r ≠ []) (there : tree.at? (p ++ r) = some m)
    (written : m.isLeftOut = false) :
    ∃ part ∈ n.parts, m ∈ part.descendants ∧ m.span.stop ≤ part.span.stop := by
  obtain ⟨i, q, rfl⟩ := List.exists_cons_of_ne_nil some_step
  rw [at_append, here, Option.bind_some] at there
  obtain ⟨part, found, below⟩ := Option.bind_eq_some_iff.mp there
  exact ⟨part, List.mem_of_getElem? found, (mem_descendants part m).mpr ⟨q, below⟩,
    (((order.below here).below (at_part found)).inside below written).2⟩

def Unshared (tree : Node) (p : List Nat) (a : Node) : Prop :=
  a.isPlainName = true → ∀ s i parent, p = s ++ [i] → tree.at? s = some parent → parent.kind ≠ .property

theorem unshared_of_not_plain {tree a : Node} {p : List Nat} (not_plain : a.isPlainName = false) :
    Unshared tree p a := fun plain => by simp [not_plain] at plain

theorem InSourceOrder.apart {tree parent a b : Node} {s p q : List Nat} {i j : Nat}
    (order : InSourceOrder tree) (above : tree.at? s = some parent) (less : i < j)
    (first : tree.at? (s ++ i :: p) = some a) (second : tree.at? (s ++ j :: q) = some b)
    (a_written : a.isLeftOut = false) (b_written : b.isLeftOut = false)
    (unshared : Unshared tree (s ++ i :: p) a) : a.span.stop ≤ b.span.start := by
  rw [at_append, above, Option.bind_some] at first second
  obtain ⟨x, x_here, x_there⟩ := Option.bind_eq_some_iff.mp first
  obtain ⟨y, y_here, y_there⟩ := Option.bind_eq_some_iff.mp second
  have below (k : Nat) (part : Node) (here : parent.parts[k]? = some part) : InSourceOrder part :=
    (order.below above).below (at_part here)
  obtain ⟨i_low, rfl⟩ := List.getElem?_eq_some_iff.mp x_here
  obtain ⟨j_low, rfl⟩ := List.getElem?_eq_some_iff.mp y_here
  have parted : Precedes parent parent.parts[i] parent.parts[j] :=
    List.pairwise_iff_getElem.mp (order.ordered parent ((mem_descendants tree parent).mpr ⟨s, above⟩))
      i j i_low j_low less
  rcases parted with out | out | ⟨property, plain⟩ | parted
  · obtain ⟨-, rfl⟩ := at_of_no_parts _ a p (isLeftOut_parts _ out) x_there
    simp [a_written] at out
  · obtain ⟨-, rfl⟩ := at_of_no_parts _ b q (isLeftOut_parts _ out) y_there
    simp [b_written] at out
  · obtain ⟨rfl, rfl⟩ := at_of_no_parts _ a p (isPlainName_parts _ plain) x_there
    exact absurd property (unshared plain s i parent rfl above)
  · have left := ((below i _ x_here).inside x_there a_written).2
    have right := ((below j _ y_here).inside y_there b_written).1
    exact left.trans (parted.trans right)

theorem InSourceOrder.above_or_apart {tree a b : Node} {p q : List Nat} (order : InSourceOrder tree)
    (before : p < q) (first : tree.at? p = some a) (second : tree.at? q = some b)
    (a_written : a.isLeftOut = false) (b_written : b.isLeftOut = false) (unshared : Unshared tree p a) :
    (∃ r, r ≠ [] ∧ q = p ++ r ∧ a.at? r = some b) ∨ a.span.stop ≤ b.span.start := by
  rcases place_cases p q before with ⟨r, some_step, rfl⟩ | ⟨s, i, j, p', q', less, rfl, rfl⟩
  · rw [at_append, first, Option.bind_some] at second
    exact .inl ⟨r, some_step, rfl, second⟩
  · have reached := first
    rw [at_append] at reached
    obtain ⟨parent, above, -⟩ := Option.bind_eq_some_iff.mp reached
    exact .inr (order.apart above less first second a_written b_written unshared)

end Prerender.Script.Node
