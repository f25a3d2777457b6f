import Prerender.Extraction
import Prerender.Proofs.Script.Place

set_option autoImplicit false

namespace Prerender

open Script (Node Kind Span)

inductive IsConstruction (factories : List String) (bindings : Bindings) : Node → Binding → List Node → Prop
  | intro {factory local_name : String} {binding : Binding} {span callee name object : Span} {comma : Bool}
      {generics : Node} {below callee_parts properties rest : List Node} :
      factory ∈ factories → bindings.lookup local_name = some binding →
      IsConstruction factories bindings
        (.mk .call span (.mk (.reference factory) callee callee_parts :: generics ::
          .mk (.reference local_name) name below :: .mk (.object comma) object properties :: rest))
        binding properties

def IsComponent (factories : List String) (bindings : Bindings) (tree : Node) (p : List Nat) : Prop :=
  ∃ q n binding properties, p = q ++ [2] ∧ tree.at? q = some n ∧
    IsConstruction factories bindings n binding properties

namespace Construction

variable {factories : List String} {bindings : Bindings}

theorem ofNode_of_isConstruction {n : Node} {binding : Binding} {properties : List Node}
    (is : IsConstruction factories bindings n binding properties) :
    ∃ name object, ofNode? factories bindings n = some ⟨binding, name, object, properties⟩ := by
  cases is with
  | intro listed bound =>
      exact ⟨_, _, by simp only [ofNode?, Node.call?, if_pos listed, bound, Option.map_some]; rfl⟩

theorem isConstruction_of_ofNode {n : Node} {c : Construction}
    (found : ofNode? factories bindings n = some c) :
    IsConstruction factories bindings n c.binding c.properties := by
  unfold ofNode? at found
  split at found
  next factory name span below comma object properties rest called =>
    split at found
    next listed =>
      obtain ⟨binding, bound, rfl⟩ := Option.map_eq_some_iff.mp found
      unfold Node.call? at called
      split at called
      next factory' =>
        obtain ⟨rfl, rfl⟩ := Prod.mk.inj (Option.some.inj called)
        exact .intro listed bound
      next => cases called
    next => cases found
  next => cases found

theorem parts_of_ofNode {n : Node} {c : Construction} (found : ofNode? factories bindings n = some c) :
    ∃ callee generics name object rest local_name comma, n.parts = callee :: generics :: name :: object :: rest ∧
      name.kind = .reference local_name ∧ name.span = c.name ∧ object.kind = .object comma ∧
      object.span = c.object ∧ object.parts = c.properties := by
  have is := isConstruction_of_ofNode found
  obtain ⟨binding, properties, same_binding, same_properties⟩ : ∃ binding properties,
    binding = c.binding ∧ properties = c.properties := ⟨_, _, rfl, rfl⟩
  rw [← same_binding, ← same_properties] at is
  cases is with
  | intro listed bound =>
      simp only [ofNode?, Node.call?, if_pos listed, bound, Option.map_some, Option.some.injEq] at found
      subst found
      exact ⟨_, _, _, _, _, _, _, rfl, rfl, rfl, rfl, rfl, rfl⟩

theorem identifier_toList (c : Construction) (k : Nat) :
    (c.identifier k).toList = c.binding.component.toList ++ '$' :: Nat.toDigits 10 k := by
  rw [identifier, String.toList_append, String.toList_append, List.append_assoc]
  exact congrArg _ (congrArg (['$'] ++ ·) Nat.toList_repr)

theorem mark_not_mem_digits (k : Nat) : '$' ∉ Nat.toDigits 10 k := by
  intro member
  have digit := Nat.isDigit_of_mem_toDigits (by decide) (by decide) member
  exact absurd digit (by decide)

theorem eq_of_marked {a b x y : List Char} (same : a ++ '$' :: x = b ++ '$' :: y) (not_x : '$' ∉ x)
    (not_y : '$' ∉ y) : x = y := by
  rcases List.append_eq_append_iff.mp same with ⟨t, -, split⟩ | ⟨t, -, split⟩
  · cases t with
    | nil => exact (List.cons.inj split).2
    | cons c t => exact absurd (by simp [(List.cons.inj split).2]) not_x
  · cases t with
    | nil => exact (List.cons.inj split).2.symm
    | cons c t => exact absurd (by simp [(List.cons.inj split).2]) not_y

theorem identifier_injective (c d : Construction) (j k : Nat) (same : c.identifier j = d.identifier k) :
    j = k := by
  have chars := congrArg String.toList same
  rw [identifier_toList, identifier_toList] at chars
  have digits := eq_of_marked chars (mark_not_mem_digits j) (mark_not_mem_digits k)
  have read := congrArg (Nat.ofDigitChars 10 · 0) digits
  simpa only [Nat.ofDigitChars_ten_toDigits] using read

theorem identifier_ne_fallback (c d : Construction) (j k : Nat) :
    c.identifier j ≠ d.identifier k ++ "Fallback" := by
  intro same
  have ends := congrArg (fun s => s.toList.getLast?) same
  have some_digit : Nat.toDigits 10 j ≠ [] := Nat.toDigits_ne_nil
  have found := List.getLast?_eq_some_getLast some_digit
  have digit := Nat.isDigit_of_mem_toDigits (by decide) (by decide) (List.mem_of_getLast? found)
  have named : (d.identifier k ++ "Fallback").toList.getLast? = some 'k' := by
    rw [String.toList_append, List.getLast?_append]
    rfl
  rw [named, identifier_toList, List.getLast?_append, List.getLast?_cons, found] at ends
  have last_k : (Nat.toDigits 10 j).getLast some_digit = 'k' := by simpa using ends
  exact absurd digit (by rw [last_k]; decide)

def places (factories : List String) (bindings : Bindings) (tree : Node) : List (List Nat) :=
  tree.places.filter fun p => ((tree.at? p).bind (ofNode? factories bindings)).isSome

theorem mem_places (tree : Node) (p : List Nat) :
    p ∈ places factories bindings tree ↔
      ∃ n binding properties, tree.at? p = some n ∧ IsConstruction factories bindings n binding properties := by
  rw [places, List.mem_filter, Node.mem_places, Option.isSome_iff_exists]
  constructor
  · rintro ⟨-, c, found⟩
    obtain ⟨n, here, is⟩ := Option.bind_eq_some_iff.mp found
    exact ⟨n, c.binding, c.properties, here, isConstruction_of_ofNode is⟩
  · rintro ⟨n, binding, properties, here, is⟩
    obtain ⟨name, object, found⟩ := ofNode_of_isConstruction is
    exact ⟨⟨n, here⟩, _, by rw [here, Option.bind_some, found]⟩

theorem map_places (factories : List String) (bindings : Bindings) (tree : Node) :
    (places factories bindings tree).map (fun p => (tree.at? p).bind (ofNode? factories bindings)) =
      (all factories bindings tree).map some := by
  rw [all, Node.filterMap_descendants, List.map_filterMap_some_eq_filter_map_isSome, List.filter_map]
  rfl

theorem start_ascends {tree m n : Node} {p q : List Nat} {b c : Binding} {bs cs : List Node}
    (order : tree.InSourceOrder) (before : p < q) (first : tree.at? p = some m) (second : tree.at? q = some n)
    (is_m : IsConstruction factories bindings m b bs) (is_n : IsConstruction factories bindings n c cs) :
    m.span.start < n.span.start := by
  obtain ⟨callee, rest, m_parts, named⟩ : ∃ callee rest, m.parts = callee :: rest ∧ callee.isName = true := by
    cases is_m with
    | intro => exact ⟨_, _, rfl, rfl⟩
  have unnamed : n.isName = false ∧ n.isLeftOut = false := by
    cases is_n with
    | intro => exact ⟨rfl, rfl⟩
  have call : m.isLeftOut = false ∧ m.isPlainName = false := by
    cases is_m with
    | intro => exact ⟨rfl, rfl⟩
  have word : callee.isLeftOut = false ∧ callee.isPlainName = false := by
    cases is_m with
    | intro =>
        obtain rfl := (List.cons.inj m_parts).1
        exact ⟨rfl, rfl⟩
  have head : m.at? [0] = some callee := Node.at_part (by rw [m_parts]; rfl)
  obtain ⟨stretch, opens, closes⟩ := (order.below first).within head (List.cons_ne_nil _ _) word.1
  rcases order.above_or_apart before first second call.1 unnamed.2 (Node.unshared_of_not_plain call.2) with
    ⟨r, some_step, rfl, inside⟩ | parted
  · cases r with
    | nil => exact absurd rfl some_step
    | cons i r =>
        cases i with
        | zero =>
            -- The callee is one word, so there is no call in it.
            obtain ⟨part, here, there⟩ := Option.bind_eq_some_iff.mp inside
            obtain rfl : callee = part := by simpa [m_parts] using here
            have leaf := (order.below first).words callee ((Node.mem_descendants m callee).mpr ⟨_, head⟩) named
            obtain ⟨-, rfl⟩ := Node.at_of_no_parts callee n r leaf there
            simp [named] at unnamed
        | succ i =>
            have behind := order.apart (p := []) first (Nat.succ_pos i)
              (by rw [Node.at_append, first, Option.bind_some, head]) second word.1 unnamed.2
              (Node.unshared_of_not_plain word.2)
            omega
  · omega

theorem get_all (tree : Node) (k : Nat) (p : List Nat) (at_k : (places factories bindings tree)[k]? = some p) :
    (all factories bindings tree)[k]? = (tree.at? p).bind (ofNode? factories bindings) := by
  have entry := congrArg (·[k]?) (map_places factories bindings tree)
  simp only [List.getElem?_map, at_k, Option.map_some] at entry
  cases found : (all factories bindings tree)[k]? with
  | none => simp [found] at entry
  | some c => simpa [found] using entry.symm

theorem length_all (tree : Node) :
    (all factories bindings tree).length = (places factories bindings tree).length := by
  simpa using (congrArg List.length (map_places factories bindings tree)).symm

def calls (cs : List Construction) : List ComponentCall := cs.mapIdx fun k c => c.call k

theorem names_nodup (cs : List Construction) :
    ((calls cs).map (·.identifier) ++ (calls cs).map (·.identifier ++ "Fallback")).Nodup := by
  have different (j k : Nat) (j_low : j < (calls cs).length) (k_low : k < (calls cs).length)
      (same : (calls cs)[j].identifier = (calls cs)[k].identifier) : j = k := by
    simp only [calls, List.getElem_mapIdx] at same
    exact identifier_injective _ _ j k same
  refine List.nodup_append.mpr ⟨?_, ?_, ?_⟩
  · refine List.pairwise_iff_getElem.mpr fun j k j_low k_low less same => ?_
    simp only [List.getElem_map] at same
    exact absurd (different j k _ _ same) (Nat.ne_of_lt less)
  · refine List.pairwise_iff_getElem.mpr fun j k j_low k_low less same => ?_
    simp only [List.getElem_map] at same
    exact absurd (different j k _ _ (String.append_left_inj _ |>.mp same)) (Nat.ne_of_lt less)
  · rintro name mine fallback theirs rfl
    obtain ⟨j, j_low, mine⟩ := List.mem_iff_getElem.mp mine
    obtain ⟨k, k_low, theirs⟩ := List.mem_iff_getElem.mp theirs
    simp only [calls, List.getElem_map, List.getElem_mapIdx] at mine theirs
    exact identifier_ne_fallback _ _ j k (mine.trans theirs.symm)

end Construction

theorem Declaration.build_names (call : ComponentCall) (rendered : Rendered) (strategy : Strategy)
    (library : String) (f : Declaration.Factory)
    (member : f ∈ (Declaration.build call rendered strategy library).factories) :
    f.name = call.identifier ∨ f.name = call.identifier ++ "Fallback" := by
  unfold Declaration.build at member
  split at member
  · rcases List.mem_cons.mp member with rfl | member
    · exact .inr rfl
    · obtain rfl := List.mem_singleton.mp member
      exact .inl rfl
  · obtain rfl := List.mem_singleton.mp member
    exact .inl rfl

-- What the calls taken out of a tree have to do with it; `places` is where each of them stands.
structure TakenFrom (factories : List String) (bindings : Bindings) (tree : Node)
    (calls : List ComponentCall) (places : List (List Nat)) : Prop where
  exactly : ∀ p, p ∈ places ↔ ∃ n binding properties, tree.at? p = some n ∧
    IsConstruction factories bindings n binding properties
  once : places.Nodup
  counted : calls.length = places.length
  read : ∀ (k : Nat) p n binding properties, places[k]? = some p → tree.at? p = some n →
    IsConstruction factories bindings n binding properties →
    calls[k]? = some ⟨binding.component ++ "$" ++ toString k, binding.component, binding.tag,
      Props.ofProperties properties⟩
  ascending : ∀ (j k : Nat) p q m n, j < k → places[j]? = some p → places[k]? = some q → tree.at? p = some m →
    tree.at? q = some n → m.span.start < n.span.start
  distinct : (calls.map (·.identifier) ++ calls.map (·.identifier ++ "Fallback")).Nodup
  declared : ∀ call ∈ calls, ∀ rendered strategy library,
    ∀ f ∈ (Declaration.build call rendered strategy library).factories,
      f.name = call.identifier ∨ f.name = call.identifier ++ "Fallback"

/-- What is taken out of a module that parses are the constructions anywhere in its tree. -/
theorem Extraction.run_takes (source path library : String) (factories : List String) (bindings : Bindings)
    (tree : Node) (parsed : Script.parse? (Script.Dialect.ofPage path) source = some tree)
    (order : tree.InSourceOrder) :
    ∃ extraction places, Extraction.run source path library factories bindings = some extraction ∧
      TakenFrom factories bindings tree extraction.calls places := by
  have sorted : (Construction.places factories bindings tree).Pairwise (· < ·) :=
    (Node.places_ascending tree).filter _
  have once : (Construction.places factories bindings tree).Nodup := (Node.places_nodup tree).filter _
  refine ⟨_, Construction.places factories bindings tree, by rw [Extraction.run, parsed]; rfl, ?_⟩
  refine ⟨Construction.mem_places tree, once, ?_, ?_, ?_,
    Construction.names_nodup (Construction.all factories bindings tree), ?_⟩
  · simp [Extraction.ofTree, Construction.length_all]
  · intro k p n binding properties at_k here is
    obtain ⟨name, object, found⟩ := Construction.ofNode_of_isConstruction is
    have entry := Construction.get_all tree k p at_k
    rw [here, Option.bind_some, found] at entry
    simp only [Extraction.ofTree, List.getElem?_mapIdx, entry, Option.map_some]
    rfl
  · intro j k p q m n less at_j at_k first second
    obtain ⟨j_low, rfl⟩ := List.getElem?_eq_some_iff.mp at_j
    obtain ⟨k_low, rfl⟩ := List.getElem?_eq_some_iff.mp at_k
    have before := List.pairwise_iff_getElem.mp sorted j k j_low k_low less
    obtain ⟨m', b, bs, first', is_m⟩ := (Construction.mem_places tree _).mp (List.getElem_mem j_low)
    obtain ⟨n', c, cs, second', is_n⟩ := (Construction.mem_places tree _).mp (List.getElem_mem k_low)
    obtain rfl := Option.some.inj (first'.symm.trans first)
    obtain rfl := Option.some.inj (second'.symm.trans second)
    exact Construction.start_ascends order before first second is_m is_n
  · exact fun call _ rendered strategy library f member =>
      Declaration.build_names call rendered strategy library f member

def nestedCalls : String := "h(A,\x7ba:class\x7bb=h(A,\x7b\x7d)\x7d\x7d)"

theorem Extraction.run_takes_nested :
    ∃ tree, Script.parse? (Script.Dialect.ofPage "page.js") nestedCalls = some tree ∧ tree.InSourceOrder ∧
      ∃ extraction places, Extraction.run nestedCalls "page.js" "lib" ["h"] [("A", ⟨"A", "a"⟩)] = some extraction ∧
        TakenFrom ["h"] [("A", ⟨"A", "a"⟩)] tree extraction.calls places ∧ places.length = 2 := by
  have facts : (Script.parse? (Script.Dialect.ofPage "page.js") nestedCalls).any (fun tree =>
      decide tree.InSourceOrder && (Construction.all ["h"] [("A", ⟨"A", "a"⟩)] tree).length == 2) = true := by
    decide +kernel
  obtain ⟨tree, parsed, facts⟩ := (Option.any_eq_true _ _).mp facts
  obtain ⟨ordered, counted⟩ := Bool.and_eq_true_iff.mp facts
  have order := of_decide_eq_true ordered
  obtain ⟨extraction, places, ran, taken⟩ :=
    Extraction.run_takes nestedCalls "page.js" "lib" ["h"] [("A", ⟨"A", "a"⟩)] tree parsed order
  refine ⟨tree, parsed, order, extraction, places, ran, taken, ?_⟩
  rw [Extraction.run, parsed] at ran
  obtain rfl := Option.some.inj ran
  rw [← taken.counted]
  simpa [Extraction.ofTree] using counted

example : ((Extraction.run "let t: import(\"m\", \x7bwith: \x7bk: h(A, \x7b\x7d)\x7d\x7d)" "page.ts" "lib" ["h"]
    [("A", ⟨"A", "a"⟩)]).map fun extraction => extraction.calls.length) = some 1 := by decide +kernel

end Prerender
