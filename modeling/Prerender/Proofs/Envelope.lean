import Prerender.Proofs.Bytes.Base64
import Prerender.Proofs.Decimal.Whole
import Prerender.Proofs.Json.RoundTrip
import Prerender.Value.Envelope

set_option autoImplicit false

namespace Prerender.Value.Envelope

open Json (depth depthItems depthMembers reading readingItems readingMembers merge mergeItems mergeMembers)

mutual
-- How many arrays and objects are open at once at the deepest place of a value's tree.
def levels : Value → Nat
  | .array items => 2 + deepest items
  | .set items => 2 + deepest items
  | .object entries => if entries.isEmpty then 2 else 3 + deepestEntry entries
  | .map entries => if entries.isEmpty then 2 else 3 + deepestPair entries
  | _ => 1
def deepest : List Value → Nat
  | [] => 0
  | item :: items => max (levels item) (deepest items)
def deepestEntry : List (String × Value) → Nat
  | [] => 0
  | (_, value) :: entries => max (levels value) (deepestEntry entries)
def deepestPair : List (Value × Value) → Nat
  | [] => 0
  | (key, value) :: entries => max (max (levels key) (levels value)) (deepestPair entries)
end

mutual
def numbers : Value → List Float
  | .number x => [x]
  | .array items => numbersOf items
  | .set items => numbersOf items
  | .object entries => numbersOfEntries entries
  | .map entries => numbersOfPairs entries
  | _ => []
def numbersOf : List Value → List Float
  | [] => []
  | item :: items => numbers item ++ numbersOf items
def numbersOfEntries : List (String × Value) → List Float
  | [] => []
  | (_, value) :: entries => numbers value ++ numbersOfEntries entries
def numbersOfPairs : List (Value × Value) → List Float
  | [] => []
  | (key, value) :: entries => numbers key ++ numbers value ++ numbersOfPairs entries
end

mutual
def named : Value → Value
  | .identifier name => .string name
  | .array items => .array (namedItems items)
  | .set items => .set (namedItems items)
  | .object entries => .object (namedEntries entries)
  | .map entries => .map (namedPairs entries)
  | value => value
def namedItems : List Value → List Value
  | [] => []
  | item :: items => named item :: namedItems items
def namedEntries : List (String × Value) → List (String × Value)
  | [] => []
  | (key, value) :: entries => (key, named value) :: namedEntries entries
def namedPairs : List (Value × Value) → List (Value × Value)
  | [] => []
  | (key, value) :: entries => (named key, named value) :: namedPairs entries
end

-- The JSON reader gets the number back from the text that the JSON writer gives it.
def Rereads (x : Float) : Prop :=
  Json.parse? Json.nesting (Json.Number.write (.float x)) = some (.number (.float x))

theorem isFinite_unpack {x : Float} {s : Float.Model.UnpackedFloat.Sign} {m : Nat} {q : Int} {pos : 0 < m}
    (is : x.toModel.unpack = .finite s m q pos) : x.isFinite = true := by
  change x.toModel.unpack.isFinite = true
  rw [is]
  rfl

theorem integer_zero {x : Float} {s : Float.Model.UnpackedFloat.Sign} (is : x.toModel.unpack = .zero s) :
    Decimal.integer? x = some 0 := by
  rw [Decimal.integer?, Decimal.whole?, is]
  rfl

theorem integer_small {x : Float} {n : Int} (whole : Decimal.integer? x = some n) : n.natAbs ≤ Json.word / 2 := by
  obtain ⟨_, small⟩ := Option.filter_eq_some_iff.mp whole
  exact Nat.le_trans (Nat.le_of_lt (of_decide_eq_true small)) (by decide)

-- The numbers that JSON cannot write travel by their names, so none of them depends on how it reads numbers.
theorem numberNode_cases (x : Float) :
    (∃ name, numberNode x = .string name ∧ special? name = some x) ∨
    (∃ n, numberNode x = .number (.int n) ∧ n.natAbs ≤ Json.word / 2 ∧ Float.ofInt n = x) ∨
    (numberNode x = .number (.float x) ∧ x.isFinite = true ∧ Decimal.integer? x = none) := by
  cases is : x.toModel.unpack with
  | notANumber =>
      have same : 0.0 / 0.0 = x := Decimal.unpack_injective _ _ is.symm
      exact .inl ⟨"NaN", by rw [numberNode, is], by rw [← same]; rfl⟩
  | infinity s =>
      cases s with
      | positive =>
          have same : 1.0 / 0.0 = x := Decimal.unpack_injective _ _ is.symm
          exact .inl ⟨"Infinity", by rw [numberNode, is], by rw [← same]; rfl⟩
      | negative =>
          have same : -(1.0 / 0.0) = x := Decimal.unpack_injective _ _ is.symm
          exact .inl ⟨"-Infinity", by rw [numberNode, is], by rw [← same]; rfl⟩
  | zero s =>
      cases s with
      | positive =>
          have back := Decimal.ofInt_integer x 0 (integer_zero is) (by rw [is]; nofun)
          exact .inr (.inl ⟨0, by simp only [numberNode, is, integer_zero is], by decide, back⟩)
      | negative =>
          have same : -0.0 = x := Decimal.unpack_injective _ _ is.symm
          exact .inl ⟨"-0", by rw [numberNode, is], by rw [← same]; rfl⟩
  | finite s m q pos =>
      cases whole : Decimal.integer? x with
      | none => exact .inr (.inr ⟨by simp only [numberNode, is, whole], isFinite_unpack is, rfl⟩)
      | some n =>
          have back := Decimal.ofInt_integer x n whole (by rw [is]; nofun)
          exact .inr (.inl ⟨n, by simp only [numberNode, is, whole], integer_small whole, back⟩)

theorem numberNode_depth (x : Float) : depth (numberNode x) = 0 := by
  rcases numberNode_cases x with ⟨name, is, -⟩ | ⟨n, is, -⟩ | ⟨is, -⟩ <;> rw [is] <;> rfl

theorem tagged_depth (kind : String) (payload : Json) : depth (tagged kind payload) = depth payload + 1 := by
  simp [tagged, depth, depthMembers]

mutual
theorem tree_depth : (v : Value) → depth (tree v) = levels v
  | .undefined => rfl
  | .null => rfl
  | .bool b => rfl
  | .number x => by rw [tree, tagged_depth, numberNode_depth]; rfl
  | .string s => rfl
  | .identifier name => rfl
  | .symbol description => rfl
  | .array items => by
      rw [tree, tagged_depth, depth, treeItems_depth items, levels]
      omega
  | .set items => by
      rw [tree, tagged_depth, depth, treeItems_depth items, levels]
      omega
  | .object entries => by
      have inner := treeEntries_depth entries
      rw [tree, tagged_depth, depth, levels, inner]
      split <;> omega
  | .map entries => by
      have inner := treePairs_depth entries
      rw [tree, tagged_depth, depth, levels, inner]
      split <;> omega
theorem treeItems_depth : (items : List Value) → depthItems (treeItems items) = deepest items
  | [] => rfl
  | item :: items => by rw [treeItems, depthItems, deepest, tree_depth item, treeItems_depth items]
theorem treeEntries_depth : (entries : List (String × Value)) →
    depthItems (treeEntries entries) = if entries.isEmpty then 0 else 1 + deepestEntry entries
  | [] => rfl
  | (key, value) :: entries => by
      have others := treeEntries_depth entries
      rw [treeEntries, depthItems, others, deepestEntry]
      simp only [depth, depthItems, tree_depth value]
      cases entries <;> simp [deepestEntry] <;> omega
theorem treePairs_depth : (entries : List (Value × Value)) →
    depthItems (treePairs entries) = if entries.isEmpty then 0 else 1 + deepestPair entries
  | [] => rfl
  | (key, value) :: entries => by
      have others := treePairs_depth entries
      rw [treePairs, depthItems, others, deepestPair]
      simp only [depth, depthItems, tree_depth key, tree_depth value]
      cases entries <;> simp [deepestPair] <;> omega
end

theorem numberNode_merge (x : Float) : merge (numberNode x) = numberNode x := by
  rcases numberNode_cases x with ⟨name, is, -⟩ | ⟨n, is, -⟩ | ⟨is, -⟩ <;> rw [is] <;> rfl

theorem tagged_merge (kind : String) (payload : Json) : merge (tagged kind payload) = tagged kind (merge payload) := by
  simp [tagged, merge, mergeMembers, Keyed.put]

mutual
theorem tree_merge : (v : Value) → merge (tree v) = tree v
  | .undefined => rfl
  | .null => rfl
  | .bool b => by rw [tree, tagged_merge, merge]; all_goals nofun
  | .number x => by rw [tree, tagged_merge, numberNode_merge]
  | .string s => by rw [tree, tagged_merge, merge]; all_goals nofun
  | .identifier name => by rw [tree, tagged_merge, merge]; all_goals nofun
  | .symbol description => by rw [tree, tagged_merge, merge]; all_goals nofun
  | .array items => by rw [tree, tagged_merge, merge, treeItems_merge items]
  | .set items => by rw [tree, tagged_merge, merge, treeItems_merge items]
  | .object entries => by rw [tree, tagged_merge, merge, treeEntries_merge entries]
  | .map entries => by rw [tree, tagged_merge, merge, treePairs_merge entries]
theorem treeItems_merge : (items : List Value) → mergeItems (treeItems items) = treeItems items
  | [] => rfl
  | item :: items => by rw [treeItems, mergeItems, tree_merge item, treeItems_merge items]
theorem treeEntries_merge : (entries : List (String × Value)) →
    mergeItems (treeEntries entries) = treeEntries entries
  | [] => rfl
  | (key, value) :: entries => by
      rw [treeEntries, mergeItems, treeEntries_merge entries]
      simp only [merge, mergeItems, tree_merge value]
theorem treePairs_merge : (entries : List (Value × Value)) → mergeItems (treePairs entries) = treePairs entries
  | [] => rfl
  | (key, value) :: entries => by
      rw [treePairs, mergeItems, treePairs_merge entries]
      simp only [merge, mergeItems, tree_merge key, tree_merge value]
end

-- Where the JSON reader has to get a number back by itself: one that is written with its fraction.
def Exact (x : Float) : Prop := x.isFinite → Decimal.integer? x = none → Rereads x

theorem reading_float (x : Float) (rereads : Rereads x) :
    reading (.number (.float x)) = some (.number (.float x)) := by
  have read := Json.parse?_render Json.nesting (.number (.float x))
  have scalar : depth (.number (.float x)) ≤ Json.nesting := Nat.zero_le _
  rw [if_pos scalar] at read
  have back : (reading (.number (.float x))).map merge = some (.number (.float x)) := read.symm.trans rereads
  obtain ⟨j, is, same⟩ := Option.map_eq_some_iff.mp back
  rw [is]
  cases j with
  | number n => exact congrArg some same
  | array items => cases same
  | object members => cases same
  | null => cases same
  | bool b => cases same
  | string s => cases same

theorem numberNode_reading (x : Float) (exact : Exact x) : reading (numberNode x) = some (numberNode x) := by
  rcases numberNode_cases x with ⟨name, is, -⟩ | ⟨n, is, small, -⟩ | ⟨is, finite, fraction⟩
  · rw [is]
    rfl
  · rw [is]
    exact Json.reading_int n small
  · rw [is]
    exact reading_float x (exact finite fraction)

theorem numberNode_untree (x : Float) (node : Json) : scalar "number" node (numberNode x) = .ok (.number x) := by
  rcases numberNode_cases x with ⟨name, is, back⟩ | ⟨n, is, -, back⟩ | ⟨is, -⟩
  · rw [is]
    simp only [scalar, back]
  · rw [is]
    exact congrArg (Except.ok ∘ Value.number) back
  · rw [is]
    rfl

theorem tagged_reading {kind : String} {payload : Json} (read : reading payload = some payload) :
    reading (tagged kind payload) = some (tagged kind payload) := by
  simp [tagged, reading, readingMembers, read]

theorem array_reading {items : List Json} (read : readingItems items = some items) :
    reading (.array items) = some (.array items) := by
  rw [reading, read]
  rfl

theorem pair_reading {first second : Json} (read : reading first = some first) (also_read : reading second = some second) :
    reading (.array [first, second]) = some (.array [first, second]) :=
  array_reading (by simp [readingItems, read, also_read])

mutual
theorem tree_reading : (v : Value) → (∀ x ∈ numbers v, Exact x) → reading (tree v) = some (tree v)
  | .undefined, _ => rfl
  | .null, _ => rfl
  | .bool _, _ => rfl
  | .number x, exact => tagged_reading (numberNode_reading x (exact x List.mem_cons_self))
  | .string _, _ => rfl
  | .identifier _, _ => rfl
  | .symbol _, _ => rfl
  | .array items, exact => tagged_reading (array_reading (treeItems_reading items exact))
  | .set items, exact => tagged_reading (array_reading (treeItems_reading items exact))
  | .object entries, exact => tagged_reading (array_reading (treeEntries_reading entries exact))
  | .map entries, exact => tagged_reading (array_reading (treePairs_reading entries exact))
theorem treeItems_reading : (items : List Value) → (∀ x ∈ numbersOf items, Exact x) →
    readingItems (treeItems items) = some (treeItems items)
  | [], _ => rfl
  | item :: items, exact => by
      obtain ⟨first, others⟩ := List.forall_mem_append.mp exact
      rw [treeItems, readingItems, tree_reading item first, treeItems_reading items others]
      rfl
theorem treeEntries_reading : (entries : List (String × Value)) → (∀ x ∈ numbersOfEntries entries, Exact x) →
    readingItems (treeEntries entries) = some (treeEntries entries)
  | [], _ => rfl
  | (key, value) :: entries, exact => by
      obtain ⟨first, others⟩ := List.forall_mem_append.mp exact
      rw [treeEntries, readingItems, pair_reading rfl (tree_reading value first), treeEntries_reading entries others]
      rfl
theorem treePairs_reading : (entries : List (Value × Value)) → (∀ x ∈ numbersOfPairs entries, Exact x) →
    readingItems (treePairs entries) = some (treePairs entries)
  | [], _ => rfl
  | (key, value) :: entries, exact => by
      obtain ⟨first, others⟩ := List.forall_mem_append.mp exact
      obtain ⟨key_exact, value_exact⟩ := List.forall_mem_append.mp first
      rw [treePairs, readingItems, pair_reading (tree_reading key key_exact) (tree_reading value value_exact),
        treePairs_reading entries others]
      rfl
end

theorem untree_tagged (kind : String) (payload : Json) :
    untree (tagged kind payload) = untreeContent kind (tagged kind payload) payload := by
  simp [tagged, untree, Keyed.get?, Json.string?, untreePayload]

theorem numberNode_content (x : Float) (node : Json) :
    untreeContent "number" node (numberNode x) = .ok (.number x) := by
  rw [← numberNode_untree x node]
  rcases numberNode_cases x with ⟨name, is, -⟩ | ⟨n, is, -⟩ | ⟨is, -⟩ <;> rw [is] <;> rfl

theorem all_pairs_entries (entries : List (String × Value)) : (treeEntries entries).all isPair = true := by
  induction entries with
  | nil => rfl
  | cons entry entries ih => exact ih

theorem all_pairs_pairs (entries : List (Value × Value)) : (treePairs entries).all isPair = true := by
  induction entries with
  | nil => rfl
  | cons entry entries ih => exact ih

mutual
theorem untree_tree : (v : Value) → untree (tree v) = .ok (named v)
  | .undefined => rfl
  | .null => rfl
  | .bool b => by rw [tree, untree_tagged]; rfl
  | .number x => by rw [tree, untree_tagged, numberNode_content]; rfl
  | .string s => by rw [tree, untree_tagged]; rfl
  | .identifier name => by rw [tree, untree_tagged]; rfl
  | .symbol description => by rw [tree, untree_tagged]; rfl
  | .array items => by
      rw [tree, untree_tagged, untreeContent, untreeItems_tree items]
      rfl
  | .set items => by
      rw [tree, untree_tagged, untreeContent, untreeItems_tree items]
      rfl
  | .object entries => by
      rw [tree, untree_tagged, untreeContent, untreeEntries_tree entries, if_pos (all_pairs_entries entries)]
      rfl
  | .map entries => by
      rw [tree, untree_tagged, untreeContent, untreePairs_tree entries, if_pos (all_pairs_pairs entries)]
      rfl
theorem untreeItems_tree : (items : List Value) → untreeItems (treeItems items) = .ok (namedItems items)
  | [] => rfl
  | item :: items => by
      rw [treeItems, untreeItems, untree_tree item, untreeItems_tree items]
      rfl
theorem untreeEntries_tree : (entries : List (String × Value)) → (node : Json) →
    untreeEntries node (treeEntries entries) = .ok (namedEntries entries)
  | [], _ => rfl
  | (key, value) :: entries, node => by
      rw [treeEntries, untreeEntries, untree_tree value, untreeEntries_tree entries node]
      rfl
theorem untreePairs_tree : (entries : List (Value × Value)) →
    untreePairs (treePairs entries) = .ok (namedPairs entries)
  | [] => rfl
  | (key, value) :: entries => by
      rw [treePairs, untreePairs, untree_tree key, untree_tree value, untreePairs_tree entries]
      rfl
end

theorem fromUTF8?_toUTF8 (s : String) : String.fromUTF8? ⟨s.toUTF8.data.toList.toArray⟩ = some s := by
  rw [Array.toArray_toList]
  exact dif_pos s.isValidUTF8

theorem decode_text (s : String) :
    decode (marker ++ String.ofList (Bytes.Base64.encode s.toUTF8.data.toList)) =
      (Json.parse? Json.nesting s).elim (.error .json) untree := by
  have bare := Bytes.Base64.bare_encode s.toUTF8.data.toList
  rw [decode, String.toList_append, String.toList_ofList, Text.after?_append]
  simp only [Bytes.Base64.trim_bare bare, Bytes.Base64.utf8_bare bare, Bytes.Base64.decode_octets, fromUTF8?_toUTF8,
    Option.bind_some]
  cases Json.parse? Json.nesting s <;> rfl

theorem decode_shallow (v : Value) (shallow : levels v ≤ 127) (exact_numbers : ∀ x ∈ numbers v, Exact x) :
    decode (encode v) = .ok (named v) := by
  have parsed := Json.parse?_render Json.nesting (tree v)
  rw [tree_depth, Json.nesting, if_pos shallow, tree_reading v exact_numbers, Option.map_some, tree_merge] at parsed
  rw [encode, decode_text, Json.nesting, parsed]
  exact untree_tree v

/-- A value comes back out of its envelope, with its identifiers as strings, when at most 127 arrays and
objects are open at once in its tree and the JSON reader gets its fractions right. No deeper value does. -/
theorem decode_encode (v : Value) :
    (levels v ≤ 127 →
      (∀ x ∈ numbers v, x.isFinite → Decimal.integer? x = none → Rereads x) → decode (encode v) = .ok (named v)) ∧
    (127 < levels v → decode (encode v) = .error .json) := by
  refine ⟨decode_shallow v, fun deep => ?_⟩
  have parsed := Json.parse?_render Json.nesting (tree v)
  rw [tree_depth, Json.nesting, if_neg (Nat.not_le.mpr deep)] at parsed
  rw [encode, decode_text, Json.nesting, parsed, Option.elim_none]

def mixed : Value :=
  .map [(.number (-0.0), .set [.identifier "x", .number (0.0 / 0.0)]), (.number (-0.0), .object [("k", .number 0.5)])]

theorem decode_encode_mixed :
    decode (encode mixed) =
      .ok (.map [(.number (-0.0), .set [.string "x", .number (0.0 / 0.0)]),
        (.number (-0.0), .object [("k", .number 0.5)])]) ∧
    decode (encode (Nat.repeat (fun v => .array [v]) 64 .null)) = .error .json := by
  refine ⟨(decode_encode mixed).1 (by decide) ?_, (decode_encode _).2 (by decide +kernel)⟩
  intro x here finite fraction
  have each : x = -0.0 ∨ x = 0.0 / 0.0 ∨ x = -0.0 ∨ x = 0.5 := by
    simpa [mixed, numbers, numbersOf, numbersOfEntries, numbersOfPairs] using here
  rcases each with rfl | rfl | rfl | rfl
  · exact absurd fraction (by decide +kernel)
  · exact absurd finite (by decide +kernel)
  · exact absurd fraction (by decide +kernel)
  · rfl

end Prerender.Value.Envelope
