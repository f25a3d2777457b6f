import Prerender.Proofs.Envelope
import Prerender.Proofs.Json.Depth

set_option autoImplicit false

namespace Prerender.Value.Envelope

open Json (depth depthItems depthMembers)

def node? (text : String) : Option Json := do
  let payload ← Text.after? marker.toList text.toList
  let bytes ← (Bytes.Base64.decode (String.ofList (Text.trim payload)).toUTF8.data.toList).toOption
  let json ← String.fromUTF8? ⟨bytes.toArray⟩
  Json.parse? Json.nesting json

def enveloped (json : String) : String := marker ++ String.ofList (Bytes.Base64.encode json.toUTF8.data.toList)

def kind? (node : Json) : Option String := (node.get? "type").bind Json.string?

inductive Fits : String → Option Json → Prop where
  | undefined (payload : Option Json) : Fits "undefined" payload
  | null (payload : Option Json) : Fits "null" payload
  | symbol (payload : Option Json) : Fits "symbol" payload
  | boolean (b : Bool) : Fits "boolean" (some (.bool b))
  | number (n : Json.Number) : Fits "number" (some (.number n))
  | special {name : String} (known : name ∈ ["NaN", "Infinity", "-Infinity", "-0"]) :
      Fits "number" (some (.string name))
  | string (s : String) : Fits "string" (some (.string s))
  | array (items : List Json) : Fits "array" (some (.array items))
  | set (items : List Json) : Fits "set" (some (.array items))
  | object (entries : List (String × Json)) :
      Fits "object" (some (.array (entries.map fun entry => .array [.string entry.1, entry.2])))
  | map (entries : List (Json × Json)) :
      Fits "map" (some (.array (entries.map fun entry => .array [entry.1, entry.2])))

def Faulty (node : Json) : Prop := ∀ kind, kind? node = some kind → ¬ Fits kind (node.get? "value")

inductive Part (node : Json) : Json → Prop where
  | item {kind : String} {items : List Json} {part : Json} (is : kind? node = some kind)
      (either : kind = "array" ∨ kind = "set") (holds : node.get? "value" = some (.array items))
      (here : part ∈ items) : Part node part
  | value {items : List Json} {key part : Json} (is : kind? node = some "object")
      (holds : node.get? "value" = some (.array items)) (here : .array [key, part] ∈ items) : Part node part
  | mapKey {items : List Json} {part value : Json} (is : kind? node = some "map")
      (holds : node.get? "value" = some (.array items)) (here : .array [part, value] ∈ items) : Part node part
  | mapValue {items : List Json} {key part : Json} (is : kind? node = some "map")
      (holds : node.get? "value" = some (.array items)) (here : .array [key, part] ∈ items) : Part node part

def Reaches : Json → Json → Prop := Relation.ReflTransGen Part

def Stands (j : Json) (v : Value) : Prop := untree j = .ok v

def StandsEntry (j : Json) (entry : String × Value) : Prop :=
  ∃ part, j = .array [.string entry.1, part] ∧ Stands part entry.2

def StandsPair (j : Json) (entry : Value × Value) : Prop :=
  ∃ key value, j = .array [key, value] ∧ Stands key entry.1 ∧ Stands value entry.2

inductive Content : String → Option Json → Value → Prop where
  | undefined (payload : Option Json) : Content "undefined" payload .undefined
  | null (payload : Option Json) : Content "null" payload .null
  | symbol (payload : Option Json) :
      Content "symbol" payload (.symbol ((payload.bind Json.string?).getD ""))
  | boolean (b : Bool) : Content "boolean" (some (.bool b)) (.bool b)
  | number (n : Json.Number) : Content "number" (some (.number n)) (.number n.toFloat)
  | special {name : String} {x : Float} (known : special? name = some x) :
      Content "number" (some (.string name)) (.number x)
  | string (s : String) : Content "string" (some (.string s)) (.string s)
  | array {items : List Json} {values : List Value} (each : List.Forall₂ Stands items values) :
      Content "array" (some (.array items)) (.array values)
  | set {items : List Json} {values : List Value} (each : List.Forall₂ Stands items values) :
      Content "set" (some (.array items)) (.set values)
  | object {items : List Json} {entries : List (String × Value)} (each : List.Forall₂ StandsEntry items entries) :
      Content "object" (some (.array items)) (.object entries)
  | map {items : List Json} {entries : List (Value × Value)} (each : List.Forall₂ StandsPair items entries) :
      Content "map" (some (.array items)) (.map entries)

theorem node?_enveloped (json : String) : node? (enveloped json) = Json.parse? Json.nesting json := by
  have bare := Bytes.Base64.bare_encode json.toUTF8.data.toList
  rw [enveloped, node?, String.toList_append, String.toList_ofList, Text.after?_append]
  simp only [Option.bind_eq_bind, Option.bind_some, Bytes.Base64.trim_bare bare, Bytes.Base64.utf8_bare bare,
    Bytes.Base64.decode_octets, Except.toOption, fromUTF8?_toUTF8]

theorem decode_node (text : String) :
    (∃ node, node? text = some node ∧ decode text = untree node) ∨
    (node? text = none ∧ ∃ fault, decode text = .error fault) := by
  rw [decode, node?]
  cases Text.after? marker.toList text.toList with
  | none => exact .inr ⟨rfl, _, rfl⟩
  | some payload =>
      simp only [Option.bind_eq_bind, Option.bind_some]
      cases Bytes.Base64.decode (String.ofList (Text.trim payload)).toUTF8.data.toList with
      | error cause => exact .inr ⟨rfl, _, rfl⟩
      | ok bytes =>
          simp only [Except.toOption, Option.bind_some]
          cases (String.fromUTF8? ⟨bytes.toArray⟩).bind (Json.parse? Json.nesting) with
          | none => exact .inr ⟨rfl, _, rfl⟩
          | some node => exact .inl ⟨node, rfl, rfl⟩

theorem untreePayload_get (kind : String) (node : Json) (members : List (String × Json)) :
    untreePayload kind node members =
      (Keyed.get? members "value").elim (scalar kind node .null) (untreeContent kind node) := by
  induction members with
  | nil => rfl
  | cons member members ih =>
      obtain ⟨key, payload⟩ := member
      rw [untreePayload, Keyed.get?]
      split
      · rfl
      · exact ih

theorem untree_kind {node : Json} {kind : String} (is : kind? node = some kind) :
    untree node = (node.get? "value").elim (scalar kind node .null) (untreeContent kind node) := by
  cases node with
  | object members =>
      have found : (Keyed.get? members "type").bind Json.string? = some kind := is
      rw [untree, found]
      exact untreePayload_get kind _ members
  | null => cases is
  | bool b => cases is
  | number n => cases is
  | string s => cases is
  | array items => cases is

theorem untree_kindless {node : Json} (none_is : kind? node = none) : ∃ fault, untree node = .error fault := by
  cases node with
  | object members =>
      have missing : (Keyed.get? members "type").bind Json.string? = none := none_is
      rw [untree, missing]
      exact ⟨_, rfl⟩
  | null => exact ⟨_, rfl⟩
  | bool b => exact ⟨_, rfl⟩
  | number n => exact ⟨_, rfl⟩
  | string s => exact ⟨_, rfl⟩
  | array items => exact ⟨_, rfl⟩

theorem bind_ok {α β : Type} {read : Except Error α} {next : α → Except Error β} {b : β} :
    read >>= next = .ok b ↔ ∃ a, read = .ok a ∧ next a = .ok b := by
  cases read <;> simp [bind, Except.bind]

theorem map_ok {α β : Type} {read : Except Error α} {f : α → β} {b : β} :
    read.map f = .ok b ↔ ∃ a, read = .ok a ∧ f a = b := by
  cases read <;> simp [Except.map]

theorem untreeItems_ok {items : List Json} {values : List Value} :
    untreeItems items = .ok values ↔ List.Forall₂ Stands items values := by
  induction items generalizing values with
  | nil => simp [untreeItems, eq_comm]
  | cons item items ih =>
      simp only [untreeItems, bind_ok, pure, Except.pure, Except.ok.injEq, List.forall₂_cons_left_iff, ih, Stands]
      constructor
      · rintro ⟨v, first, vs, others, rfl⟩
        exact ⟨v, vs, first, others, rfl⟩
      · rintro ⟨v, vs, first, others, rfl⟩
        exact ⟨v, first, vs, others, rfl⟩

theorem isPair_iff {j : Json} : isPair j = true ↔ ∃ first second, j = .array [first, second] := by
  constructor
  · intro pair
    unfold isPair at pair
    split at pair
    · exact ⟨_, _, rfl⟩
    · cases pair
  · rintro ⟨first, second, rfl⟩
    rfl

theorem untreeEntries_ok {node : Json} {items : List Json} {entries : List (String × Value)} :
    items.all isPair = true ∧ untreeEntries node items = .ok entries ↔ List.Forall₂ StandsEntry items entries := by
  induction items generalizing entries with
  | nil => simp [untreeEntries, eq_comm]
  | cons item items ih =>
      rw [List.forall₂_cons_left_iff, List.all_cons, Bool.and_eq_true, isPair_iff]
      constructor
      · rintro ⟨⟨⟨key, part, rfl⟩, pairs⟩, read⟩
        cases key with
        | string key =>
            obtain ⟨v, first, read⟩ := bind_ok.mp read
            obtain ⟨vs, others, read⟩ := bind_ok.mp read
            exact ⟨(key, v), vs, ⟨part, rfl, first⟩, ih.mp ⟨pairs, others⟩, (Except.ok.inj read).symm⟩
        | null => cases read
        | bool b => cases read
        | number n => cases read
        | array items => cases read
        | object members => cases read
      · rintro ⟨⟨key, v⟩, vs, ⟨part, rfl, first⟩, others, rfl⟩
        obtain ⟨pairs, others⟩ := ih.mpr others
        exact ⟨⟨⟨_, _, rfl⟩, pairs⟩, bind_ok.mpr ⟨v, first, bind_ok.mpr ⟨vs, others, rfl⟩⟩⟩

theorem untreePairs_ok {items : List Json} {entries : List (Value × Value)} :
    items.all isPair = true ∧ untreePairs items = .ok entries ↔ List.Forall₂ StandsPair items entries := by
  induction items generalizing entries with
  | nil => simp [untreePairs, eq_comm]
  | cons item items ih =>
      rw [List.forall₂_cons_left_iff, List.all_cons, Bool.and_eq_true, isPair_iff]
      constructor
      · rintro ⟨⟨⟨key, part, rfl⟩, pairs⟩, read⟩
        obtain ⟨k, before, read⟩ := bind_ok.mp read
        obtain ⟨v, first, read⟩ := bind_ok.mp read
        obtain ⟨vs, others, read⟩ := bind_ok.mp read
        exact ⟨(k, v), vs, ⟨key, part, rfl, before, first⟩, ih.mp ⟨pairs, others⟩, (Except.ok.inj read).symm⟩
      · rintro ⟨⟨k, v⟩, vs, ⟨key, part, rfl, before, first⟩, others, rfl⟩
        obtain ⟨pairs, others⟩ := ih.mpr others
        exact ⟨⟨⟨_, _, rfl⟩, pairs⟩, bind_ok.mpr ⟨k, before, bind_ok.mpr ⟨v, first, bind_ok.mpr ⟨vs, others, rfl⟩⟩⟩⟩

theorem scalar_content {kind : String} {node payload : Json} {v : Value} (read : scalar kind node payload = .ok v) :
    Content kind (some payload) v := by
  unfold scalar at read
  split at read
  · obtain rfl := Except.ok.inj read
    exact .undefined _
  · obtain rfl := Except.ok.inj read
    exact .null _
  · obtain rfl := Except.ok.inj read
    exact .symbol _
  · obtain rfl := Except.ok.inj read
    exact .boolean _
  · obtain rfl := Except.ok.inj read
    exact .number _
  · split at read
    next x known =>
      obtain rfl := Except.ok.inj read
      exact .special known
    · cases read
  · obtain rfl := Except.ok.inj read
    exact .string _
  · split at read
    · cases read
    · cases read

theorem scalar_content_absent {kind : String} {node : Json} {v : Value} (read : scalar kind node .null = .ok v) :
    Content kind none v := by
  cases scalar_content read with
  | undefined payload => exact .undefined _
  | null payload => exact .null _
  | symbol payload => exact .symbol none

theorem untreeContent_content {kind : String} {node payload : Json} {v : Value}
    (read : untreeContent kind node payload = .ok v) : Content kind (some payload) v := by
  unfold untreeContent at read
  split at read
  next items =>
    split at read
    · obtain ⟨values, each, rfl⟩ := map_ok.mp read
      exact .array (untreeItems_ok.mp each)
    · obtain ⟨values, each, rfl⟩ := map_ok.mp read
      exact .set (untreeItems_ok.mp each)
    · split at read
      next pairs =>
        obtain ⟨entries, each, rfl⟩ := map_ok.mp read
        exact .object (untreeEntries_ok.mp ⟨pairs, each⟩)
      · cases read
    · split at read
      next pairs =>
        obtain ⟨entries, each, rfl⟩ := map_ok.mp read
        exact .map (untreePairs_ok.mp ⟨pairs, each⟩)
      · cases read
    · exact scalar_content read
  · exact scalar_content read

theorem content_untree {node : Json} {kind : String} {payload : Option Json} {v : Value}
    (is : kind? node = some kind) (holds : node.get? "value" = payload) (content : Content kind payload v) :
    untree node = .ok v := by
  rw [untree_kind is, holds]
  cases content with
  | undefined payload =>
      rcases payload with _ | payload
      · rfl
      · cases payload <;> rfl
  | null payload =>
      rcases payload with _ | payload
      · rfl
      · cases payload <;> rfl
  | symbol payload =>
      rcases payload with _ | payload
      · rfl
      · cases payload <;> rfl
  | boolean b => rfl
  | number n => rfl
  | special known => simp only [Option.elim_some, untreeContent, scalar, known]
  | string s => rfl
  | array each => exact map_ok.mpr ⟨_, untreeItems_ok.mpr each, rfl⟩
  | set each => exact map_ok.mpr ⟨_, untreeItems_ok.mpr each, rfl⟩
  | object each =>
      obtain ⟨pairs, each⟩ := untreeEntries_ok.mpr each
      exact (if_pos pairs).trans (map_ok.mpr ⟨_, each, rfl⟩)
  | map each =>
      obtain ⟨pairs, each⟩ := untreePairs_ok.mpr each
      exact (if_pos pairs).trans (map_ok.mpr ⟨_, each, rfl⟩)

theorem stands_iff {node : Json} {v : Value} :
    Stands node v ↔ ∃ kind, kind? node = some kind ∧ Content kind (node.get? "value") v := by
  constructor
  · intro read
    cases is : kind? node with
    | none =>
        obtain ⟨fault, failed⟩ := untree_kindless is
        cases failed.symm.trans read
    | some kind =>
        refine ⟨kind, rfl, ?_⟩
        have read := (untree_kind is).symm.trans read
        cases holds : node.get? "value" with
        | none =>
            rw [holds] at read
            exact scalar_content_absent read
        | some payload =>
            rw [holds] at read
            exact untreeContent_content read
  · rintro ⟨kind, is, content⟩
    exact content_untree is rfl content

theorem special_known {name : String} : (∃ x, special? name = some x) ↔ name ∈ ["NaN", "Infinity", "-Infinity", "-0"] := by
  unfold special?
  split <;> simp_all

-- What stands for entries is a list of pairs, and what is read are the seconds of the pairs, or both.
theorem entries_pairs {items : List Json} {entries : List (String × Value)}
    (each : List.Forall₂ StandsEntry items entries) :
    ∃ pairs : List (String × Json), items = pairs.map fun pair => .array [.string pair.1, pair.2] := by
  induction each with
  | nil => exact ⟨[], rfl⟩
  | cons first _ ih =>
      obtain ⟨part, rfl, -⟩ := first
      obtain ⟨pairs, rfl⟩ := ih
      exact ⟨(_, part) :: pairs, rfl⟩

theorem pairs_pairs {items : List Json} {entries : List (Value × Value)}
    (each : List.Forall₂ StandsPair items entries) :
    ∃ pairs : List (Json × Json), items = pairs.map fun pair => .array [pair.1, pair.2] := by
  induction each with
  | nil => exact ⟨[], rfl⟩
  | cons first _ ih =>
      obtain ⟨key, value, rfl, -⟩ := first
      obtain ⟨pairs, rfl⟩ := ih
      exact ⟨(key, value) :: pairs, rfl⟩

theorem content_fits {kind : String} {payload : Option Json} {v : Value} (content : Content kind payload v) :
    Fits kind payload := by
  cases content with
  | undefined payload => exact .undefined _
  | null payload => exact .null _
  | symbol payload => exact .symbol _
  | boolean b => exact .boolean b
  | number n => exact .number n
  | special known => exact .special (special_known.mp ⟨_, known⟩)
  | string s => exact .string s
  | array each => exact .array _
  | set each => exact .set _
  | object each =>
      obtain ⟨pairs, rfl⟩ := entries_pairs each
      exact .object pairs
  | map each =>
      obtain ⟨pairs, rfl⟩ := pairs_pairs each
      exact .map pairs

theorem content_items {kind : String} {items : List Json} {v : Value}
    (content : Content kind (some (.array items)) v) (list : kind = "array" ∨ kind = "set") :
    ∃ values, List.Forall₂ Stands items values := by
  cases content with
  | array each => exact ⟨_, each⟩
  | set each => exact ⟨_, each⟩
  | _ => simp at list

theorem content_entries {kind : String} {items : List Json} {v : Value}
    (content : Content kind (some (.array items)) v) (is : kind = "object") :
    ∃ entries, List.Forall₂ StandsEntry items entries := by
  cases content with
  | object each => exact ⟨_, each⟩
  | _ => simp at is

theorem content_pairs {kind : String} {items : List Json} {v : Value}
    (content : Content kind (some (.array items)) v) (is : kind = "map") :
    ∃ entries, List.Forall₂ StandsPair items entries := by
  cases content with
  | map each => exact ⟨_, each⟩
  | _ => simp at is

theorem forall₂_left {α β : Type} {related : α → β → Prop} {xs : List α} {ys : List β}
    (each : List.Forall₂ related xs ys) {x : α} (here : x ∈ xs) : ∃ y, related x y := by
  induction each with
  | nil => cases here
  | cons first _ ih =>
      rcases List.mem_cons.mp here with rfl | here
      · exact ⟨_, first⟩
      · exact ih here

theorem forall₂_exists {α β : Type} {related : α → β → Prop} {xs : List α} (each : ∀ x ∈ xs, ∃ y, related x y) :
    ∃ ys, List.Forall₂ related xs ys := by
  induction xs with
  | nil => exact ⟨[], .nil⟩
  | cons x xs ih =>
      obtain ⟨⟨y, first⟩, others⟩ := List.forall_mem_cons.mp each
      obtain ⟨ys, rest⟩ := ih others
      exact ⟨y :: ys, .cons first rest⟩

theorem part_stands {node part : Json} {v : Value} (inside : Part node part) (read : Stands node v) :
    ∃ w, Stands part w := by
  obtain ⟨kind, is, content⟩ := stands_iff.mp read
  cases inside with
  | item also list holds here =>
      obtain rfl := Option.some.inj (is.symm.trans also)
      rw [holds] at content
      obtain ⟨values, each⟩ := content_items content list
      exact forall₂_left each here
  | value also holds here =>
      rw [holds] at content
      obtain ⟨entries, each⟩ := content_entries content (Option.some.inj (is.symm.trans also))
      obtain ⟨entry, part, same, read⟩ := forall₂_left each here
      cases same
      exact ⟨_, read⟩
  | mapKey also holds here =>
      rw [holds] at content
      obtain ⟨entries, each⟩ := content_pairs content (Option.some.inj (is.symm.trans also))
      obtain ⟨entry, key, value, same, read, -⟩ := forall₂_left each here
      cases same
      exact ⟨_, read⟩
  | mapValue also holds here =>
      rw [holds] at content
      obtain ⟨entries, each⟩ := content_pairs content (Option.some.inj (is.symm.trans also))
      obtain ⟨entry, key, value, same, -, read⟩ := forall₂_left each here
      cases same
      exact ⟨_, read⟩

theorem fits_stands {node : Json} {kind : String} {payload : Option Json} (is : kind? node = some kind)
    (holds : node.get? "value" = payload) (fits : Fits kind payload)
    (parts : ∀ part, Part node part → ∃ w, Stands part w) : ∃ v, Content kind payload v := by
  cases fits with
  | undefined payload => exact ⟨_, .undefined _⟩
  | null payload => exact ⟨_, .null _⟩
  | symbol payload => exact ⟨_, .symbol _⟩
  | boolean b => exact ⟨_, .boolean b⟩
  | number n => exact ⟨_, .number n⟩
  | special known =>
      obtain ⟨x, named⟩ := special_known.mpr known
      exact ⟨_, .special named⟩
  | string s => exact ⟨_, .string s⟩
  | array items =>
      obtain ⟨values, each⟩ := forall₂_exists fun item here => parts item (.item is (.inl rfl) holds here)
      exact ⟨_, .array each⟩
  | set items =>
      obtain ⟨values, each⟩ := forall₂_exists fun item here => parts item (.item is (.inr rfl) holds here)
      exact ⟨_, .set each⟩
  | object entries =>
      have each : ∀ entry ∈ entries.map fun entry : String × Json => Json.array [.string entry.1, entry.2],
          ∃ read, StandsEntry entry read := by
        intro entry here
        obtain ⟨⟨key, part⟩, -, rfl⟩ := List.mem_map.mp here
        obtain ⟨w, read⟩ := parts part (.value is holds here)
        exact ⟨(key, w), part, rfl, read⟩
      obtain ⟨read, each⟩ := forall₂_exists each
      exact ⟨_, .object each⟩
  | map entries =>
      have each : ∀ entry ∈ entries.map fun entry : Json × Json => Json.array [entry.1, entry.2],
          ∃ read, StandsPair entry read := by
        intro entry here
        obtain ⟨⟨key, value⟩, -, rfl⟩ := List.mem_map.mp here
        obtain ⟨k, before⟩ := parts key (.mapKey is holds here)
        obtain ⟨w, read⟩ := parts value (.mapValue is holds here)
        exact ⟨(k, w), key, value, rfl, before, read⟩
      obtain ⟨read, each⟩ := forall₂_exists each
      exact ⟨_, .map each⟩

theorem stands_parts {node : Json} :
    (∃ v, Stands node v) ↔ ¬ Faulty node ∧ ∀ part, Part node part → ∃ w, Stands part w := by
  constructor
  · rintro ⟨v, read⟩
    obtain ⟨kind, is, content⟩ := stands_iff.mp read
    exact ⟨fun faulty => faulty kind is (content_fits content), fun part inside => part_stands inside read⟩
  · rintro ⟨sound, parts⟩
    simp only [Faulty, not_forall, not_not] at sound
    obtain ⟨kind, is, fits⟩ := sound
    obtain ⟨v, content⟩ := fits_stands is rfl fits parts
    exact ⟨v, stands_iff.mpr ⟨kind, is, content⟩⟩

theorem depth_get {node payload : Json} {key : String} (holds : node.get? key = some payload) :
    depth payload < depth node := by
  cases node with
  | object members =>
      have all := (Json.depthMembers_le _ members).mp (Nat.le_refl _)
      have found : Keyed.get? members key = some payload := holds
      rw [← Keyed.lookup_eq_get?] at found
      obtain ⟨before, behind, rfl, -⟩ := List.lookup_eq_some_iff.mp found
      exact Nat.lt_succ_of_le (all (key, payload) (List.mem_append_right _ List.mem_cons_self))
  | null => cases holds
  | bool b => cases holds
  | number n => cases holds
  | string s => cases holds
  | array items => cases holds

theorem depth_item {items : List Json} {item : Json} (here : item ∈ items) : depth item < depth (.array items) :=
  Nat.lt_succ_of_le ((Json.depthItems_le _ items).mp (Nat.le_refl _) item here)

theorem depth_part {node part : Json} (inside : Part node part) : depth part < depth node := by
  cases inside with
  | item is list holds here => exact (depth_item here).trans (depth_get holds)
  | value is holds here =>
      exact (depth_item (List.mem_cons_of_mem _ List.mem_cons_self)).trans ((depth_item here).trans (depth_get holds))
  | mapKey is holds here =>
      exact (depth_item List.mem_cons_self).trans ((depth_item here).trans (depth_get holds))
  | mapValue is holds here =>
      exact (depth_item (List.mem_cons_of_mem _ List.mem_cons_self)).trans ((depth_item here).trans (depth_get holds))

-- The induction is on the depth of the tree, which every part is below.
theorem stands_reaches (node : Json) : (∃ v, Stands node v) ↔ ∀ part, Reaches node part → ¬ Faulty part := by
  induction shallow : depth node using Nat.strongRecOn generalizing node with
  | ind _ ih =>
      rw [stands_parts]
      constructor
      · rintro ⟨sound, parts⟩ part reached
        rcases reached.cases_head with rfl | ⟨next, inside, beyond⟩
        · exact sound
        · exact (ih _ (shallow ▸ depth_part inside) next rfl).mp (parts next inside) part beyond
      · intro sound
        refine ⟨sound node .refl, fun part inside => (ih _ (shallow ▸ depth_part inside) part rfl).mpr ?_⟩
        exact fun next beyond => sound next (.head inside beyond)

-- The value of a node is no deeper than the node, and what it holds by name is a string by now.
def Sound (node : Json) : Prop := ∀ v, Stands node v → levels v ≤ depth node ∧ named v = v

theorem items_sound {items : List Json} {values : List Value} (each : List.Forall₂ Stands items values)
    (sound : ∀ item ∈ items, Sound item) : deepest values ≤ depthItems items ∧ namedItems values = values := by
  induction each with
  | nil => exact ⟨Nat.le_refl _, rfl⟩
  | cons first _ ih =>
      obtain ⟨head_sound, sound⟩ := List.forall_mem_cons.mp sound
      obtain ⟨low, same⟩ := head_sound _ first
      obtain ⟨others_low, others_same⟩ := ih sound
      rw [deepest, depthItems, namedItems, same, others_same]
      exact ⟨max_le_max low others_low, rfl⟩

theorem entries_sound {items : List Json} {entries : List (String × Value)}
    (each : List.Forall₂ StandsEntry items entries) (sound : ∀ key part, .array [key, part] ∈ items → Sound part) :
    (entries ≠ [] → 1 + deepestEntry entries ≤ depthItems items) ∧ namedEntries entries = entries := by
  induction each with
  | nil => exact ⟨fun some_entry => absurd rfl some_entry, rfl⟩
  | @cons item entry items entries first others ih =>
      obtain ⟨key, v⟩ := entry
      obtain ⟨part, rfl, read⟩ := first
      obtain ⟨low, same⟩ := sound _ part List.mem_cons_self v read
      obtain ⟨others_low, others_same⟩ := ih fun key part here => sound key part (List.mem_cons_of_mem _ here)
      constructor
      · intro _
        simp only [deepestEntry, depthItems, depth]
        rcases entries with _ | ⟨entry, entries⟩
        · simp only [deepestEntry]
          omega
        · have more := others_low (List.cons_ne_nil _ _)
          omega
      · simp only [namedEntries, same, others_same]

theorem pairs_sound {items : List Json} {entries : List (Value × Value)}
    (each : List.Forall₂ StandsPair items entries)
    (sound : ∀ key value, .array [key, value] ∈ items → Sound key ∧ Sound value) :
    (entries ≠ [] → 1 + deepestPair entries ≤ depthItems items) ∧ namedPairs entries = entries := by
  induction each with
  | nil => exact ⟨fun some_entry => absurd rfl some_entry, rfl⟩
  | @cons item entry items entries first others ih =>
      obtain ⟨k, v⟩ := entry
      obtain ⟨key, value, rfl, key_read, value_read⟩ := first
      obtain ⟨key_sound, value_sound⟩ := sound key value List.mem_cons_self
      obtain ⟨key_low, key_same⟩ := key_sound k key_read
      obtain ⟨low, same⟩ := value_sound v value_read
      obtain ⟨others_low, others_same⟩ := ih fun key value here => sound key value (List.mem_cons_of_mem _ here)
      constructor
      · intro _
        simp only [deepestPair, depthItems, depth]
        rcases entries with _ | ⟨entry, entries⟩
        · simp only [deepestPair]
          omega
        · have more := others_low (List.cons_ne_nil _ _)
          omega
      · simp only [namedPairs, key_same, same, others_same]

theorem content_sound {node : Json} {kind : String} {payload : Option Json} {v : Value}
    (is : kind? node = some kind) (holds : node.get? "value" = payload) (content : Content kind payload v)
    (parts : ∀ part, Part node part → Sound part) : levels v ≤ depth node ∧ named v = v := by
  have opened : 1 ≤ depth node := by
    obtain ⟨tag, found, -⟩ := Option.bind_eq_some_iff.mp is
    exact Nat.lt_of_le_of_lt (Nat.zero_le _) (depth_get found)
  cases content with
  | array each =>
      obtain ⟨low, same⟩ := items_sound each fun item here => parts item (.item is (.inl rfl) holds here)
      have inner := depth_get holds
      rw [depth] at inner
      exact ⟨by rw [levels]; omega, by rw [named, same]⟩
  | set each =>
      obtain ⟨low, same⟩ := items_sound each fun item here => parts item (.item is (.inr rfl) holds here)
      have inner := depth_get holds
      rw [depth] at inner
      exact ⟨by rw [levels]; omega, by rw [named, same]⟩
  | @object items entries each =>
      obtain ⟨low, same⟩ := entries_sound each fun key part here => parts part (.value is holds here)
      have inner := depth_get holds
      rw [depth] at inner
      refine ⟨?_, by rw [named, same]⟩
      rw [levels]
      cases entries with
      | nil => exact Nat.lt_of_le_of_lt (Nat.le_add_left 1 _) inner
      | cons entry entries =>
          have low := low (List.cons_ne_nil _ _)
          rw [if_neg (by simp)]
          omega
  | @map items entries each =>
      obtain ⟨low, same⟩ := pairs_sound each fun key value here =>
        ⟨parts key (.mapKey is holds here), parts value (.mapValue is holds here)⟩
      have inner := depth_get holds
      rw [depth] at inner
      refine ⟨?_, by rw [named, same]⟩
      rw [levels]
      cases entries with
      | nil => exact Nat.lt_of_le_of_lt (Nat.le_add_left 1 _) inner
      | cons entry entries =>
          have low := low (List.cons_ne_nil _ _)
          rw [if_neg (by simp)]
          omega
  | _ => exact ⟨opened, rfl⟩

theorem stands_sound (node : Json) : Sound node := by
  induction shallow : depth node using Nat.strongRecOn generalizing node with
  | ind _ ih =>
      intro v read
      obtain ⟨kind, is, content⟩ := stands_iff.mp read
      exact content_sound is rfl content fun part inside => ih _ (shallow ▸ depth_part inside) part rfl

theorem node?_depth {text : String} {node : Json} (found : node? text = some node) : depth node ≤ Json.nesting := by
  obtain ⟨payload, -, found⟩ := Option.bind_eq_some_iff.mp found
  obtain ⟨bytes, -, found⟩ := Option.bind_eq_some_iff.mp found
  obtain ⟨json, -, found⟩ := Option.bind_eq_some_iff.mp found
  exact Json.parse?_depth found

/-- A decoder of envelopes is strict, and what it gives is settled. Its value, at most 127 arrays and objects
deep, is what its own envelope gives, if the JSON reader gets its fractions right. Its text is refused exactly if
it holds no tree, or a tree in which a node that is reached is faulty: of no known kind, or with a payload that its
kind cannot have. -/
theorem decode_strict (text : String) :
    (∀ v, decode text = .ok v →
      depth (tree v) ≤ 127 ∧
      ((∀ x ∈ numbers v, x.isFinite → Decimal.integer? x = none → Rereads x) → decode (encode v) = .ok v)) ∧
    (∀ node, node? text = some node →
      ((∃ part, Reaches node part ∧ Faulty part) ↔ ∃ fault, decode text = .error fault)) ∧
    (node? text = none → ∃ fault, decode text = .error fault) := by
  rcases decode_node text with ⟨node, found, is⟩ | ⟨missing, fault, is⟩
  · refine ⟨fun v read => ?_, fun other also => ?_, fun missing => ?_⟩
    · obtain ⟨low, same⟩ := stands_sound node v (is.symm.trans read)
      have low := low.trans (node?_depth found)
      exact ⟨(tree_depth v).trans_le low, fun exact_numbers =>
        (decode_shallow v low exact_numbers).trans (congrArg Except.ok same)⟩
    · obtain rfl := Option.some.inj (found.symm.trans also)
      have read := stands_reaches node
      rw [is]
      cases outcome : untree node with
      | error fault =>
          refine ⟨fun _ => ⟨fault, rfl⟩, fun _ => ?_⟩
          by_contra none_faulty
          simp only [not_exists, not_and] at none_faulty
          obtain ⟨v, read⟩ := read.mpr none_faulty
          cases outcome.symm.trans read
      | ok v =>
          refine ⟨fun ⟨part, reached, faulty⟩ => absurd faulty (read.mp ⟨v, outcome⟩ part reached), ?_⟩
          rintro ⟨fault, failed⟩
          cases failed
    · cases missing.symm.trans found
  · refine ⟨fun v read => ?_, fun node found => ?_, fun _ => ⟨fault, is⟩⟩
    · cases is.symm.trans read
    · cases missing.symm.trans found

def rough : Json :=
  .object [("value", .array [.array [.string "k", .object
      [("unit", .null), ("value", .number (.float 0.5)), ("type", .string "number")]]]),
    ("type", .string "set"), ("type", .string "object")]

def spoiled : Json :=
  tagged "set" (.array [tagged "map" (.array [.array [tagged "null" .null, tagged "number" (.string "1")]])])

theorem decode_strict_rough :
    (∃ v, decode (enveloped rough.render) = .ok v ∧ decode (encode v) = .ok v) ∧
    ∃ fault, decode (enveloped spoiled.render) = .error fault := by
  have read : decode (enveloped rough.render) = .ok (.object [("k", .number 0.5)]) := by
    rw [enveloped, decode_text, Json.parse?_render]
    rfl
  have holds : node? (enveloped spoiled.render) = some spoiled := by
    rw [node?_enveloped, Json.parse?_render]
    rfl
  refine ⟨⟨_, read, ((decode_strict _).1 _ read).2 ?_⟩, ((decode_strict _).2.1 _ holds).1 ?_⟩
  · intro x here finite fraction
    obtain rfl : x = 0.5 := by simpa [numbers, numbersOfEntries] using here
    rfl
  · refine ⟨tagged "number" (.string "1"), ?_, ?_⟩
    · refine .tail (.single (.item rfl (.inr rfl) rfl List.mem_cons_self)) ?_
      exact .mapValue rfl rfl List.mem_cons_self
    · intro kind is fits
      have number : "number" = kind := Option.some.inj is
      change Fits kind (some (.string "1")) at fits
      cases fits with
      | special known => simp at known
      | _ => simp at number

end Prerender.Value.Envelope
