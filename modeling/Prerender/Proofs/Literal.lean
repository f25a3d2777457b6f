import Prerender.Proofs.Envelope
import Prerender.Proofs.Script.Constant
import Prerender.Proofs.Script.Leaf
import Prerender.Value.Literal
import Prerender.Value.Reading

set_option autoImplicit false

namespace Prerender.Value

open Script (Node Kind)
open Script.Expression
open Envelope (numbers numbersOf numbersOfEntries numbersOfPairs)

def unsigned (x : Float) : Float :=
  match x.toModel.unpack with
  | .zero _ => 0.0
  | _ => x

mutual
def norm : Value → Value
  | .identifier _ => .undefined
  | .number x => .number (unsigned x)
  | .array items => .array (normItems items)
  | .object entries => .object (normEntries entries)
  | .map entries => .map (normPairs entries)
  | .set items => .set (normItems items)
  | v => v
def normItems : List Value → List Value
  | [] => []
  | item :: items => norm item :: normItems items
def normEntries : List (String × Value) → List (String × Value)
  | [] => []
  | (key, value) :: entries =>
      if value.isIdentifier then normEntries entries else (key, norm value) :: normEntries entries
def normPairs : List (Value × Value) → List (Value × Value)
  | [] => []
  | (key, value) :: entries => (norm key, norm value) :: normPairs entries
end

def Legible (x : Float) : Prop := Script.Number.signed? (numberText x).toList = some x

instance (x : Float) : Decidable (Legible x) := inferInstanceAs (Decidable (_ = _))

-- A number that is legible if it has to be: the names and the whole numbers below `10 ^ 15` are, as they are written.
def Clear (x : Float) : Prop := x.isFinite → Decimal.integer? x = none → Legible x

def reading? (dialect : Script.Dialect) (text : String) : Option Value := do
  let tree ← Script.parse? dialect ("const value = " ++ text ++ ";")
  let e ← Script.initializer? tree
  ofNode? e

theorem unsigned_of_integer {x : Float} {n : Int} (whole : Decimal.integer? x = some n) : unsigned x = Float.ofInt n := by
  cases is : x.toModel.unpack with
  | zero s =>
      obtain rfl : 0 = n := Option.some.inj ((Envelope.integer_zero is).symm.trans whole)
      simp only [unsigned, is]
      rfl
  | _ =>
      have back := Decimal.ofInt_integer x n whole (by rw [is]; nofun)
      simp only [unsigned, is, back]

theorem unsigned_of_fraction {x : Float} (fraction : Decimal.integer? x = none) : unsigned x = x := by
  cases is : x.toModel.unpack with
  | zero s =>
      rw [Envelope.integer_zero is] at fraction
      cases fraction
  | _ => simp only [unsigned, is]

-- What a number is written as; only the last depends on how fractions are read.
inductive Numeral (x : Float) : String → Prop where
  | name (name : String) (is : (name, x) ∈ [("NaN", 0.0 / 0.0), ("Infinity", 1.0 / 0.0)]) : Numeral x name
  | minus (is : x = -(1.0 / 0.0)) : Numeral x "-Infinity"
  | whole (n : Int) (is : Decimal.integer? x = some n) : Numeral x (toString n)
  | fraction (finite : x.isFinite) (is : Decimal.integer? x = none)
      (signed : Script.Number.Signed (Decimal.plain.write x).toList) : Numeral x (Decimal.plain.write x)

theorem numeral_text (x : Float) : Numeral x (numberText x) := by
  cases is : x.toModel.unpack with
  | notANumber =>
      have same : x = 0.0 / 0.0 := Decimal.unpack_injective _ _ is
      rw [numberText, is]
      exact .name "NaN" (by simp [same])
  | infinity s =>
      cases s with
      | positive =>
          have same : x = 1.0 / 0.0 := Decimal.unpack_injective _ _ is
          rw [numberText, is]
          exact .name "Infinity" (by simp [same])
      | negative =>
          have same : x = -(1.0 / 0.0) := Decimal.unpack_injective _ _ is
          rw [numberText, is]
          exact .minus same
  | zero s =>
      have text : numberText x = toString (0 : Int) := by simp only [numberText, is, Envelope.integer_zero is]
      rw [text]
      exact .whole 0 (Envelope.integer_zero is)
  | finite s m q pos =>
      cases whole : Decimal.integer? x with
      | some n =>
          have text : numberText x = toString n := by simp only [numberText, is, whole]
          rw [text]
          exact .whole n whole
      | none =>
          have text : numberText x = Decimal.plain.write x := by simp only [numberText, is, whole]
          rw [text]
          refine .fraction (Envelope.isFinite_unpack is) whole ?_
          rw [Decimal.Layout.write, is, String.toList_ofList]
          have plain := Script.Number.plain_body (Decimal.shortest Decimal.plain.tie m q)
          cases s with
          | positive => exact .plain _ plain
          | negative => exact .minus _ plain

def Reads (text : String) (v : Value) : Prop := Expressed text.toList fun e => ofNode? e = some v

theorem reads_name {name : String} (word : Script.Lexeme.isWord name = true) (plain : name ∉ Script.foreign ++ operators)
    (free : name ∉ keywords) : Reads name (ofName name) := by
  refine (expressed_operand fun _ _ => operand_name word plain free).weaken ?_
  rintro _ ⟨span, rfl⟩
  rfl

theorem reads_signed {text : String} {x : Float} (signed : Script.Number.Signed text.toList)
    (value : Script.Number.signed? text.toList = some x) : Reads text (.number x) := by
  refine (expressed_signed signed value).weaken ?_
  rintro _ (⟨span, rfl⟩ | ⟨span, at_, y, rfl, rfl⟩)
  · rfl
  · rfl

theorem reads_number (x : Float) (clear : Clear x) : Reads (numberText x) (.number (unsigned x)) := by
  have numeral := numeral_text x
  rw [Clear, Legible] at clear
  generalize numberText x = text at numeral clear ⊢
  cases numeral with
  | name name is =>
      simp only [List.mem_cons, Prod.mk.injEq, List.not_mem_nil, or_false] at is
      rcases is with ⟨rfl, rfl⟩ | ⟨rfl, rfl⟩
      · exact @reads_name "NaN" (by decide) (by decide) (by decide)
      · exact @reads_name "Infinity" (by decide) (by decide) (by decide)
  | minus is =>
      subst is
      have operand (m n : Nat) := @operand_name m n "Infinity" (by decide) (by decide) (by decide)
      have text : "Infinity".toList = 'I' :: "nfinity".toList := by decide
      rw [text] at operand
      refine (expressed_minus operand (by decide)).weaken ?_
      rintro _ ⟨span, _, rfl, at_, rfl⟩
      rfl
  | whole n is =>
      obtain ⟨signed, value⟩ := Script.Number.signed?_int n
      rw [unsigned_of_integer is]
      exact reads_signed signed value
  | fraction finite is signed =>
      rw [unsigned_of_fraction is]
      exact reads_signed signed (clear finite is)

theorem literalItems_toList (items : List Value) :
    (literalItems items).toList = Text.join [',', ' '] (items.map fun v => (literal v).toList) := by
  induction items with
  | nil => rfl
  | cons item items ih =>
      cases items with
      | nil => rfl
      | cons next items =>
          rw [literalItems, String.toList_append, String.toList_append, ih]
          rfl

theorem literalPairs_toList (entries : List (Value × Value)) :
    (literalPairs entries).toList = Text.join [',', ' '] (entries.map fun x =>
      '[' :: Text.join [',', ' '] ([x.1, x.2].map fun v => (literal v).toList) ++ [']']) := by
  induction entries with
  | nil => rfl
  | cons x entries ih =>
      obtain ⟨key, value⟩ := x
      cases entries with
      | nil => simp [literalPairs, Text.join]
      | cons next entries =>
          simp only [literalPairs, String.toList_append, ih]
          simp [Text.join]

def kept (entries : List (String × Value)) : List (String × Value) := entries.filter fun x => !x.2.isIdentifier

def entryText (x : String × Value) : List Char := entry x.1 (literal x.2).toList

theorem join_separated (sep piece : List Char) (pieces : List (List Char)) :
    Text.join sep (piece :: pieces) = piece ++ ((if pieces.isEmpty then [] else sep) ++ Text.join sep pieces) := by
  cases pieces <;> simp [Text.join]

-- The induction is on the entries; an entry that is dropped leaves it open whether another was written.
theorem literalEntries_toList (entries : List (String × Value)) (first : Bool) :
    (literalEntries first entries).toList =
      (if first || (kept entries).isEmpty then [] else [',', ' ']) ++ Text.join [',', ' '] ((kept entries).map entryText) := by
  induction entries generalizing first with
  | nil => simp [literalEntries, kept, Text.join]
  | cons x entries ih =>
      obtain ⟨key, value⟩ := x
      rw [literalEntries]
      split
      next name =>
        have same : kept ((key, value) :: entries) = kept entries := by simp [kept, name]
        rw [same, ih]
      next shown =>
        have more : kept ((key, value) :: entries) = (key, value) :: kept entries := by simp [kept, shown]
        rw [more, List.map_cons, join_separated, List.isEmpty_map]
        simp only [String.toList_append, ih, entryText, entry]
        cases first <;> simp

theorem normItems_map (items : List Value) : normItems items = items.map norm := by
  induction items with
  | nil => rfl
  | cons item items ih => rw [normItems, ih, List.map_cons]

theorem normPairs_map (entries : List (Value × Value)) :
    normPairs entries = entries.map fun x => (norm x.1, norm x.2) := by
  induction entries with
  | nil => rfl
  | cons x entries ih => rw [normPairs, ih, List.map_cons]

theorem normEntries_map (entries : List (String × Value)) :
    normEntries entries = (kept entries).map fun x => (x.1, norm x.2) := by
  induction entries with
  | nil => rfl
  | cons x entries ih =>
      obtain ⟨key, value⟩ := x
      rw [normEntries, ih]
      cases shown : value.isIdentifier <;> simp [kept, shown]

section
variable {α : Type} {xs : List α} {text : α → List Char} {value : α → Value}

theorem reads_array (each : ∀ x ∈ xs, Expressed (text x) fun e => ofNode? e = some (value x)) :
    Expressed ('[' :: Text.join [',', ' '] (xs.map text) ++ [']']) fun e =>
      ofNode? e = some (.array (xs.map value)) := by
  refine (expressed_array each).weaken ?_
  rintro _ ⟨span, items, rfl, met⟩
  have read : itemsOf items = xs.map value := by
    induction met with
    | nil => rfl
    | cons is _ ih =>
        rw [itemsOf, is, ih fun x here => each x (List.mem_cons_of_mem _ here)]
        rfl
  rw [ofNode?, read]

theorem reads_object {key : α → String} (each : ∀ x ∈ xs, Expressed (text x) fun e => ofNode? e = some (value x)) :
    Expressed ('\x7b' :: Text.join [',', ' '] (xs.map fun x => entry (key x) (text x)) ++ ['\x7d']) fun e =>
      ofNode? e = some (.object (xs.map fun x => (key x, value x))) := by
  refine (expressed_object each).weaken ?_
  rintro _ ⟨span, properties, rfl, met⟩
  have read : entriesOf properties = xs.map fun x => (key x, value x) := by
    induction met with
    | nil => rfl
    | cons is _ ih =>
        obtain ⟨_, _, e, rfl, is⟩ := is
        rw [entriesOf, is, ih fun x here => each x (List.mem_cons_of_mem _ here)]
        rfl
  rw [ofNode?, read]

theorem reads_collection {name : String} (is : name ∈ ["Map", "Set"]) {text : List Char} {v : Value}
    (expressed : Expressed text fun e => ofNode? e = some v) :
    Expressed (constructing name [text]) fun e => ofNode? e = collection? name v := by
  have word : ∀ name ∈ ["Map", "Set"], Script.Lexeme.isWord name = true := by decide
  have free : ∀ name ∈ ["Map", "Set"], name ∉ keywords := by decide
  have plain : ∀ name ∈ ["Map", "Set"], name ∉ Script.foreign ++ operators := by decide
  refine (expressed_construct (word name is) (free name is) (plain name is) expressed).weaken ?_
  rintro _ ⟨span, at_, left, a, rfl, read⟩
  rw [ofNode?, read]
  rfl

theorem reads_symbol (description : String) :
    Expressed (applied "Symbol" [(Text.Quoted.script description).toList]) fun e => ofNode? e = some (.symbol description) := by
  refine (expressed_call (by decide) (by decide) (by decide) (expressed_operand fun _ _ => operand_string description)).weaken ?_
  rintro _ ⟨span, at_, left, _, rfl, _, rfl⟩
  rfl

end

theorem symbol_toList (description : String) :
    ("Symbol(" ++ description ++ ")").toList = applied "Symbol" [description.toList] := by
  have head : "Symbol(".toList = "Symbol".toList ++ ['('] := by decide
  have regroup (name : List Char) : name ++ ['('] ++ description.toList ++ [')'] =
      name ++ '(' :: description.toList ++ [')'] := by simp
  rw [String.toList_append, String.toList_append, head]
  exact regroup _

theorem constructed_toList (items : String) :
    ("new Map([" ++ items ++ "])").toList = constructing "Map" ['[' :: items.toList ++ [']']] ∧
    ("new Set([" ++ items ++ "])").toList = constructing "Set" ['[' :: items.toList ++ [']']] := by
  have map : "new Map([".toList = "new".toList ++ ' ' :: ("Map".toList ++ ['(', '[']) := by decide
  have set : "new Set([".toList = "new".toList ++ ' ' :: ("Set".toList ++ ['(', '[']) := by decide
  have regroup (new name : List Char) : new ++ ' ' :: (name ++ ['(', '[']) ++ items.toList ++ [']', ')'] =
      new ++ ' ' :: (name ++ '(' :: ('[' :: items.toList ++ [']']) ++ [')']) := by simp
  constructor
  · rw [String.toList_append, String.toList_append, map]
    exact regroup _ _
  · rw [String.toList_append, String.toList_append, set]
    exact regroup _ _

theorem reads_keyword {text : String} {kind : Kind} {v : Value}
    (is : (text, kind) ∈ [("null", Kind.null), ("true", .boolean true), ("false", .boolean false)])
    (value : ∀ span, ofNode? (.mk kind span []) = some v) : Reads text v := by
  have shape : Script.Lexeme.isWord text = true ∧ text ∉ Script.foreign ++ operators := by
    have each : ∀ text ∈ ["null", "true", "false"],
        Script.Lexeme.isWord text = true ∧ text ∉ Script.foreign ++ operators := by decide
    exact each text (by simpa using List.mem_map_of_mem (f := Prod.fst) is)
  refine (expressed_operand fun _ _ => operand_word shape.1 shape.2 fun begins => runs_word_value begins is).weaken ?_
  rintro _ ⟨span, rfl⟩
  exact value span

theorem reads_string (s : String) : Reads (Text.Quoted.script s) (.string s) := by
  refine (expressed_operand fun _ _ => operand_string s).weaken ?_
  rintro _ ⟨span, rfl⟩
  rfl

theorem reads_listed {items : List Value} (each : ∀ v ∈ items, Reads (literal v) (norm v)) :
    Expressed ('[' :: (literalItems items).toList ++ [']']) fun e => ofNode? e = some (.array (normItems items)) := by
  rw [literalItems_toList, normItems_map]
  exact reads_array each

theorem reads_entryList {entries : List (String × Value)} (each : ∀ x ∈ entries, Reads (literal x.2) (norm x.2)) :
    Reads (literal (.object entries)) (.object (normEntries entries)) := by
  have text : (literal (.object entries)).toList =
      '\x7b' :: Text.join [',', ' '] ((kept entries).map entryText) ++ ['\x7d'] := by
    rw [literal, String.toList_append, String.toList_append, literalEntries_toList]
    rfl
  rw [Reads, text, normEntries_map]
  exact reads_object fun x here => each x (List.mem_of_mem_filter here)

theorem reads_map {entries : List (Value × Value)}
    (each : ∀ x ∈ entries, Reads (literal x.1) (norm x.1) ∧ Reads (literal x.2) (norm x.2)) :
    Reads (literal (.map entries)) (.map (normPairs entries)) := by
  have pairs : Expressed ('[' :: (literalPairs entries).toList ++ [']']) fun e =>
      ofNode? e = some (.array (entries.map fun x => .array ([x.1, x.2].map norm))) := by
    rw [literalPairs_toList]
    refine reads_array fun x here => reads_array fun v is => ?_
    obtain ⟨first, second⟩ := each x here
    rcases List.mem_pair.mp is with rfl | rfl
    · exact first
    · exact second
  have read : (entries.map fun x => Value.array ([x.1, x.2].map norm)).filterMap pair? = normPairs entries := by
    rw [normPairs_map, List.filterMap_map]
    exact congrFun List.filterMap_eq_map entries
  rw [Reads, literal, (constructed_toList _).1]
  refine (reads_collection (by decide) pairs).weaken fun e is => is.trans ?_
  rw [← read]
  rfl

mutual
theorem reads_literal : (v : Value) → (∀ x ∈ numbers v, Clear x) → Reads (literal v) (norm v)
  | .undefined, _ => @reads_name "undefined" (by decide) (by decide) (by decide)
  | .identifier _, _ => @reads_name "undefined" (by decide) (by decide) (by decide)
  | .null, _ => @reads_keyword "null" .null .null (by simp) fun _ => rfl
  | .bool true, _ => @reads_keyword "true" (.boolean true) (.bool true) (by simp) fun _ => rfl
  | .bool false, _ => @reads_keyword "false" (.boolean false) (.bool false) (by simp) fun _ => rfl
  | .number x, clear => by
      rw [literal, norm]
      exact reads_number x (clear x (List.mem_singleton_self x))
  | .string s, _ => reads_string s
  | .array items, clear => by
      have text : (literal (.array items)).toList = '[' :: (literalItems items).toList ++ [']'] := by
        rw [literal, String.toList_append, String.toList_append]
        rfl
      rw [Reads, text, norm]
      exact reads_listed (reads_items items clear)
  | .set items, clear => by
      rw [Reads, literal, (constructed_toList _).2, norm]
      exact reads_collection (by decide) (reads_listed (reads_items items clear))
  | .object entries, clear => by
      rw [norm]
      exact reads_entryList (reads_entries entries clear)
  | .map entries, clear => by
      rw [norm]
      exact reads_map (reads_pairs entries clear)
  | .symbol description, _ => by
      rw [Reads, literal, symbol_toList]
      exact reads_symbol description
theorem reads_items : (items : List Value) → (∀ x ∈ numbersOf items, Clear x) →
    ∀ v ∈ items, Reads (literal v) (norm v)
  | [], _ => nofun
  | item :: items, clear => by
      rw [numbersOf, List.forall_mem_append] at clear
      exact List.forall_mem_cons.mpr ⟨reads_literal item clear.1, reads_items items clear.2⟩
theorem reads_entries : (entries : List (String × Value)) →
    (∀ x ∈ numbersOfEntries entries, Clear x) →
    ∀ x ∈ entries, Reads (literal x.2) (norm x.2)
  | [], _ => nofun
  | (key, value) :: entries, clear => by
      rw [numbersOfEntries, List.forall_mem_append] at clear
      exact List.forall_mem_cons.mpr ⟨reads_literal value clear.1, reads_entries entries clear.2⟩
theorem reads_pairs : (entries : List (Value × Value)) →
    (∀ x ∈ numbersOfPairs entries, Clear x) →
    ∀ x ∈ entries, Reads (literal x.1) (norm x.1) ∧ Reads (literal x.2) (norm x.2)
  | [], _ => nofun
  | (key, value) :: entries, clear => by
      rw [numbersOfPairs, List.forall_mem_append, List.forall_mem_append] at clear
      exact List.forall_mem_cons.mpr
        ⟨⟨reads_literal key clear.1.1, reads_literal value clear.1.2⟩, reads_pairs entries clear.2⟩
end

theorem present_of_ofNode? {e : Node} {v : Value} (read : ofNode? e = some v) : e.isAbsent = false := by
  obtain ⟨kind, span, parts⟩ := e
  refine decide_eq_false fun (is : kind = .absent) => ?_
  subst is
  cases read

theorem reading?_literal (dialect : Script.Dialect) {text : String} {v : Value} (reads : Reads text v) :
    reading? dialect text = some v := by
  obtain ⟨tree, e, parsed, initial, read⟩ := Script.parse?_constant dialect reads fun _ => present_of_ofNode?
  rw [reading?, parsed, Option.bind_eq_bind, Option.bind_some, initial]
  exact read

theorem numberText_unsigned (x : Float) : numberText (unsigned x) = numberText x := by
  cases is : x.toModel.unpack with
  | zero s =>
      have zero : numberText 0.0 = "0" := by decide +kernel
      have text : numberText x = "0" := by
        simp only [numberText, is, Envelope.integer_zero is]
        rfl
      simp only [unsigned, is, zero, text]
  | _ => simp only [unsigned, is]

theorem isIdentifier_norm (v : Value) : (norm v).isIdentifier = false := by
  cases v <;> rfl

mutual
theorem literal_norm : (v : Value) → literal (norm v) = literal v
  | .undefined | .identifier _ | .null | .bool _ | .string _ | .symbol _ => rfl
  | .number x => numberText_unsigned x
  | .array items => by rw [norm, literal, literalItems_norm items, literal]
  | .set items => by rw [norm, literal, literalItems_norm items, literal]
  | .object entries => by rw [norm, literal, literalEntries_norm entries true, literal]
  | .map entries => by rw [norm, literal, literalPairs_norm entries, literal]
theorem literalItems_norm : (items : List Value) → literalItems (normItems items) = literalItems items
  | [] => rfl
  | [item] => literal_norm item
  | item :: next :: items => by
      have rest := literalItems_norm (next :: items)
      rw [normItems] at rest
      rw [normItems, normItems, literalItems, literal_norm item, rest, literalItems]
theorem literalEntries_norm : (entries : List (String × Value)) → (first : Bool) →
    literalEntries first (normEntries entries) = literalEntries first entries
  | [], _ => rfl
  | (key, value) :: entries, first => by
      rw [normEntries, literalEntries]
      split
      · exact literalEntries_norm entries first
      · rw [literalEntries, if_neg (by simp [isIdentifier_norm]), literal_norm value, literalEntries_norm entries false]
theorem literalPairs_norm : (entries : List (Value × Value)) → literalPairs (normPairs entries) = literalPairs entries
  | [] => rfl
  | [(key, value)] => by rw [normPairs, normPairs, literalPairs, literal_norm key, literal_norm value, literalPairs]
  | (key, value) :: next :: entries => by
      have rest := literalPairs_norm (next :: entries)
      rw [normPairs] at rest
      rw [normPairs, normPairs, literalPairs, literal_norm key, literal_norm value, rest, literalPairs]
end

/-- The literal of a value is an expression in every dialect, and what is read off it is the value with zero
unsigned and with `undefined` for each bare name, but no entry of an object for one, as long as the reader of scripts
gets its fractions right. So two values have one literal exactly if they differ in no more than that. -/
theorem literal_reads_back (v : Value) (legible : ∀ x ∈ numbers v, x.isFinite → Decimal.integer? x = none → Legible x) :
    (∀ dialect, reading? dialect (literal v) = some (norm v)) ∧
    ∀ w, (∀ x ∈ numbers w, x.isFinite → Decimal.integer? x = none → Legible x) →
      (literal v = literal w ↔ norm v = norm w) := by
  have back (v : Value) (clear : ∀ x ∈ numbers v, Clear x) (dialect : Script.Dialect) :
      reading? dialect (literal v) = some (norm v) := reading?_literal dialect (reads_literal v clear)
  refine ⟨back v legible, fun w clear => ⟨fun same => ?_, fun same => ?_⟩⟩
  · have first := back v legible .plain
    rw [same, back w clear] at first
    exact (Option.some.inj first).symm
  · rw [← literal_norm v, same, literal_norm]

-- What a literal loses: the sign of zero, and names, one of them with its key.
def lossy : Value :=
  .object [("f", .identifier "f"), ("on click", .map [(.number (-0.0), .set [.identifier "x", .number (-2.5)])]),
    ("f", .array [.number (-(1.0 / 0.0)), .symbol "\n"])]

def lasting : Value :=
  .object [("on click", .map [(.number 0.0, .set [.undefined, .number (-2.5)])]),
    ("f", .array [.number (-(1.0 / 0.0)), .symbol "\n"])]

theorem literal_reads_back_lossy :
    reading? ⟨true, true, true, false⟩ (literal lossy) = some lasting ∧ literal lossy = literal lasting ∧
      literal lossy =
        "\x7b\"on click\": new Map([[0, new Set([undefined, -2.5])]]), \"f\": [-Infinity, Symbol(\"\\n\")]\x7d" := by
  have same : norm lossy = lasting := rfl
  obtain ⟨read, alike⟩ := literal_reads_back lossy (by decide +kernel)
  exact ⟨same ▸ read _, (alike lasting (by decide +kernel)).mpr rfl, by decide +kernel⟩

end Prerender.Value
