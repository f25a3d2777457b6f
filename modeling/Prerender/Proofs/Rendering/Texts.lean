import Prerender.Proofs.Envelope
import Prerender.Proofs.Rendering.Source

set_option autoImplicit false

namespace Prerender

open Value.Envelope (marker encode decode decode_shallow levels numbers named Rereads)

namespace Value

def Envelope.Marked (text : String) : Prop := marker.toList <+: text.toList

instance (text : String) : Decidable (Envelope.Marked text) :=
  inferInstanceAs (Decidable (marker.toList <+: text.toList))

inductive IsText : Value → String → Prop
  | string (s : String) : IsText (.string s) s
  | identifier (s : String) : IsText (.identifier s) s

-- The string that is written like a value, if that is written at all.
def forged (v : Value) : Value := if v.isAbsent then v else .string (v.attributeText?.getD (encode v))

end Value

namespace Props

structure Writes (props : Props) (name : String) (value : Value) (text : String) : Prop where
  given : (name, value) ∈ props.values
  free : name ∉ Rendering.unwritten
  wrote : Rendering.attributeText? encode value = some text

def forged (props : Props) : Props := { props with values := props.values.map fun p => (p.1, p.2.forged) }

end Props

namespace Rendering

open Value.Envelope (Marked)
open Value (IsText)

theorem marked_encode (v : Value) : Marked (encode v) := by
  rw [Marked, encode, String.toList_append]
  exact List.prefix_append _ _

theorem not_marked_of_head {text : String} {c : Char} {cs : List Char} (is : text.toList = c :: cs) (other : c ≠ 's') :
    ¬ Marked text := by
  intro marked
  rw [Marked, is] at marked
  exact other (List.cons_prefix_cons.mp marked).1.symm

theorem numberText_unmarked (x : Float) : ¬ Marked (Value.numberText x) := by
  have plain {text : String} (written : Json.Written text.toList) : ¬ Marked text := by
    obtain ⟨c, cs, is, head⟩ := written.head
    refine not_marked_of_head is ?_
    rintro rfl
    revert head
    decide
  unfold Value.numberText
  split
  · decide
  · decide
  · decide
  · split
    next n _ => exact plain (Json.written_write (.int n))
    next => exact plain (Json.written_layout Decimal.plain x)

theorem isText_of_marked {v : Value} {text : String} (own : v.attributeText? = some text) (marked : Marked text) :
    IsText v text := by
  cases v with
  | bool b =>
      obtain rfl := Option.some.inj own
      cases b <;> exact absurd marked (by decide)
  | string s =>
      obtain rfl := Option.some.inj own
      exact .string s
  | identifier name =>
      obtain rfl := Option.some.inj own
      exact .identifier name
  | number x =>
      rw [Value.attributeText?] at own
      split at own
      · obtain rfl := Option.some.inj own
        exact absurd marked (numberText_unmarked x)
      · cases own
  | _ => cases own

theorem attributeText?_cases {v : Value} {text : String} (wrote : attributeText? encode v = some text) :
    (v.attributeText? = none ∧ text = encode v) ∨ v.attributeText? = some text := by
  rw [attributeText?_eq] at wrote
  split at wrote
  · cases wrote
  · cases own : v.attributeText? with
    | none =>
        rw [own] at wrote
        exact .inl ⟨rfl, (Option.some.inj wrote).symm⟩
    | some s =>
        rw [own] at wrote
        exact .inr wrote

theorem attributeText?_forged (v : Value) : attributeText? encode v.forged = attributeText? encode v := by
  rw [attributeText?_eq encode v, Value.forged]
  by_cases absent : v.isAbsent = true
  · rw [if_pos absent, if_pos absent, attributeText?_eq, if_pos absent]
  · rw [if_neg absent, if_neg absent]
    rfl

theorem attributes_forged (props : Props) : attributes encode props.forged = attributes encode props := by
  have list : attributeList encode props.forged = attributeList encode props := by
    simp only [attributeList, Props.forged, List.filterMap_map]
    refine congrArg (· ++ _) (List.filterMap_congr fun p _ => ?_)
    simp only [Function.comp, attributeText?_forged]
  rw [attributes, attributes, list]

theorem writes_mem {props : Props} {name text : String} {value : Value} (writes : props.Writes name value text) :
    (Element.domName name, text) ∈ attributeList encode props := by
  refine List.mem_append_left _ (List.mem_filterMap.mpr ⟨(name, value), writes.given, ?_⟩)
  simp only [if_neg writes.free, writes.wrote, Option.map_some]

/-- A value without a text of its own is written as an envelope that gives it back (if it is not too deep and the
reader of JSON gets its fractions right), any other as its text. So the marker tells them apart if and only if no
text that is given as a prop begins with it. What is written never tells encoded values from strings: there are
always props of nothing but strings for which the same is written. -/
theorem texts_marked_iff (props : Props) :
    (∀ name value text, props.Writes name value text →
      (Element.domName name, text) ∈ attributeList encode props ∧
      (value.attributeText? = none → Marked text ∧
        (levels value ≤ 127 → (∀ x ∈ numbers value, x.isFinite → Decimal.integer? x = none → Rereads x) →
          decode text = .ok (named value))) ∧
      (∀ own, value.attributeText? = some own → text = own ∧ (Marked text → IsText value text))) ∧
    ((∀ name value text, props.Writes name value text → (Marked text ↔ value.attributeText? = none)) ↔
      ∀ name value text, props.Writes name value text → IsText value text → ¬ Marked text) ∧
    (attributes encode props.forged = attributes encode props ∧
      ∀ p ∈ props.forged.values, p.2.isAbsent = true ∨ ∃ s, p.2 = .string s) := by
  refine ⟨fun name value text writes => ⟨writes_mem writes, fun none => ?_, fun own is => ?_⟩,
    ⟨fun apart name value text writes isText marked => ?_, fun plain name value text writes => ⟨fun marked => ?_, ?_⟩⟩,
    attributes_forged props, fun p member => ?_⟩
  · rcases attributeText?_cases writes.wrote with ⟨-, rfl⟩ | is
    · exact ⟨marked_encode value, decode_shallow value⟩
    · cases none.symm.trans is
  · rcases attributeText?_cases writes.wrote with ⟨none, -⟩ | same
    · cases none.symm.trans is
    · obtain rfl := Option.some.inj (is.symm.trans same)
      exact ⟨rfl, isText_of_marked is⟩
  · have none := (apart name value text writes).mp marked
    cases isText <;> cases none
  · rcases attributeText?_cases writes.wrote with ⟨none, -⟩ | own
    · exact none
    · exact absurd marked (plain name value text writes (isText_of_marked own marked))
  · intro none
    rcases attributeText?_cases writes.wrote with ⟨-, rfl⟩ | own
    · exact marked_encode value
    · cases none.symm.trans own
  · obtain ⟨q, -, rfl⟩ := List.mem_map.mp member
    by_cases absent : q.2.isAbsent = true
    · exact .inl (by rw [Value.forged, if_pos absent]; exact absent)
    · exact .inr ⟨_, if_neg absent⟩

def smuggled : Props := ⟨[("title", .string "serialized:eyJ0eXBlIjoibnVsbCJ9")], none, none⟩

theorem texts_marked_smuggled :
    ∃ text, smuggled.Writes "title" (.string text) text ∧ Marked text ∧ (Value.string text).attributeText? ≠ none ∧
      decode text = .ok .null ∧
      attributes encode smuggled = attributes encode ⟨[("title", .null)], none, none⟩ := by
  have envelope : encode .null = "serialized:eyJ0eXBlIjoibnVsbCJ9" := by decide +kernel
  refine ⟨"serialized:eyJ0eXBlIjoibnVsbCJ9", ⟨List.mem_cons_self, by decide, rfl⟩, by decide, nofun, ?_, ?_⟩
  · rw [← envelope]
    exact decode_shallow .null (by decide) nofun
  · have same : (⟨[("title", .null)], none, none⟩ : Props).forged = smuggled :=
      congrArg (fun s => (⟨[("title", .string s)], none, none⟩ : Props)) envelope
    rw [← same, attributes_forged]

end Rendering
end Prerender
