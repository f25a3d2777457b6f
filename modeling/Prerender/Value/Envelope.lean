import Prerender.Bytes.Base64
import Prerender.Json.Printer
import Prerender.Json.Reader
import Prerender.Text.Blank
import Prerender.Text.Search
import Prerender.Value.Basic

set_option autoImplicit false

/-!
The `serialized:` envelope: the attribute text of a value that an attribute cannot hold as it is. The
value becomes a tree of tagged JSON nodes, the tree its compact text, and the text Base64.
-/
namespace Prerender.Value.Envelope

def marker : String := "serialized:"

-- Numbers that JSON has no text for travel as strings.
def numberNode (x : Float) : Json :=
  match x.toModel.unpack with
  | .notANumber => .string "NaN"
  | .infinity .positive => .string "Infinity"
  | .infinity .negative => .string "-Infinity"
  | .zero .negative => .string "-0"
  | _ =>
      match Decimal.integer? x with
      | some n => .number (.int n)
      | none => .number (.float x)

def tagged (kind : String) (payload : Json) : Json :=
  .object [("type", .string kind), ("value", payload)]

mutual
def tree : Value → Json
  | .undefined => .object [("type", .string "undefined")]
  | .null => .object [("type", .string "null")]
  | .bool b => tagged "boolean" (.bool b)
  | .number x => tagged "number" (numberNode x)
  | .string s => tagged "string" (.string s)
  | .identifier name => tagged "string" (.string name)
  | .array items => tagged "array" (.array (treeItems items))
  | .object entries => tagged "object" (.array (treeEntries entries))
  | .map entries => tagged "map" (.array (treePairs entries))
  | .set items => tagged "set" (.array (treeItems items))
  | .symbol description => tagged "symbol" (.string description)
def treeItems : List Value → List Json
  | [] => []
  | item :: items => tree item :: treeItems items
def treeEntries : List (String × Value) → List Json
  | [] => []
  | (key, value) :: entries => .array [.string key, tree value] :: treeEntries entries
def treePairs : List (Value × Value) → List Json
  | [] => []
  | (key, value) :: entries => .array [tree key, tree value] :: treePairs entries
end

def encode (v : Value) : String :=
  marker ++ String.ofList (Bytes.Base64.encode (tree v).render.toUTF8.data.toList)

inductive Error where
  | missingMarker
  | base64 (cause : Bytes.Base64.Error)
  | json
  | unknownType (name : String)
  | malformed (detail : String)
deriving DecidableEq, Repr

def Error.message : Error → String
  | .missingMarker => "Value is missing the \x60serialized:\x60 prefix"
  | .base64 cause => "Invalid base64 payload: " ++ cause.message
  | .json => "Invalid JSON payload"
  | .unknownType name => "Unknown serialized type: " ++ name
  | .malformed detail => "Malformed serialized value: " ++ detail

def malformed {α : Type} (kind : String) (node : Json) : Except Error α :=
  .error (.malformed s!"invalid {kind} node: {node.render}")

def special? : String → Option Float
  | "NaN" => some (0.0 / 0.0)
  | "Infinity" => some (1.0 / 0.0)
  | "-Infinity" => some (-(1.0 / 0.0))
  | "-0" => some (-0.0)
  | _ => none

def scalar (kind : String) (node payload : Json) : Except Error Value :=
  match kind, payload with
  | "undefined", _ => .ok .undefined
  | "null", _ => .ok .null
  | "symbol", payload => .ok (.symbol (payload.string?.getD ""))
  | "boolean", .bool b => .ok (.bool b)
  | "number", .number n => .ok (.number n.toFloat)
  | "number", .string s =>
      match special? s with
      | some x => .ok (.number x)
      | none => malformed kind node
  | "string", .string s => .ok (.string s)
  | _, _ =>
      if kind ∈ ["boolean", "number", "string", "array", "object", "map", "set"] then
        malformed kind node
      else .error (.unknownType kind)

def isPair : Json → Bool
  | .array [_, _] => true
  | _ => false

mutual
def untree : Json → Except Error Value
  | .object members =>
      match (Keyed.get? members "type").bind Json.string? with
      | some kind => untreePayload kind (.object members) members
      | none => .error (.malformed ("missing type tag in " ++ (Json.object members).render))
  | node => .error (.malformed ("missing type tag in " ++ node.render))
def untreePayload (kind : String) (node : Json) : List (String × Json) → Except Error Value
  | [] => scalar kind node .null
  | (key, payload) :: members =>
      if key = "value" then untreeContent kind node payload
      else untreePayload kind node members
def untreeContent (kind : String) (node : Json) : Json → Except Error Value
  | .array items =>
      match kind with
      | "array" => (untreeItems items).map .array
      | "set" => (untreeItems items).map .set
      | "object" =>
          if items.all isPair then (untreeEntries node items).map .object
          else malformed kind node
      | "map" => if items.all isPair then (untreePairs items).map .map else malformed kind node
      | _ => scalar kind node (.array items)
  | payload => scalar kind node payload
def untreeItems : List Json → Except Error (List Value)
  | [] => .ok []
  | item :: items => do
      let v ← untree item
      let vs ← untreeItems items
      return v :: vs
def untreeEntries (node : Json) : List Json → Except Error (List (String × Value))
  | .array [key, value] :: items =>
      match key with
      | .string key => do
          let v ← untree value
          let vs ← untreeEntries node items
          return (key, v) :: vs
      | _ => malformed "object" node
  | _ => .ok []
def untreePairs : List Json → Except Error (List (Value × Value))
  | .array [key, value] :: items => do
      let k ← untree key
      let v ← untree value
      let vs ← untreePairs items
      return (k, v) :: vs
  | _ => .ok []
end

def decode (text : String) : Except Error Value :=
  match Text.after? marker.toList text.toList with
  | none => .error .missingMarker
  | some payload =>
      match Bytes.Base64.decode (String.ofList (Text.trim payload)).toUTF8.data.toList with
      | .error cause => .error (.base64 cause)
      | .ok bytes =>
          match (String.fromUTF8? ⟨bytes.toArray⟩).bind (Json.parse? Json.nesting) with
          | some node => untree node
          | none => .error .json

end Prerender.Value.Envelope
