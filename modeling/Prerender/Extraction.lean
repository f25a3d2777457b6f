import Prerender.Declaration
import Prerender.Edit
import Prerender.Script.Parse
import Prerender.Value.Reading

set_option autoImplicit false

/-!
Taking the constructions of components out of a module. Every call that constructs a component of the
library gets a name of its own in place of the component and one more property; the import of the
library goes. All else stays as it is written.
-/
namespace Prerender

structure Binding where
  component : String
  tag : String
deriving DecidableEq, Repr

abbrev Bindings := List (String × Binding)

structure Construction where
  binding : Binding
  name : Script.Span
  object : Script.Span
  properties : List Script.Node

namespace Construction

open Script (Node)

def ofNode? (factories : List String) (bindings : Bindings) (n : Node) : Option Construction :=
  match n.call? with
  | some (factory, .mk (.reference name) span _ :: .mk (.object _) object properties :: _) =>
      if factory ∈ factories then
        (bindings.lookup name).map fun binding => ⟨binding, span, object, properties⟩
      else none
  | _ => none

def all (factories : List String) (bindings : Bindings) (tree : Node) : List Construction :=
  tree.descendants.filterMap (ofNode? factories bindings)

def identifier (c : Construction) (k : Nat) : String := c.binding.component ++ "$" ++ toString k

def call (c : Construction) (k : Nat) : ComponentCall :=
  ⟨c.identifier k, c.binding.component, c.binding.tag, Props.ofProperties c.properties⟩

-- The mark behind the last property, or inside the braces if there is none.
def markEdit (c : Construction) : Edit :=
  match c.properties.getLast? with
  | some last => ⟨⟨last.span.stop, last.span.stop⟩, ", suppressHydrationWarning: true"⟩
  | none => ⟨⟨c.object.start + 1, c.object.start + 1⟩, " suppressHydrationWarning: true "⟩

def edits (c : Construction) (k : Nat) : List Edit := [⟨c.name, c.identifier k⟩, c.markEdit]

end Construction

structure Extraction where
  code : String
  calls : List ComponentCall

namespace Extraction

open Script (Node)

def importEdit? (library : String) (n : Node) : Option Edit :=
  match n.kind with
  | .importDeclaration source => if source = library then some ⟨n.span, ""⟩ else none
  | _ => none

def edits (library : String) (constructions : List Construction) (tree : Node) : List Edit :=
  tree.descendants.filterMap (importEdit? library) ++
    (constructions.mapIdx fun k c => c.edits k).flatten

def ofTree (source library : String) (factories : List String) (bindings : Bindings) (tree : Node) :
    Extraction :=
  let constructions := Construction.all factories bindings tree
  { code := String.ofList (Edit.applyAll (edits library constructions tree) source.toList)
    calls := constructions.mapIdx fun k c => c.call k }

def run (source path library : String) (factories : List String) (bindings : Bindings) :
    Option Extraction :=
  (Script.parse? (Script.Dialect.ofPage path) source).map (ofTree source library factories bindings)

end Extraction
end Prerender
