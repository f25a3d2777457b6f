import Prerender.Registry.Basic
import Prerender.Script.Parse

set_option autoImplicit false

namespace Prerender.Registry

open Script (Node)

def variableName? : Node → Option String
  | .mk .declarator _ (.mk (.binding name) _ _ :: _) => some name
  | .mk .declarator _ (.mk .annotated _ (.mk (.binding name) _ _ :: _) :: _) => some name
  | _ => none

def declaredNames : Node → List String
  | .mk (.variableList _) _ declarators => declarators.filterMap variableName?
  | n => (Script.declaredName? n).toList

def exportNames : Node → List String
  | .mk .exportDeclaration _ [.mk .decorated _ parts] => parts.flatMap declaredNames
  | .mk .exportDeclaration _ [d] => declaredNames d
  | .mk .exportList _ parts => parts.filterMap Script.exportedName?
  | _ => []

def ofTree (tree : Node) : Registry :=
  ofNames ((tree.parts.flatMap exportNames).filter isComponentName)

def ofModule (source path : String) : Except Error Registry :=
  match Script.parse? (Script.Dialect.ofPath path) source with
  | some tree => .ok (ofTree tree)
  | none => .error (.unparsable path)

end Prerender.Registry
