import Prerender.FileTree
import Prerender.Registry.Exports
import Prerender.Registry.Metadata

set_option autoImplicit false

namespace Prerender.Registry

def readSource (tree : FileTree) (path : String) : Except Error String :=
  if tree.hasPath path then
    match tree.readText path with
    | .ok text => .ok text
    | .error fault => .error (.unreadable path fault.message)
  else .error (.fileNotFound path)

def loadModule (tree : FileTree) (path : String) : Except Error Registry := do
  ofModule (← readSource tree path) path

def loadMetadata (tree : FileTree) (path : String) : Except Error Registry := do
  match ofMetadataText? (← readSource tree path) with
  | some registry => .ok registry
  | none => .error (.unparsable path)

end Prerender.Registry
