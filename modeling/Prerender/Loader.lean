import Prerender.FileTree
import Prerender.Transform

set_option autoImplicit false

/-!
The hook of a bundler: it gets a module's text and id and answers new code, or nothing where the
module is to stay as it is. The id may carry a query.
-/
namespace Prerender

inductive Policy where
  | strict
  | tolerant
deriving DecidableEq, Repr

def Policy.name : Policy → String
  | .strict => "strict"
  | .tolerant => "tolerant"

def Policy.ofName? : String → Option Policy
  | "strict" => some .strict
  | "tolerant" => some .tolerant
  | _ => none

structure Loader where
  options : Options
  renderer : Renderer
  policy : Policy
  extensions : List String

namespace Loader

inductive Error where
  | transform (id : String) (cause : Transform.Error)
  | file (path : String) (cause : FileTree.Fault)
  | missingRenderer (path : String)
deriving DecidableEq, Repr

-- The wording, if it does not hang on that of a parser.
def Error.message? : Error → Option String
  | .transform id cause => cause.message?.map fun m => "Failed to transform " ++ id ++ ": " ++ m
  | .file path cause => some ("Failed to read " ++ path ++ ": " ++ cause.message)
  | .missingRenderer path => some ("Hydrate module not found: " ++ path)

def defaultExtensions : List String := ["js", "jsx", "mjs", "ts", "tsx"]

def create (options : Options) (renderer : Renderer) (policy : Policy) : Except Options.Error Loader := do
  options.check
  return ⟨options, renderer, policy, defaultExtensions⟩

def withExtensions (loader : Loader) (extensions : List String) : Loader :=
  { loader with
    extensions := extensions.map fun e => String.ofList (e.toList.dropWhile (· == '.')) }

def handles (loader : Loader) (id : String) : Bool :=
  match Path.extension? (Path.withoutQuery id) with
  | some extension => loader.extensions.contains extension
  | none => false

def load (loader : Loader) (source id : String) : Renderer.Outcome Error (Option String) :=
  if loader.handles id then
    let outcome := Transform.run loader.options loader.renderer source id
    ⟨outcome.requests,
      match outcome.result, loader.policy with
      | .ok output, _ => .ok (output.map Transform.Output.code)
      | .error cause, .strict => .error (.transform id cause)
      | .error _, .tolerant => .ok none⟩
  else ⟨[], .ok none⟩

def loadFile (loader : Loader) (tree : FileTree) (path : String) : Except Error (Option String) :=
  if loader.handles path then
    match tree.readText path with
    | .ok source => (loader.load source path).result
    | .error fault => .error (.file path fault)
  else .ok none

end Loader
end Prerender
