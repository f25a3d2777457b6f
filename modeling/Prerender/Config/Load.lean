import Prerender.Config.Basic
import Prerender.Registry.Load
import Prerender.Toml.Document

set_option autoImplicit false

/-!
Settings from a file, and the loader they set up. Relative paths in the settings start at the directory
of the file.
-/
namespace Prerender

structure Config where
  file : Config.File
  root : String

namespace Config

def rootOf (path : String) : String :=
  match Path.parent? path with
  | none => "."
  | some directory => if directory.isEmpty then "." else directory

def load (tree : FileTree) (path : String) : Except Error Config :=
  match tree.readText path with
  | .error _ => .error (.unreadable path)
  | .ok text =>
      match (Toml.parse? text).bind File.ofJson? with
      | none => .error (.unparsable path)
      | some file =>
          match file.check with
          | .error cause => .error (.options cause)
          | .ok () => .ok ⟨file, rootOf path⟩

def resolve (config : Config) (path : String) : String := Path.join config.root path

def registry (config : Config) (tree : FileTree) : Except Registry.Error Registry :=
  let library := config.file.library
  match library.components, library.entry with
  | some path, _ => Registry.loadMetadata tree (config.resolve path)
  | none, some path => Registry.loadModule tree (config.resolve path)
  | none, none => .ok (Registry.ofNames (library.exports.getD []))

def options (config : Config) (tree : FileTree) : Except Registry.Error Options := do
  let registry ← config.registry tree
  return ⟨config.file.library.name, registry, config.file.output.shadowRoot,
    config.file.output.strategy, config.file.renames⟩

def loader (config : Config) (tree : FileTree) (renderer : Renderer) : Except Error Loader :=
  match config.file.hydrate.module with
  | none => .error (.options (.missing "hydrate.module"))
  | some module =>
      if tree.hasPath (config.resolve module) then
        match config.options tree with
        | .error cause => .error (.registry cause)
        | .ok options =>
            match Loader.create options renderer config.file.output.policy with
            | .error cause => .error (.options cause)
            | .ok loader => .ok (loader.withExtensions config.file.output.extensions)
      else .error (.loader (.missingRenderer (config.resolve module)))

end Config
end Prerender
