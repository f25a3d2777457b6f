import Prerender.Build
import Prerender.Config.Load
import Prerender.Config.Starter

set_option autoImplicit false

/-!
The command line: it starts a project, transforms one module, or builds files. Components are rendered by
the sample renderer, since the project's own one needs an engine that runs scripts.
-/
namespace Prerender.CommandLine

def settings : String := "wcssr.toml"

def usage : String :=
  "usage: prerender init [--yes] | transform [--jsx] FILE | build SOURCE OUTPUT FILE..."

def fail {α : Type} (message : Option String) : IO α :=
  throw (IO.userError (message.getD "Failed to parse a module"))

def orFail {ε α : Type} (message? : ε → Option String) : Except ε α → IO α
  | .ok a => return a
  | .error e => fail (message? e)

def gather (tree : FileTree) (paths : List String) : IO FileTree :=
  paths.foldlM (fun (tree : FileTree) (path : String) => do
    try
      let content ← IO.FS.readBinFile path
      orFail (fun fault => some (FileTree.Fault.message fault)) (tree.provide path content)
    catch _ => return tree) tree

def projectLoader : IO (Loader × FileTree) := do
  let tree ← gather .empty [settings]
  let config ← orFail Config.Error.message? (Config.load tree settings)
  let file := config.file
  let sources := [file.library.components, file.library.entry, file.hydrate.module].filterMap id
  let tree ← gather tree (sources.map config.resolve)
  let loader ← orFail Config.Error.message? (config.loader tree Renderer.greeter)
  return (loader, tree)

def writeFile (tree : FileTree) (path : String) : IO Unit := do
  if let some directory := Path.parent? path then
    unless directory.isEmpty do IO.FS.createDirAll directory
  if let .ok content := tree.read path then IO.FS.writeBinFile path content

def start (force : Bool) : IO Unit := do
  let tree ← gather .empty [settings]
  let made ← orFail Config.Error.message? (Config.create tree settings force)
  writeFile made settings

def transform (jsx : Bool) (path : String) : IO Unit := do
  let (loader, _) ← projectLoader
  let source ← IO.FS.readFile path
  let outcome := Transform.run loader.options loader.renderer source path
  match ← orFail Transform.Error.message? outcome.result with
  | none => IO.println source
  | some output =>
      if jsx then
        for declaration in output.declarations do IO.println (declaration.jsx ++ "\n")
      else IO.println output.code

def build (source output : String) (paths : List String) : IO Unit := do
  let (loader, tree) ← projectLoader
  let tree ← gather tree paths
  let (result, tree) := ((Build.mk loader source output).files paths ⟨0, 0⟩).run tree
  (tree.filesUnder output).forM (writeFile tree)
  let summary ← orFail Loader.Error.message? result
  IO.println s!"Transformed {summary.transformed} modules, copied {summary.copied} files"

def run : List String → IO UInt32
  | ["init"] => do start false; return 0
  | ["init", "--yes"] => do start true; return 0
  | ["transform", path] => do transform false path; return 0
  | ["transform", "--jsx", path] => do transform true path; return 0
  | "build" :: source :: output :: paths => do build source output paths; return 0
  | _ => do IO.eprintln usage; return 1

end Prerender.CommandLine

def main (args : List String) : IO UInt32 := Prerender.CommandLine.run args
