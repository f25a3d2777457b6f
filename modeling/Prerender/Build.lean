import Prerender.Loader

set_option autoImplicit false

/-!
Building a directory: each module that the loader changes is written to the output directory, and every
other file is copied there, at the same relative path. A build stops at the first error; what it has
written until then stays.
-/
namespace Prerender

structure Build where
  loader : Loader
  source : String
  output : String

namespace Build

abbrev Action := ExceptT Loader.Error (StateM FileTree)

def change (path : String) (f : FileTree → Except FileTree.Fault FileTree) : Action Unit := do
  match f (← get) with
  | .ok tree => set tree
  | .error fault => throw (.file path fault)

def target (build : Build) (path : String) : String :=
  Path.join build.output ((Path.relativeTo? build.source path).getD path)

def isOutput (build : Build) (path : String) : Bool := Path.isWithin build.output path

def file (build : Build) (path : String) : Action Bool := do
  let target := build.target path
  match Path.parent? target with
  | some parent => change parent fun tree => tree.ensureDirectory parent
  | none => pure ()
  match build.loader.loadFile (← get) path with
  | .error error => throw error
  | .ok (some code) =>
      change target fun tree => tree.write target code.toUTF8
      return true
  | .ok none =>
      change target fun tree => tree.copy path target
      return false

structure Summary where
  transformed : Nat
  copied : Nat
deriving DecidableEq, Repr

def Summary.add (summary : Summary) : Bool → Summary
  | true => { summary with transformed := summary.transformed + 1 }
  | false => { summary with copied := summary.copied + 1 }

def files (build : Build) : List String → Summary → Action Summary
  | [], summary => return summary
  | path :: paths, summary => do
      if build.isOutput path then build.files paths summary
      else build.files paths (summary.add (← build.file path))

def run (build : Build) : Action Summary := do
  build.files ((← get).filesUnder build.source) ⟨0, 0⟩

def removeOutput (build : Build) (path : String) : Action Unit := do
  let target := build.target path
  change target fun tree =>
    match tree.remove target with
    | .error .notFound => .ok tree
    | outcome => outcome

end Build
end Prerender
