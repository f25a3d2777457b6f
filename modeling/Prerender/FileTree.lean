import Prerender.Keyed
import Prerender.Path

set_option autoImplicit false

/-!
A tree of directories and files, and a working directory in it. A path is walked piece by piece from the root
or from the working directory, so that every piece but the last has to name a directory that exists.
-/
namespace Prerender

namespace FileTree

-- Where something is: the names on the way from the root.
abbrev Place := List String

inductive Entry where
  | directory
  | file (content : ByteArray)

inductive Fault where
  | notFound
  | exists
  | notDirectory
  | isDirectory
  | notFile
  | notText
deriving DecidableEq, Repr

def Fault.message : Fault → String
  | .notFound => "No such file or directory (os error 2)"
  | .exists => "File exists (os error 17)"
  | .notDirectory => "Not a directory (os error 20)"
  | .isDirectory => "Is a directory (os error 21)"
  | .notFile => "the source path is neither a regular file nor a symlink to a regular file"
  | .notText => "stream did not contain valid UTF-8"

end FileTree

structure FileTree where
  entries : List (FileTree.Place × FileTree.Entry)
  directory : FileTree.Place

namespace FileTree

def empty : FileTree := ⟨[], []⟩

def get? (tree : FileTree) (place : Place) : Option Entry :=
  if place = [] then some .directory else Keyed.get? tree.entries place

def put (tree : FileTree) (place : Place) (entry : Entry) : FileTree :=
  ⟨Keyed.put tree.entries place entry, tree.directory⟩

def erase (tree : FileTree) (place : Place) : FileTree :=
  ⟨tree.entries.filter fun e => e.1 ≠ place, tree.directory⟩

def step (tree : FileTree) (place : Place) (piece : List Char) : Except Fault Place :=
  match tree.get? place with
  | none => .error .notFound
  | some (.file _) => .error .notDirectory
  | some .directory =>
      match Path.component? piece with
      | none => .ok place
      | some (.name text) => .ok (place ++ [text])
      | some _ => .ok place.dropLast

def locate (tree : FileTree) (path : String) : Except Fault Place :=
  if path.isEmpty then .error .notFound
  else (Path.pieces path).foldlM tree.step (Path.start tree.directory path)

def find? (tree : FileTree) (path : String) : Option Entry :=
  match tree.locate path with
  | .ok place => tree.get? place
  | .error _ => none

def hasPath (tree : FileTree) (path : String) : Bool := (tree.find? path).isSome

def read (tree : FileTree) (path : String) : Except Fault ByteArray := do
  match tree.get? (← tree.locate path) with
  | some (.file content) => .ok content
  | some .directory => .error .isDirectory
  | none => .error .notFound

def readText (tree : FileTree) (path : String) : Except Fault String := do
  match String.fromUTF8? (← tree.read path) with
  | some text => .ok text
  | none => .error .notText

-- The place of something new: slashes at the end of its path count for nothing.
def locateNew (tree : FileTree) (path : String) : Except Fault Place :=
  if path.isEmpty then .error .notFound
  else
    let pieces := ((Path.pieces path).reverse.dropWhile List.isEmpty).reverse
    pieces.foldlM tree.step (Path.start tree.directory path)

def write (tree : FileTree) (path : String) (content : ByteArray) : Except Fault FileTree := do
  let place ← tree.locateNew path
  if path.toList.getLast? = some '/' then .error .isDirectory
  else
    match tree.get? place with
    | some .directory => .error .isDirectory
    | _ => .ok (tree.put place (.file content))

def enter (tree : FileTree) (place : Place) (piece : List Char) : Except Fault (FileTree × Place) :=
  match Path.component? piece with
  | none => .ok (tree, place)
  | some (.name text) =>
      let next := place ++ [text]
      match tree.get? next with
      | none => .ok (tree.put next .directory, next)
      | some .directory => .ok (tree, next)
      | some (.file _) => .error .exists
  | some _ => .ok (tree, place.dropLast)

def ensureDirectory (tree : FileTree) (path : String) : Except Fault FileTree :=
  match tree.locateNew path with
  | .error .notDirectory => .error .notDirectory
  | _ => do
      let (made, _) ← (Path.pieces path).foldlM (fun (tree, place) => tree.enter place)
        (tree, Path.start tree.directory path)
      return made

def provide (tree : FileTree) (path : String) (content : ByteArray) : Except Fault FileTree := do
  let made ←
    match Path.parent? path with
    | some above => tree.ensureDirectory above
    | none => .ok tree
  made.write path content

-- Copies a file. The target is emptied before the source is read, so that a file copied to itself
-- is lost.
def copy (tree : FileTree) (source target : String) : Except Fault FileTree := do
  match tree.get? (← tree.locate source) with
  | none => .error .notFound
  | some .directory => .error .notFile
  | some (.file _) =>
      let emptied ← tree.write target ByteArray.empty
      emptied.write target (← emptied.read source)

def remove (tree : FileTree) (path : String) : Except Fault FileTree := do
  let place ← tree.locate path
  match tree.get? place with
  | some (.file _) => .ok (tree.erase place)
  | some .directory => .error .isDirectory
  | none => .error .notFound

def below? : Place → Place → Option Place
  | [], rest => some rest
  | _ :: _, [] => none
  | n :: ns, m :: ms => if n = m then below? ns ms else none

def filesUnder (tree : FileTree) (path : String) : List String :=
  match tree.locate path with
  | .error _ => []
  | .ok place =>
      match tree.get? place with
      | none => []
      | some (.file _) => [path]
      | some .directory => tree.entries.filterMap fun (p, entry) =>
          match entry, below? place p with
          | .file _, some names => some (names.foldl Path.join path)
          | _, _ => none

end FileTree
end Prerender
