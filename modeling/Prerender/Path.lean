import Prerender.Text.Search

set_option autoImplicit false

/-!
Paths with `/` between their components. Empty components and `.` count for nothing, except that a
path may begin with them.
-/
namespace Prerender.Path

inductive Component where
  | root
  | current
  | parent
  | name (text : String)
deriving DecidableEq, Repr

def component? (piece : List Char) : Option Component :=
  if piece.isEmpty || piece == ['.'] then none
  else if piece == ['.', '.'] then some .parent
  else some (.name (String.ofList piece))

def pieces (path : String) : List (List Char) := Text.splitOn (· == '/') path.toList

def body (path : String) : Option Component × List (List Char) :=
  match pieces path with
  | [[]] => (none, [])
  | [] :: rest => (some .root, rest)
  | ['.'] :: rest => (some .current, rest)
  | all => (none, all)

def components (path : String) : List Component :=
  let (front, rest) := body path
  front.toList ++ rest.filterMap component?

def fileName? (path : String) : Option String :=
  match (components path).getLast? with
  | some (.name text) => some text
  | _ => none

def extension? (path : String) : Option String := do
  let name ← fileName? path
  let (stem, extension) ← Text.cutLast? ['.'] name.toList
  if stem.isEmpty then none else some (String.ofList extension)

-- A path before the query or fragment that a bundler puts behind it.
def withoutQuery (path : String) : String :=
  String.ofList (path.toList.takeWhile fun c => c != '?' && c != '#')

def isAbsolute (path : String) : Bool := path.toList.head? == some '/'

def start (here : List String) (path : String) : List String := if isAbsolute path then [] else here

def join (base path : String) : String :=
  if isAbsolute path then path
  else if base.isEmpty || base.toList.getLast? == some '/' then base ++ path
  else base ++ "/" ++ path

def isWithin (base path : String) : Bool := (components base).isPrefixOf (components path)

def trimEnd (ps : List (List Char)) : List (List Char) :=
  (ps.reverse.dropWhile fun p => (component? p).isNone).reverse

def dropCounted : Nat → List (List Char) → List (List Char)
  | _, [] => []
  | n, p :: ps =>
      if (component? p).isNone then dropCounted n ps
      else
        match n with
        | 0 => p :: ps
        | n + 1 => dropCounted n ps

def ofPieces (ps : List (List Char)) : String := String.ofList (Text.join ['/'] ps)

def relativeTo? (base path : String) : Option String :=
  if isWithin base path then
    let (front, rest) := body path
    if base.isEmpty then some path
    else
      let passed := (components base).length - front.toList.length
      some (ofPieces (trimEnd (dropCounted passed rest)))
  else none

def parent? (path : String) : Option String :=
  let (front, rest) := body path
  let lead (ps : List (List Char)) : String :=
    match front with
    | some .root => "/" ++ ofPieces ps
    | some .current => ofPieces (['.'] :: ps)
    | _ => ofPieces ps
  match (trimEnd rest).reverse with
  | _ :: before => some (lead (trimEnd before.reverse))
  | [] => if front = some .current then some "" else none

example : extension? "a/.ts" = none := by decide +kernel
example : extension? "a.b/c.d.ts/" = some "ts" := by decide +kernel
example : components "./a//b/../c" = [.current, .name "a", .name "b", .parent, .name "c"] := by
  decide +kernel
example : join "/a" "" = "/a/" ∧ join "/a/" "b" = "/a/b" ∧ join "/a" "/b" = "/b" := by decide +kernel
example : parent? "/a//b/./" = some "/a" ∧ parent? "/a" = some "/" ∧ parent? "/" = none := by
  decide +kernel
example : parent? "a" = some "" ∧ parent? "./a" = some "." ∧ parent? "" = none := by decide +kernel
example : relativeTo? "/a/." "/a//b/../c/" = some "b/../c" := by decide +kernel
example : relativeTo? "/a/b" "/a/bc" = none := by decide +kernel

end Prerender.Path
