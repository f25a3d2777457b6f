import Prerender.Path

set_option autoImplicit false

namespace Prerender.Script

structure Dialect where
  typed : Bool
  jsx : Bool
  -- Neither comments in the style of HTML nor a name `await` outside functions.
  isModule : Bool
  ambient : Bool
deriving DecidableEq, Repr

namespace Dialect

def plain : Dialect := ⟨false, false, true, false⟩

def ofPath (path : String) : Dialect :=
  let declares (extension : String) :=
    ((Path.fileName? path).getD "").toList.reverse.take (extension.length + 3) ==
      (".d." ++ extension).toList.reverse
  match Path.extension? path with
  | some "tsx" => ⟨true, true, true, false⟩
  | some "jsx" => ⟨false, true, true, false⟩
  | some "ts" => ⟨true, false, true, declares "ts"⟩
  | some "mts" => ⟨true, false, true, declares "mts"⟩
  | some "cts" => ⟨true, false, false, declares "cts"⟩
  | some "cjs" => ⟨false, false, false, false⟩
  | _ => plain

-- The dialect of a compiled page: JavaScript of any extension is a module that may hold JSX.
def ofPage (path : String) : Dialect :=
  let dialect := ofPath (Path.withoutQuery path)
  if dialect.typed then dialect else { plain with jsx := true }

example : ofPage "page.ts?v=1" = ⟨true, false, true, false⟩ := by decide +kernel
example : ofPath "index.d.ts" = ⟨true, false, true, true⟩ := by decide +kernel
example : ofPath "index.ts?x" = plain := by decide +kernel

end Dialect
end Prerender.Script
