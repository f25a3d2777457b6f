import Prerender.Script.Tree

set_option autoImplicit false

/-!
Edits of a text, each of one stretch. They are made from the end of the text to its beginning, so that
none moves another.
-/
namespace Prerender

structure Edit where
  span : Script.Span
  text : String
deriving DecidableEq, Repr

namespace Edit

def apply (e : Edit) (cs : List Char) : List Char :=
  cs.take e.span.start ++ e.text.toList ++ cs.drop e.span.stop

-- Whether an edit is made before another: the later one in the text, of two at one place the longer
-- one.
def precedes (a b : Edit) : Bool :=
  b.span.start < a.span.start || (b.span.start == a.span.start && b.span.stop < a.span.stop)

def place (e : Edit) : List Edit → List Edit
  | [] => [e]
  | d :: ds => if precedes e d then e :: d :: ds else d :: place e ds

def inOrder (edits : List Edit) : List Edit := edits.foldl (fun es e => place e es) []

def applyAll (edits : List Edit) (cs : List Char) : List Char :=
  (inOrder edits).foldl (fun cs e => e.apply cs) cs

end Edit

end Prerender
