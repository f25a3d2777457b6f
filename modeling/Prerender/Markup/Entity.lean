import Prerender.Text.Search

set_option autoImplicit false

/-!
Character references in HTML. `escape` writes the five special characters as references, `decode`
reads the seven references that renderers write.
-/
namespace Prerender.Markup.Entity

-- The special characters with their references; `&` comes first, since every reference has one.
def references : List (Char × String) :=
  [('&', "&amp;"), ('<', "&lt;"), ('>', "&gt;"), ('"', "&quot;"), ('\'', "&#x27;")]

def escapeChars (cs : List Char) : List Char :=
  references.foldl (fun cs (c, reference) => Text.replaceAll [c] reference.toList cs) cs

def escape (s : String) : String := String.ofList (escapeChars s.toList)

-- The known references; that of `&` comes last, so that what it yields is not read again.
def known : List (String × Char) :=
  [("&quot;", '"'), ("&#34;", '"'), ("&#x27;", '\''), ("&#39;", '\''), ("&lt;", '<'), ("&gt;", '>'),
    ("&amp;", '&')]

def decodeChars (cs : List Char) : List Char :=
  known.foldl (fun cs (reference, c) => Text.replaceAll reference.toList [c] cs) cs

def decode (s : String) : String := String.ofList (decodeChars s.toList)

example : escape "<a b=\"c\">'&" = "&lt;a b=&quot;c&quot;&gt;&#x27;&amp;" := by decide +kernel
example : decode "&amp;lt; &#39;" = "&lt; '" := by decide +kernel

end Prerender.Markup.Entity
