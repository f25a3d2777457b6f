import Prerender.Markup.OpenTag
import Prerender.ShadowRoot

set_option autoImplicit false

/-!
Taking a renderer's output apart. It has one node per line: the host's opening tag on the first, the
shadow template's on the second, and the closing tags are looked for from the end. Output without a
template is the host's content as a whole.
-/
namespace Prerender

inductive Markup where
  | shadow (host : Markup.OpenTag) (html : String)
  | scoped (host : Markup.OpenTag) (html : String)
deriving DecidableEq, Repr

namespace Markup

def host : Markup → OpenTag
  | .shadow host _ => host
  | .scoped host _ => host

def html : Markup → String
  | .shadow _ html => html
  | .scoped _ html => html

inductive Error where
  | missingOpenTag (tag line : String)
  | missingTemplateClose
  | missingCloseTag (tag : String)
deriving DecidableEq, Repr

def Error.message : Error → String
  | .missingOpenTag tag line => s!"first line is not an opening <{tag}> tag: {line}"
  | .missingTemplateClose => "no closing </template> line"
  | .missingCloseTag tag => s!"no closing </{tag}> line"

def templateOpen : List Char := "<template shadowrootmode=\"open\">".toList
def templateClose : List Char := "</template>".toList

def closeTag (tag : String) : List Char := '<' :: '/' :: tag.toList ++ ['>']

def lines (html : String) : List (List Char) :=
  let isFeed (c : Char) := c == '\n'
  let inner := Text.dropEndWhile isFeed (html.toList.dropWhile isFeed)
  (Text.splitOn isFeed inner).map (Text.dropEndWhile (· == '\r'))

def between (start stop line : List Char) : List Char :=
  let inner := ((Text.cutFirst? start line).map (·.2)).getD line
  ((Text.cutFirst? stop inner).map (·.1)).getD inner

def joinLines (lines : List (List Char)) : String := String.ofList (Text.join ['\n'] lines)

def inlineContent (close line : List Char) : List Char :=
  let content := ((Text.cutFirst? ['>'] line).map (·.2)).getD []
  ((Text.cutLast? close content).map (·.1)).getD content

def split (html tag : String) (serialization : Serialization) : Except Error Markup :=
  let ls := lines html
  let first := ls.headD []
  match (OpenTag.read? first).filter fun found => found.1.name == tag with
  | none => .error (.missingOpenTag tag (String.ofList first))
  | some (host, _) =>
      match Text.lastIndex? (Text.contains (closeTag tag)) ls with
      | none => .error (.missingCloseTag tag)
      | some closeLine =>
          let second := (ls[1]?).getD []
          if serialization = .declarative && Text.contains templateOpen second then
            match Text.lastIndex? (Text.contains templateClose) ls with
            | none => .error .missingTemplateClose
            | some i =>
                if 1 ≤ i ∧ i ≤ closeLine then
                  .ok <| .shadow host <|
                    if i = 1 then String.ofList (between templateOpen templateClose second)
                    else joinLines ((ls.take i).drop 2)
                else .error .missingTemplateClose
          else
            .ok <| .scoped host <|
              if closeLine = 0 then String.ofList (inlineContent (closeTag tag) first)
              else joinLines ((ls.take closeLine).drop 1)

end Markup
end Prerender
