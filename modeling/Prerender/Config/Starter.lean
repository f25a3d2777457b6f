import Prerender.Config.Basic

set_option autoImplicit false

namespace Prerender.Config

def starterLines : List String :=
  [
    "# wcssr configuration",
    "",
    "[library]",
    "# Import specifier of the React wrapper package",
    "from = \"component-library-react\"",
    "",
    "# Component metadata (components.json) listing the wrapped components.",
    "# Alternatively set \x60exports = [\"MyComponent\"]\x60 or \x60module = \"path/to/index.js\"\x60.",
    "components = \"node_modules/component-library/components.json\"",
    "",
    "[hydrate]",
    "# Hydrate module exposing renderToString",
    "module = \"node_modules/component-library/hydrate/index.mjs\"",
    "node = \"node\"",
    "",
    "[ssr]",
    "# \"react\" or \"nextjs\"",
    "strategy = \"react\"",
    "",
    "# \"declarative-shadow-dom\", \"scoped\", true, false, or a per-tag table:",
    "# serialize_shadow_root = \x7b scoped = [\"my-button\"], default = \"declarative-shadow-dom\" \x7d",
    "serialize_shadow_root = \"declarative-shadow-dom\"",
    "",
    "# \"strict\" fails the build on errors, \"tolerant\" keeps the original module",
    "mode = \"strict\"",
    "",
    "extensions = [\"js\", \"jsx\", \"mjs\", \"ts\", \"tsx\"]",
    "",
    "[tags]",
    "# \"my-component\" = \"v2-my-component\""
  ]

def starter : String := String.join (starterLines.map (· ++ "\n"))

def create (tree : FileTree) (path : String) (force : Bool) : Except Error FileTree :=
  if tree.hasPath path && !force then .ok tree
  else
    match tree.write path starter.toUTF8 with
    | .ok tree => .ok tree
    | .error _ => .error (.unwritable path)

end Prerender.Config
