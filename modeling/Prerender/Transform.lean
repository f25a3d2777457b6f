import Prerender.Extraction
import Prerender.Import.Scan

set_option autoImplicit false

/-!
The transform of one module. Its calls are taken out, rendered in order, and what became of them is
declared at the head of the module, behind its directives. A module comes out whole or not at all.
-/
namespace Prerender.Transform

inductive Error where
  | parse (path : String)
  | rendering (cause : Rendering.Error)
deriving DecidableEq, Repr

structure Output where
  code : String
  declarations : List Declaration

def Error.message? : Error → Option String
  | .parse _ => none
  | .rendering cause => some cause.message

open Renderer (Outcome)

def creator : String := "__wcssr_h"

def loader : String := "__wcssr_dynamic"

def creatorImport : String :=
  "import \x7b createElement as " ++ creator ++ " \x7d from \"react\";\n"

def loaderImport : String := "import " ++ loader ++ " from \"next/dynamic\";\n"

def isDirective (line : List Char) : Bool :=
  let text := Text.trim line
  (text.head? == some '"' || text.head? == some '\'') &&
    2 ≤ (Text.dropEndWhile (· == ';') text).length && Text.contains "use ".toList text

def splitDirectives (cs : List Char) : List Char × List Char :=
  let belongs (line : List Char) := (Text.trim line).isEmpty || isDirective line
  let lines := Text.linesKept cs
  ((lines.takeWhile belongs).flatten, (lines.dropWhile belongs).flatten)

def block (declarations : List Declaration) : String :=
  creatorImport ++ (if declarations.any Declaration.usesDynamic then loaderImport else "") ++
    String.join (declarations.map fun d => d.code creator loader ++ "\n")

def assemble (code : String) (declarations : List Declaration) : String :=
  let (directives, body) := splitDirectives code.toList
  String.ofList directives ++ block declarations ++ String.ofList body

def bindings (registry : Registry) (imports : List Import.Statement) : Bindings :=
  let names := (imports.flatMap Import.Statement.names).filter fun n => registry.contains n.exported
  names.foldl (fun bs n => Keyed.put bs n.bound ⟨n.exported, registry.tagOf n.exported⟩) []

def ask (options : Options) (renderer : Renderer) (call : ComponentCall) :
    Outcome Rendering.Error Rendered :=
  Rendering.ask options renderer call.tag call.props

-- Renders calls in order, and fails with the first that fails. By the time that this is known the
-- renderer may have begun with calls behind it, `ahead` at most; none if it answers at once.
def renderAll (options : Options) (renderer : Renderer) (ahead : Nat) :
    List ComponentCall → Outcome Error (List Rendered)
  | [] => ⟨[], .ok []⟩
  | c :: cs =>
      let asked := ask options renderer c
      match asked.result with
      | .error cause =>
          let begun := (cs.take ahead).map (ask options renderer)
          ⟨asked.requests ++ begun.flatMap Outcome.requests, .error (.rendering cause)⟩
      | .ok r =>
          let rest := renderAll options renderer ahead cs
          ⟨asked.requests ++ rest.requests, rest.result.map (r :: ·)⟩

def finish (options : Options) (renderer : Renderer) (ahead : Nat) (extraction : Extraction) :
    Outcome Error (Option Output) :=
  if extraction.calls.isEmpty then ⟨[], .ok none⟩
  else
    let rendered := renderAll options renderer ahead extraction.calls
    ⟨rendered.requests, rendered.result.map fun rs =>
      let declarations := (extraction.calls.zip rs).map fun (call, r) =>
        Declaration.build call r options.strategy options.library
      some ⟨assemble extraction.code declarations, declarations⟩⟩

def run (options : Options) (renderer : Renderer) (source path : String) (ahead : Nat := 0) :
    Outcome Error (Option Output) :=
  let scan := Import.scan source options.library
  if scan.isRelevant then
    match Extraction.run source path options.library scan.factories
        (bindings options.registry scan.library) with
    | none => ⟨[], .error (.parse path)⟩
    | some extraction => finish options renderer ahead extraction
  else ⟨[], .ok none⟩

def code (options : Options) (renderer : Renderer) (source path : String) (ahead : Nat := 0) :
    Outcome Error String :=
  let outcome := run options renderer source path ahead
  ⟨outcome.requests, outcome.result.map fun output => (output.map Output.code).getD source⟩

end Prerender.Transform
