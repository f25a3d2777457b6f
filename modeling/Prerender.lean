import Prerender.Main
import Prerender.Build
import Prerender.Config.Load
import Prerender.Config.Starter
import Prerender.RequestTime
import Prerender.Transform
import Prerender.Proofs.Wholeness
import Prerender.Proofs.Constructions
import Prerender.Proofs.Edits
import Prerender.Proofs.Edits.Together
import Prerender.Proofs.Edits.Octets
import Prerender.Proofs.Rewriting
import Prerender.Proofs.Orphans
import Prerender.Proofs.Decimal.Whole
import Prerender.Proofs.Json.Numbers
import Prerender.Proofs.Json.Strings
import Prerender.Proofs.Json.RoundTrip
import Prerender.Proofs.Json.Depth
import Prerender.Proofs.Bytes.Base64
import Prerender.Proofs.Envelope
import Prerender.Proofs.Strictness
import Prerender.Proofs.Text.Search
import Prerender.Proofs.Text.Occurrence
import Prerender.Proofs.Markup.Entity
import Prerender.Proofs.Markup.OpenTag
import Prerender.Proofs.Markup.Split
import Prerender.Proofs.Markup.Recovery
import Prerender.Proofs.Markup.Loss
import Prerender.Proofs.ShadowRoot
import Prerender.Proofs.Rendering.Source
import Prerender.Proofs.Rendering.Greeting
import Prerender.Proofs.Rendering.Agreement
import Prerender.Proofs.RequestTime
import Prerender.Proofs.Declarations
import Prerender.Proofs.Rewriting.ByTree
import Prerender.Proofs.Rewriting.Exact
import Prerender.Proofs.Head
import Prerender.Proofs.Element.Html
import Prerender.Proofs.Element.Outline
import Prerender.Proofs.Element.Lowering
import Prerender.Proofs.Forwarding
import Prerender.Proofs.Marking
import Prerender.Proofs.Serving
import Prerender.Proofs.Environments
import Prerender.Proofs.Rendering.Texts
import Prerender.Proofs.Script.Scope
import Prerender.Proofs.Shadowing
import Prerender.Proofs.Literal
import Prerender.Proofs.Path
import Prerender.Proofs.FileTree
import Prerender.Proofs.Build.Step
import Prerender.Proofs.Build.Walk
import Prerender.Proofs.Build.Stage
import Prerender.Proofs.Build.Copy
import Prerender.Proofs.Build.Tolerance
import Prerender.Proofs.Build.Nesting
import Prerender.Proofs.Freshness
import Prerender.Proofs.Style.Css
import Prerender.Proofs.Style.Cutting
import Prerender.Proofs.Markup.Decoding
import Prerender.Proofs.Repetition
import Prerender.Proofs.Exports
import Prerender.Proofs.Text.Quoted
import Prerender.Proofs.Import.Clause
import Prerender.Proofs.Import.Agreement
import Prerender.Proofs.Tag
