import Prerender.Transform

set_option autoImplicit false

namespace Prerender

theorem Text.lines_kept_flatten (cs : List Char) : (Text.linesKept cs).flatten = cs := by
  induction cs with
  | nil => rfl
  | cons c cs ih =>
      rw [Text.linesKept]
      split
      · rw [List.flatten_cons, ih, List.singleton_append]
      · cases rest : Text.linesKept cs with
        | nil =>
            rw [rest, List.flatten_nil] at ih
            simp [← ih]
        | cons line lines =>
            rw [rest, List.flatten_cons] at ih
            simp only [List.flatten_cons, List.cons_append, ih]

namespace Transform

theorem split_directives_append (cs : List Char) :
    (splitDirectives cs).1 ++ (splitDirectives cs).2 = cs := by
  unfold splitDirectives
  rw [← List.flatten_append, List.takeWhile_append_dropWhile, Text.lines_kept_flatten]

def Lazy (d : Declaration) : Prop :=
  ∃ f ∈ d.factories, ∃ library component loading, f.body = .dynamic library component loading

theorem uses_dynamic_iff (d : Declaration) : d.usesDynamic = true ↔ Lazy d := by
  rw [Declaration.usesDynamic, List.any_eq_true]
  constructor
  · rintro ⟨f, member, loads⟩
    refine ⟨f, member, ?_⟩
    cases body : f.body with
    | dynamic library component loading => exact ⟨library, component, loading, rfl⟩
    | render element => simp [body] at loads
    | environment client server => simp [body] at loads
  · rintro ⟨f, member, library, component, loading, body⟩
    exact ⟨f, member, by rw [body]⟩

structure Whole (options : Options) (extraction : Extraction) (rendered : List Rendered)
    (output : Output) : Prop where
  count : output.declarations.length = extraction.calls.length
  paired : ∀ (k : Nat) (call : ComponentCall) (r : Rendered), extraction.calls[k]? = some call →
    rendered[k]? = some r → output.declarations[k]? = some (Declaration.build call r options.strategy options.library)
  inserted : ∃ before lazyImport after, extraction.code = before ++ after ∧
    ((∃ d ∈ output.declarations, Lazy d) → lazyImport = loaderImport) ∧
    ((∀ d ∈ output.declarations, ¬ Lazy d) → lazyImport = "") ∧
    output.code = before ++ (creatorImport ++ lazyImport ++
      String.join (output.declarations.map fun d => d.code creator loader ++ "\n")) ++ after

theorem assemble_inserted (code : String) (declarations : List Declaration) :
    ∃ before lazyImport after, code = before ++ after ∧
      ((∃ d ∈ declarations, Lazy d) → lazyImport = loaderImport) ∧
      ((∀ d ∈ declarations, ¬ Lazy d) → lazyImport = "") ∧
      assemble code declarations = before ++ (creatorImport ++ lazyImport ++
        String.join (declarations.map fun d => d.code creator loader ++ "\n")) ++ after := by
  refine ⟨String.ofList (splitDirectives code.toList).1,
    if declarations.any Declaration.usesDynamic then loaderImport else "",
    String.ofList (splitDirectives code.toList).2, ?_, ?_, ?_, rfl⟩
  · rw [← String.ofList_append, split_directives_append, String.ofList_toList]
  · rintro ⟨d, member, loads⟩
    exact if_pos (List.any_eq_true.mpr ⟨d, member, (uses_dynamic_iff d).mpr loads⟩)
  · intro none
    refine if_neg ?_
    rw [List.any_eq_true]
    rintro ⟨d, member, loads⟩
    exact none d member ((uses_dynamic_iff d).mp loads)

theorem zipped_whole (options : Options) (extraction : Extraction) (rendered : List Rendered)
    (sameLength : rendered.length = extraction.calls.length) :
    let declarations := (extraction.calls.zip rendered).map fun (call, r) =>
      Declaration.build call r options.strategy options.library
    Whole options extraction rendered ⟨assemble extraction.code declarations, declarations⟩ := by
  intro declarations
  refine ⟨?_, ?_, assemble_inserted extraction.code declarations⟩
  · simp [declarations, sameLength]
  · intro k call r called answered
    have pair : (extraction.calls.zip rendered)[k]? = some (call, r) :=
      List.getElem?_zip_eq_some.mpr ⟨called, answered⟩
    simp only [declarations, List.getElem?_map, pair, Option.map_some]

section
variable (options : Options) (renderer : Renderer) (ahead : Nat)

def question (call : ComponentCall) : Renderer.Request :=
  ⟨Rendering.source renderer.encode (Tag.rename options.renames call.tag) call.props, options.shadowRoot⟩

def questions (calls : List ComponentCall) : List Renderer.Request := calls.map (question options renderer)

def outcomes : List ComponentCall → List Renderer.Request → List (Except Rendering.Error Rendered) :=
  List.zipWith fun call request => Rendering.receive options call.tag (renderer.render request)

def FailsAt (calls : List ComponentCall) (requests : List Renderer.Request) (k : Nat)
    (cause : Rendering.Error) : Prop :=
  (outcomes options renderer calls requests)[k]? = some (.error cause) ∧
    ∀ j < k, ∃ r, (outcomes options renderer calls requests)[j]? = some (.ok r)

theorem questions_cons (call : ComponentCall) (calls : List ComponentCall) :
    questions options renderer (call :: calls) =
      question options renderer call :: questions options renderer calls := rfl

theorem outcomes_cons (call : ComponentCall) (calls : List ComponentCall) (requests : List Renderer.Request) :
    outcomes options renderer (call :: calls) (question options renderer call :: requests) =
      (ask options renderer call).result :: outcomes options renderer calls requests := rfl

theorem requests_of_ask (calls : List ComponentCall) :
    (calls.map (ask options renderer)).flatMap Renderer.Outcome.requests = questions options renderer calls := by
  induction calls with
  | nil => rfl
  | cons call calls ih => exact congrArg (question options renderer call :: ·) ih

theorem fails_first {call : ComponentCall} {calls : List ComponentCall} {requests : List Renderer.Request}
    {cause : Rendering.Error} (failed : (ask options renderer call).result = .error cause) :
    FailsAt options renderer (call :: calls) (question options renderer call :: requests) 0 cause :=
  ⟨by rw [outcomes_cons, failed, List.getElem?_cons_zero], fun j low => absurd low (Nat.not_lt_zero j)⟩

theorem fails_later {call : ComponentCall} {calls : List ComponentCall} {requests : List Renderer.Request}
    {k : Nat} {cause : Rendering.Error} {r : Rendered} (rendered : (ask options renderer call).result = .ok r)
    (fails : FailsAt options renderer calls requests k cause) :
    FailsAt options renderer (call :: calls) (question options renderer call :: requests) (k + 1) cause := by
  obtain ⟨failure, before⟩ := fails
  refine ⟨failure, fun j low => ?_⟩
  cases j with
  | zero => exact ⟨r, by rw [outcomes_cons, rendered, List.getElem?_cons_zero]⟩
  | succ j => exact before j (Nat.lt_of_succ_lt_succ low)

theorem render_all_settles (calls : List ComponentCall) :
    let asked := questions options renderer calls
    (∃ rendered : List Rendered, outcomes options renderer calls asked = rendered.map .ok ∧
      renderAll options renderer ahead calls = ⟨asked, .ok rendered⟩) ∨
    (∃ k cause, FailsAt options renderer calls (asked.take (k + 1 + ahead)) k cause ∧
      renderAll options renderer ahead calls = ⟨asked.take (k + 1 + ahead), .error (.rendering cause)⟩) := by
  induction calls with
  | nil => exact .inl ⟨[], rfl, rfl⟩
  | cons call calls ih =>
      have taken (n : Nat) : (questions options renderer (call :: calls)).take (n + 1 + ahead) =
          question options renderer call :: (questions options renderer calls).take (n + ahead) := by
        rw [questions_cons, Nat.add_right_comm, List.take_succ_cons]
      cases first : (ask options renderer call).result with
      | error cause =>
          refine .inr ⟨0, cause, ?_, ?_⟩
          · rw [taken]
            exact fails_first options renderer first
          · rw [taken, renderAll, first]
            simp only [requests_of_ask, Nat.zero_add]
            rw [questions, questions, ← List.map_take]
            rfl
      | ok r =>
          have step : renderAll options renderer ahead (call :: calls) =
              ⟨question options renderer call :: (renderAll options renderer ahead calls).requests,
                (renderAll options renderer ahead calls).result.map (r :: ·)⟩ := by
            rw [renderAll, first]
            rfl
          rcases ih with ⟨rendered, all, result⟩ | ⟨k, cause, fails, result⟩
          · refine .inl ⟨r :: rendered, ?_, by rw [step, result]; rfl⟩
            rw [questions_cons, outcomes_cons, first, all, List.map_cons]
          · refine .inr ⟨k + 1, cause, ?_, ?_⟩
            · rw [taken]
              exact fails_later options renderer first fails
            · rw [step, result, taken]
              rfl

theorem finish_settles (extraction : Extraction) (some_call : extraction.calls ≠ []) :
    let asked := questions options renderer extraction.calls
    (∃ (rendered : List Rendered) (output : Output),
      outcomes options renderer extraction.calls asked = rendered.map .ok ∧ Whole options extraction rendered output ∧
      finish options renderer ahead extraction = ⟨asked, .ok (some output)⟩) ∨
    (∃ k cause, FailsAt options renderer extraction.calls (asked.take (k + 1 + ahead)) k cause ∧
      finish options renderer ahead extraction = ⟨asked.take (k + 1 + ahead), .error (.rendering cause)⟩) := by
  intro asked
  have occupied : extraction.calls.isEmpty = false := by simpa using some_call
  rcases render_all_settles options renderer ahead extraction.calls with
    ⟨rendered, all, result⟩ | ⟨k, cause, failure, result⟩
  · have sameLength : rendered.length = extraction.calls.length := by
      simpa [outcomes, questions] using (congrArg List.length all).symm
    refine .inl ⟨rendered, _, all, zipped_whole options extraction rendered sameLength, ?_⟩
    simp [finish, occupied, result, Except.map, asked]
  · refine .inr ⟨k, cause, failure, ?_⟩
    simp [finish, occupied, result, Except.map, asked]

theorem code_of_run (source path : String) (requests : List Renderer.Request)
    (result : Except Error (Option Output))
    (ran : run options renderer source path ahead = ⟨requests, result⟩) :
    code options renderer source path ahead =
      ⟨requests, result.map fun output => (output.map Output.code).getD source⟩ := by
  rw [code, ran]

theorem run_passed (source path : String)
    (passed : (Import.scan source options.library).isRelevant = false) :
    run options renderer source path ahead = ⟨[], .ok none⟩ := by
  simp [run, passed]

theorem run_unread (source path : String)
    (relevant : (Import.scan source options.library).isRelevant = true)
    (unread : Script.parse? (Script.Dialect.ofPage path) source = none) :
    run options renderer source path ahead = ⟨[], .error (.parse path)⟩ := by
  simp [run, relevant, Extraction.run, unread]

theorem run_parsed (source path : String) (tree : Script.Node)
    (relevant : (Import.scan source options.library).isRelevant = true)
    (parsed : Script.parse? (Script.Dialect.ofPage path) source = some tree) :
    let scan := Import.scan source options.library
    run options renderer source path ahead = finish options renderer ahead
      (Extraction.ofTree source options.library scan.factories
        (bindings options.registry scan.library) tree) := by
  simp [run, relevant, Extraction.run, parsed]

theorem finish_no_call (extraction : Extraction) (no_call : extraction.calls = []) :
    finish options renderer ahead extraction = ⟨[], .ok none⟩ := by
  simp [finish, no_call]

/-- A module that the scan passes over or that constructs no component is left as it is, without a
question to the renderer. A module that does not parse is an error, again without a question. For any other
the renderer is asked for each call in order, and the module comes out with one declaration for each call, if every
answer can be used, and otherwise as the first failure; by then the renderer was asked up to the call that
failed, and for the calls that it had begun ahead. -/
theorem run_all_or_nothing (source path : String) :
    let scan := Import.scan source options.library
    let outcome := run options renderer source path ahead
    let text := code options renderer source path ahead
    (scan.isRelevant = false → outcome = ⟨[], .ok none⟩ ∧ text = ⟨[], .ok source⟩) ∧
    (scan.isRelevant = true → Script.parse? (Script.Dialect.ofPage path) source = none →
      outcome = ⟨[], .error (.parse path)⟩ ∧ text = ⟨[], .error (.parse path)⟩) ∧
    (∀ tree, scan.isRelevant = true → Script.parse? (Script.Dialect.ofPage path) source = some tree →
      let extraction := Extraction.ofTree source options.library scan.factories
        (bindings options.registry scan.library) tree
      let asked := questions options renderer extraction.calls
      (extraction.calls = [] → outcome = ⟨[], .ok none⟩ ∧ text = ⟨[], .ok source⟩) ∧
      (extraction.calls ≠ [] →
        (∃ (rendered : List Rendered) (output : Output),
          outcomes options renderer extraction.calls outcome.requests = rendered.map .ok ∧
          Whole options extraction rendered output ∧
          outcome = ⟨asked, .ok (some output)⟩ ∧ text = ⟨asked, .ok output.code⟩) ∨
        (∃ k cause, FailsAt options renderer extraction.calls outcome.requests k cause ∧
          outcome = ⟨asked.take (k + 1 + ahead), .error (.rendering cause)⟩ ∧
          text = ⟨asked.take (k + 1 + ahead), .error (.rendering cause)⟩))) := by
  intro scan outcome text
  refine ⟨fun passed => ?_, fun relevant unread => ?_, fun tree relevant parsed => ?_⟩
  · have ran := run_passed options renderer ahead source path passed
    exact ⟨ran, code_of_run options renderer ahead source path _ _ ran⟩
  · have ran := run_unread options renderer ahead source path relevant unread
    exact ⟨ran, code_of_run options renderer ahead source path _ _ ran⟩
  · have finished := run_parsed options renderer ahead source path tree relevant parsed
    intro extraction asked
    refine ⟨fun no_call => ?_, fun some_call => ?_⟩
    · have ran := finished.trans (finish_no_call options renderer ahead extraction no_call)
      exact ⟨ran, code_of_run options renderer ahead source path _ _ ran⟩
    · rcases finish_settles options renderer ahead extraction some_call with
        ⟨rendered, output, all, whole, result⟩ | ⟨k, cause, failure, result⟩
      · have ran : outcome = ⟨asked, .ok (some output)⟩ := finished.trans result
        exact .inl ⟨rendered, output, by rw [ran]; exact all, whole, ran,
          code_of_run options renderer ahead source path _ _ ran⟩
      · have ran : outcome = ⟨asked.take (k + 1 + ahead), .error (.rendering cause)⟩ := finished.trans result
        exact .inr ⟨k, cause, by rw [ran]; exact failure, ran,
          code_of_run options renderer ahead source path _ _ ran⟩

theorem render_all_result (calls : List ComponentCall) :
    (renderAll options renderer ahead calls).result = (renderAll options renderer 0 calls).result := by
  induction calls with
  | nil => rfl
  | cons call calls ih =>
      cases first : (ask options renderer call).result with
      | error cause => simp only [renderAll, first]
      | ok r => simp only [renderAll, first, ih]

/-- What comes of a module does not hang on how far a renderer runs ahead. -/
theorem run_result (source path : String) :
    (run options renderer source path ahead).result = (run options renderer source path).result := by
  have finished (extraction : Extraction) :
      (finish options renderer ahead extraction).result = (finish options renderer 0 extraction).result := by
    unfold finish
    split
    · rfl
    · simp only [render_all_result options renderer ahead]
  unfold run
  simp only
  split
  · cases Extraction.run source path options.library _ _ with
    | none => rfl
    | some extraction => exact finished extraction
  · rfl

end

theorem run_of_toOption {options : Options} {renderer : Renderer} {source path : String} {output : Output}
    (made : (run options renderer source path).result.toOption.join = some output) :
    (run options renderer source path).result = .ok (some output) := by
  cases same : (run options renderer source path).result with
  | error cause =>
      rw [same] at made
      cases made
  | ok written =>
      rw [same] at made
      exact congrArg Except.ok made

def samplePage : String :=
  "import \x7bjsx\x7d from \"react/jsx-runtime\"\nimport \x7bA\x7d from \"lib\"\njsx(A,\x7ba:jsx(A,\x7b\x7d)\x7d)"

def sampleOptions : Options :=
  ⟨"lib", Registry.ofNames ["A"], ShadowRoot.Choice.default, .react, []⟩

def sampleRenderer : Renderer := ⟨fun _ => .ok ⟨some "<a>\n</a>", []⟩, fun _ => ""⟩

def sampleExtraction (tree : Script.Node) : Extraction :=
  let scan := Import.scan samplePage sampleOptions.library
  Extraction.ofTree samplePage sampleOptions.library scan.factories
    (bindings sampleOptions.registry scan.library) tree

theorem run_all_or_nothing_sample :
    (Import.scan samplePage sampleOptions.library).isRelevant = true ∧
    (∃ tree, Script.parse? (Script.Dialect.ofPage "page.js") samplePage = some tree ∧
      (sampleExtraction tree).calls ≠ []) ∧
    ∃ output, (run sampleOptions sampleRenderer samplePage "page.js").result = .ok (some output) ∧
      output.declarations.length = 2 := by
  have relevant : (Import.scan samplePage sampleOptions.library).isRelevant = true := by decide +kernel
  have counted : (Script.parse? (Script.Dialect.ofPage "page.js") samplePage).any (fun tree =>
      (sampleExtraction tree).calls.length == 2) = true := by
    decide +kernel
  have succeeds : (run sampleOptions sampleRenderer samplePage "page.js").result.toOption.isSome = true := by
    decide +kernel
  obtain ⟨tree, parsed, counted⟩ := (Option.any_eq_true _ _).mp counted
  have two : (sampleExtraction tree).calls.length = 2 := beq_iff_eq.mp counted
  have some_call : (sampleExtraction tree).calls ≠ [] := fun none => by simp [none] at two
  refine ⟨relevant, ⟨tree, parsed, some_call⟩, ?_⟩
  rcases ((run_all_or_nothing sampleOptions sampleRenderer 0 samplePage "page.js").2.2
    tree relevant parsed).2 some_call with ⟨_, output, _, whole, ran, _⟩ | ⟨k, cause, _, ran, _⟩
  · exact ⟨output, by rw [ran], whole.count.trans two⟩
  · rw [ran] at succeeds
    cases succeeds

-- A failure that is seen at once, and one that is seen when the next render has begun.
example : [0, 1].map (fun ahead =>
    (run sampleOptions ⟨fun _ => .error (.failed ""), fun _ => ""⟩ samplePage "page.js" ahead).requests.length) =
      [1, 2] := by decide +kernel

end Transform
end Prerender
