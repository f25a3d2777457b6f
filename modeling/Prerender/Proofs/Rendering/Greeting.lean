import Prerender.Proofs.Markup.Split
import Prerender.Proofs.Rendering.Source
import Prerender.Proofs.ShadowRoot

set_option autoImplicit false

namespace Prerender

open Markup (OpenTag closeTag)
open Markup.OpenTag (IsTag IsName opening unclosed written writtenAll breaks)
open Markup.Entity (escape escapeChars special)

namespace Renderer

def hostClass (tag : String) (serialization : Serialization) : String :=
  if serialization = .declarative then "hydrated" else "sc-" ++ tag ++ "-h hydrated"

def marks (tag : String) (serialization : Serialization) : List (String × Option String) :=
  [("class", some (hostClass tag serialization)), ("s-id", some "1")]

def styleLine : String := "    <style>:host\x7bdisplay:block\x7d</style>"

def greetingLine (host : OpenTag) : String :=
  "    <div c-id=\"1.0.0.0\">Hello, World! I'm " ++
    " ".intercalate (["first", "middleName", "last"].filterMap host.get?) ++ "</div>"

def filling (host : OpenTag) (children : List Char) (serialization : Serialization) : List (List Char) :=
  if serialization = .declarative then
    ["  <template shadowrootmode=\"open\">".toList, styleLine.toList, (greetingLine host).toList,
      "  </template>".toList, "  <!--r.1-->".toList, "  ".toList ++ children]
  else ["  <div class=\"sc-".toList ++ host.name.toList ++ "\">".toList ++ children ++ "</div>".toList]

def answer (host : OpenTag) (children : List Char) (serialization : Serialization) : List Char :=
  Text.join ['\n'] (opening host.name (host.attributes ++ marks host.name serialization) ::
    (filling host children serialization ++ [closeTag host.name]))

theorem answer_head (host : OpenTag) (children : List Char) (serialization : Serialization) :
    ∃ behind, answer host children serialization = '<' :: behind := by
  obtain ⟨behind, start⟩ := Text.join_cons ['\n'] (opening host.name (host.attributes ++ marks host.name serialization))
    (filling host children serialization ++ [closeTag host.name])
  exact ⟨_, start⟩

theorem hostAttribute_toList (a : String × Option String) : (hostAttribute a).toList = written a := by
  rcases a with ⟨name, _ | text⟩ <;> simp [hostAttribute, written, escape]

theorem hostAttributes_toList (attributes : List (String × Option String)) :
    (String.join (attributes.map hostAttribute)).toList = writtenAll attributes := by
  rw [String.toList_join, List.flatMap_map, writtenAll]
  exact List.flatMap_congr fun a _ => hostAttribute_toList a

theorem hostClass_plain {tag : String} (isTag : IsTag tag) (serialization : Serialization) {c : Char}
    (other : c ∈ '\n' :: special) : c ∉ (hostClass tag serialization).toList := by
  have outside : ('\n' :: special).all (fun c => Markup.OpenTag.isNameTail c == false &&
      ["hydrated", "sc-", "-h hydrated"].all (fun text => text.toList.contains c == false)) = true := by
    decide
  obtain ⟨noTail, others⟩ := Bool.and_eq_true_iff.mp (List.all_eq_true.mp outside c other)
  have free (text : String) (one : text ∈ ["hydrated", "sc-", "-h hydrated"]) : c ∉ text.toList := fun here => by
    have absent := List.all_eq_true.mp others text one
    rw [List.contains_iff_mem.mpr here] at absent
    cases absent
  rw [hostClass]
  split
  · exact free "hydrated" (by decide)
  · rw [String.toList_append, String.toList_append, List.mem_append, List.mem_append]
    exact not_or_intro (not_or_intro (free "sc-" (by decide)) (isTag.not_mem (eq_of_beq noTail)))
      (free "-h hydrated" (by decide))

theorem marks_written {tag : String} (isTag : IsTag tag) (serialization : Serialization) :
    writtenAll (marks tag serialization) =
      " class=\"".toList ++ (hostClass tag serialization).toList ++ "\" s-id=\"1\"".toList := by
  have plain : escapeChars (hostClass tag serialization).toList = (hostClass tag serialization).toList :=
    Markup.Entity.escapeChars_plain fun c here marked =>
      hostClass_plain isTag serialization (List.mem_cons_of_mem '\n' marked) here
  have before : " class=\"".toList = ' ' :: "class".toList ++ ['=', '"'] := by decide
  have behind : '"' :: written ("s-id", some "1") = "\" s-id=\"1\"".toList := by decide
  simp only [marks, writtenAll, List.flatMap_cons, List.flatMap_nil, List.append_nil, written, plain, before, ← behind,
    List.append_assoc, List.cons_append, List.nil_append]

theorem brackets : "<".toList = ['<'] ∧ "</".toList = ['<', '/'] ∧ ">".toList = ['>'] ∧ "\n".toList = ['\n'] := by decide

theorem answer_declarative (host : OpenTag) (isTag : IsTag host.name) (children : String) :
    ("<" ++ host.name ++ String.join (host.attributes.map hostAttribute) ++ " class=\"hydrated\" s-id=\"1\">\n" ++
      "  <template shadowrootmode=\"open\">\n" ++
      "    <style>:host\x7bdisplay:block\x7d</style>\n" ++
      "    <div c-id=\"1.0.0.0\">Hello, World! I'm " ++
        " ".intercalate (["first", "middleName", "last"].filterMap host.get?) ++ "</div>\n" ++
      "  </template>\n  <!--r.1-->\n  " ++ children ++ "\n</" ++ host.name ++ ">").toList =
      answer host children.toList .declarative := by
  have first : " class=\"hydrated\" s-id=\"1\">\n" = " class=\"" ++ "hydrated" ++ "\" s-id=\"1\"" ++ ">" ++ "\n" := rfl
  have template : "  <template shadowrootmode=\"open\">\n" = "  <template shadowrootmode=\"open\">" ++ "\n" := rfl
  have style : "    <style>:host\x7bdisplay:block\x7d</style>\n" = styleLine ++ "\n" := rfl
  have greeting : "</div>\n" = "</div>" ++ "\n" := rfl
  have behind : "  </template>\n  <!--r.1-->\n  " = "  </template>" ++ "\n" ++ "  <!--r.1-->" ++ "\n" ++ "  " := rfl
  have close : "\n</" = "\n" ++ "</" := rfl
  rw [first, template, style, greeting, behind, close]
  simp only [answer, filling, hostClass, if_true, opening, closeTag, Markup.OpenTag.writtenAll_append, marks_written isTag]
  unfold greetingLine
  simp only [-String.reduceAppend, String.toList_append, hostAttributes_toList, brackets, Text.join, List.append_assoc,
    List.cons_append, List.nil_append]

theorem answer_other (host : OpenTag) (isTag : IsTag host.name) (children : String) {serialization : Serialization}
    (other : serialization ≠ .declarative) :
    ("<" ++ host.name ++ String.join (host.attributes.map hostAttribute) ++ " class=\"sc-" ++ host.name ++
        "-h hydrated\" s-id=\"1\">\n" ++
      "  <div class=\"sc-" ++ host.name ++ "\">" ++ children ++ "</div>\n</" ++ host.name ++ ">").toList =
      answer host children.toList serialization := by
  have first : " class=\"sc-" = " class=\"" ++ "sc-" := rfl
  have mark : "-h hydrated\" s-id=\"1\">\n" = "-h hydrated" ++ "\" s-id=\"1\"" ++ ">" ++ "\n" := rfl
  have behind : "</div>\n</" = "</div>" ++ "\n" ++ "</" := rfl
  rw [first, mark, behind]
  simp only [answer, filling, hostClass, if_neg other, opening, closeTag, Markup.OpenTag.writtenAll_append,
    marks_written isTag]
  simp only [-String.reduceAppend, String.toList_append, hostAttributes_toList, brackets, Text.join, List.append_assoc,
    List.cons_append, List.nil_append]

theorem greeter_render (request : Request) : greeter.render request = greet request := rfl

theorem greet_answers (request : Request) {host : OpenTag} {rest : List Char}
    (read : OpenTag.read? request.html.toList = some (host, rest)) (intact : host.name ≠ "broken-component") :
    ∃ styles, greet request = .ok ⟨some (String.ofList
      (answer host (content request.html).toList (request.shadowRoot.resolve host.name))), styles⟩ := by
  have isTag := (OpenTag.read?_named read).1
  rw [greet, OpenTag.parse?, read, Option.map_some]
  simp only [if_neg intact]
  split
  next declarative =>
    rw [declarative, ← answer_declarative host isTag, String.ofList_toList]
    exact ⟨_, rfl⟩
  next other =>
    rw [← answer_other host isTag _ other, String.ofList_toList]
    exact ⟨_, rfl⟩

theorem greet_broken (request : Request) {host : OpenTag} {rest : List Char}
    (read : OpenTag.read? request.html.toList = some (host, rest)) (broken : host.name = "broken-component") :
    greet request = .ok ⟨none, []⟩ := by
  rw [greet, OpenTag.parse?, read, Option.map_some]
  simp only [if_pos broken]

theorem linesOf_greetingLine {host : OpenTag} (whole : ∀ a ∈ host.attributes, breaks a = false) :
    Markup.linesOf (greetingLine host).toList = [(greetingLine host).toList] := by
  have named (text : String) (here : text ∈ ["first", "middleName", "last"].filterMap host.get?) : '\n' ∉ text.toList := by
    obtain ⟨name, -, found⟩ := List.mem_filterMap.mp here
    obtain ⟨a, first, is⟩ := Option.bind_eq_some_iff.mp found
    exact (Markup.OpenTag.breaks_eq_false_iff is).mp (whole a (List.mem_of_find?_eq_some first))
  have close : "</div>".toList = "</div".toList ++ ['>'] := by decide
  unfold greetingLine
  rw [String.toList_append, String.toList_append, String.toList_intercalate, close, ← List.append_assoc]
  refine Markup.linesOf_tag ?_
  rw [List.mem_append, List.mem_append]
  refine not_or_intro (not_or_intro (by decide) fun here => ?_) (by decide)
  rcases Text.mem_of_mem_intercalate here with blank | ⟨_, member, here⟩
  · exact absurd blank (by decide)
  · obtain ⟨text, listed, rfl⟩ := List.mem_map.mp member
    exact named text listed here

theorem content_source (encode : Value → String) {tag : String} {props : Props} (isTag : IsTag tag)
    (names : ∀ a ∈ props.asked encode, IsName a.1) :
    content (Rendering.source encode tag props) = escape (props.children.getD "") := by
  have unended : '>' ∉ writtenAll (Rendering.texted (props.asked encode)) :=
    Markup.OpenTag.not_mem_writtenAll (Rendering.texted_names names) (by decide)
      fun _ text _ => Markup.Entity.not_mem_escapeChars (by decide) text.toList
  have before : '>' ∉ '<' :: tag.toList ++ writtenAll (Rendering.texted (props.asked encode)) := by
    rw [List.cons_append, List.mem_cons, List.mem_append]
    exact not_or_intro (by decide) (not_or_intro (isTag.not_mem rfl) unended)
  have once : '<' ∉ ['/'] ++ (tag.toList ++ ['>']) := by
    simpa using isTag.not_mem (c := '<') rfl
  have cut : Text.cutLast? ['<', '/'] ((escape (props.children.getD "")).toList ++ closeTag tag) =
      some ((escape (props.children.getD "")).toList, tag.toList ++ ['>']) :=
    Text.cutLast?_append _ once
  rw [content, Rendering.source_toList, opening, List.append_assoc, List.singleton_append, Text.cutFirst?_char _ before]
  simp only [cut, Option.map_some, Option.getD_some, String.ofList_toList]

end Renderer

namespace Rendering

open Renderer (answer filling marks styleLine greetingLine greeter)

section Lines

def marked (host : OpenTag) (serialization : Serialization) : OpenTag :=
  ⟨host.name, host.attributes ++ marks host.name serialization⟩

-- An answer begins and ends with a tag, so that no line of it is lost.
theorem lines_answer (host : OpenTag) (children : List Char) (serialization : Serialization) :
    Markup.lines (String.ofList (answer host children serialization)) =
      Markup.linesOf (opening host.name (host.attributes ++ marks host.name serialization)) ++
        ((filling host children serialization).flatMap Markup.linesOf ++ Markup.linesOf (closeTag host.name)) := by
  have parts : (String.ofList (answer host children serialization)).toList = answer host children serialization :=
    String.toList_ofList
  obtain ⟨behind, start⟩ := Renderer.answer_head host children serialization
  obtain ⟨before, stop⟩ := Text.join_concat ['\n'] (closeTag host.name)
    (opening host.name (host.attributes ++ marks host.name serialization) :: filling host children serialization)
  rw [Markup.lines_of_parts parts (List.cons_ne_nil _ _), List.flatMap_cons, List.flatMap_append, List.flatMap_singleton]
  · intro c first
    rw [parts, start] at first
    obtain rfl : '<' = c := Option.some.inj first
    decide
  · intro c last
    rw [parts, answer, ← List.cons_append, stop, closeTag, ← List.append_assoc, List.getLast?_concat] at last
    obtain rfl : '>' = c := Option.some.inj last
    decide

variable (host : OpenTag) (isTag : IsTag host.name) (names : ∀ a ∈ host.attributes, IsName a.1)

def shadowLines (host : OpenTag) (children : List Char) : List (List Char) :=
  "  <template shadowrootmode=\"open\">".toList :: styleLine.toList :: (greetingLine host).toList ::
    "  </template>".toList :: "  <!--r.1-->".toList :: Markup.linesOf ("  ".toList ++ children)

theorem templateOpen_infix : Markup.templateOpen <:+: "  <template shadowrootmode=\"open\">".toList := by
  have line : "  <template shadowrootmode=\"open\">" = "  " ++ "<template shadowrootmode=\"open\">" := rfl
  rw [line, String.toList_append]
  exact (List.suffix_append _ _).isInfix

theorem isTemplate : IsTag "template" := .of_all rfl rfl rfl

theorem marks_names (tag : String) (serialization : Serialization) : ∀ a ∈ marks tag serialization, IsName a.1 := by
  simp only [marks, List.forall_mem_cons]
  exact ⟨.of_all (by decide) rfl, .of_all (by decide) rfl, nofun⟩

theorem marks_unbroken {tag : String} (isTag : IsTag tag) (serialization : Serialization) :
    ∀ a ∈ marks tag serialization, breaks a = false := by
  have single := Renderer.hostClass_plain isTag serialization (List.mem_cons_self (l := special))
  simp only [marks, List.forall_mem_cons]
  exact ⟨(Markup.OpenTag.breaks_eq_false_iff rfl).mpr single, by decide, nofun⟩

theorem linesOf_closeTag (isTag : IsTag host.name) : Markup.linesOf (closeTag host.name) = [closeTag host.name] :=
  Markup.linesOf_tag (by simpa using isTag.not_mem (c := '\n') rfl)

include isTag names

theorem lines_whole (whole : ∀ a ∈ host.attributes, breaks a = false) (children : List Char) (serialization : Serialization) :
    Markup.lines (String.ofList (answer host children serialization)) =
      opening host.name (host.attributes ++ marks host.name serialization) ::
        ((filling host children serialization).flatMap Markup.linesOf ++ [closeTag host.name]) := by
  have single := Markup.OpenTag.line_feed_not_mem_opening isTag
    (List.forall_mem_append.mpr ⟨names, marks_names host.name serialization⟩)
    (List.forall_mem_append.mpr ⟨whole, marks_unbroken isTag serialization⟩)
  have one : Markup.linesOf (opening host.name (host.attributes ++ marks host.name serialization)) =
      [opening host.name (host.attributes ++ marks host.name serialization)] :=
    Markup.linesOf_tag fun here => single (List.mem_append_left _ here)
  rw [lines_answer, one, linesOf_closeTag host isTag, List.singleton_append]

theorem read?_answer (serialization : Serialization) :
    OpenTag.read? (opening host.name (host.attributes ++ marks host.name serialization)) =
      some (marked host serialization, []) := by
  have allNames := List.forall_mem_append.mpr ⟨names, marks_names host.name serialization⟩
  have read := Markup.OpenTag.read?_opening isTag allNames []
  rwa [List.append_nil] at read

section Whole

variable (whole : ∀ a ∈ host.attributes, breaks a = false) (children : List Char)

include whole

theorem split_other (picked : Serialization) {used : Serialization} (other : used ≠ .declarative) :
    Markup.split (String.ofList (answer host children picked)) host.name used =
      .ok (.scoped (marked host picked) (Markup.joinLines ((filling host children picked).flatMap Markup.linesOf))) :=
  Markup.split_unshadowed (lines_whole host isTag names whole children picked) (read?_answer host isTag names picked)
    rfl ((Markup.contains_closeTag_iff isTag isTag).mpr rfl) other

omit isTag names in
theorem linesOf_filling : (filling host children .declarative).flatMap Markup.linesOf = shadowLines host children := by
  have fixed : Markup.linesOf "  <template shadowrootmode=\"open\">".toList = ["  <template shadowrootmode=\"open\">".toList] ∧
      Markup.linesOf styleLine.toList = [styleLine.toList] ∧
      Markup.linesOf "  </template>".toList = ["  </template>".toList] ∧
      Markup.linesOf "  <!--r.1-->".toList = ["  <!--r.1-->".toList] :=
    ⟨by decide, by decide +kernel, by decide, by decide⟩
  simp only [filling, shadowLines, if_true, List.flatMap_cons, List.flatMap_nil, fixed,
    Renderer.linesOf_greetingLine whole, List.append_nil, List.cons_append, List.nil_append]

theorem lines_declarative :
    Markup.lines (String.ofList (answer host children .declarative)) =
      opening host.name (host.attributes ++ marks host.name .declarative) ::
        (shadowLines host children ++ [closeTag host.name]) := by
  rw [lines_whole host isTag names whole, linesOf_filling host whole]

theorem split_shadowLines {i : Nat} (behind : 2 ≤ i) (within : i ≤ (shadowLines host children).length + 1)
    (ends : Text.lastIndex? (Text.contains Markup.templateClose)
      (opening host.name (host.attributes ++ marks host.name .declarative) ::
        (shadowLines host children ++ [closeTag host.name])) = some i) :
    Markup.split (String.ofList (answer host children .declarative)) host.name .declarative =
      .ok (.shadow (marked host .declarative)
        (Markup.joinLines (((shadowLines host children ++ [closeTag host.name]).take (i - 1)).drop 1))) := by
  have closes := (Markup.contains_closeTag_iff isTag isTag).mpr rfl
  obtain ⟨i, rfl⟩ := Nat.exists_eq_add_of_le' behind
  exact Markup.split_shadowed (lines_declarative host isTag names whole children) (read?_answer host isTag names .declarative)
    rfl closes (Text.contains_iff.mpr templateOpen_infix) ends behind within

theorem split_declarative (unmarked : '<' ∉ children) (other : host.name ≠ "template") :
    Markup.split (String.ofList (answer host children .declarative)) host.name .declarative =
      .ok (.shadow (marked host .declarative) (styleLine ++ "\n" ++ greetingLine host)) := by
  have last (line : List Char)
      (behind : line ∈ "  <!--r.1-->".toList :: (Markup.linesOf ("  ".toList ++ children) ++ [closeTag host.name])) :
      Text.contains Markup.templateClose line = false := by
    rcases List.mem_cons.mp behind with rfl | behind
    · decide
    rcases List.mem_append.mp behind with text | close
    · refine Text.contains_eq_false (c := '<') (by decide) fun here => ?_
      rcases List.mem_append.mp (Markup.mem_of_mem_linesOf text here) with blank | inside
      · exact absurd blank (by decide)
      · exact unmarked inside
    · rw [List.mem_singleton.mp close, ← Bool.not_eq_true]
      exact fun same => other ((Markup.contains_closeTag_iff isTag isTemplate).mp same)
  have ends := Text.lastIndex?_append [opening host.name (host.attributes ++ marks host.name .declarative),
    "  <template shadowrootmode=\"open\">".toList, styleLine.toList, (greetingLine host).toList]
    (x := "  </template>".toList) (by decide) last
  have lines : Markup.joinLines [styleLine.toList, (greetingLine host).toList] = styleLine ++ "\n" ++ greetingLine host := by
    rw [Markup.joinLines, Text.join, Text.join, ← String.toList_inj]
    simp [String.toList_append]
  rw [← lines]
  exact split_shadowLines host isTag names whole children (i := 4) (by decide) (by simp [shadowLines]) ends

theorem split_template (same : host.name = "template") :
    Markup.split (String.ofList (answer host children .declarative)) host.name .declarative =
      .ok (.shadow (marked host .declarative) (Markup.joinLines ((shadowLines host children).drop 1))) := by
  have closes : Text.contains Markup.templateClose (closeTag host.name) = true :=
    (Markup.contains_closeTag_iff isTag isTemplate).mpr same
  have last : ∀ line ∈ [], Text.contains Markup.templateClose line = false := nofun
  have ends := Text.lastIndex?_append
    (opening host.name (host.attributes ++ marks host.name .declarative) :: shadowLines host children) closes last
  have split := split_shadowLines host isTag names whole children (by simp [shadowLines]) (by simp) ends
  rwa [List.length_cons, Nat.add_sub_cancel, List.take_left] at split

theorem split_whole (unmarked : '<' ∉ children) (serialization : Serialization) :
    ∃ markup, Markup.split (String.ofList (answer host children serialization)) host.name serialization = .ok markup ∧
      markup.host = marked host serialization := by
  by_cases declarative : serialization = .declarative
  · subst declarative
    by_cases template : host.name = "template"
    · exact ⟨_, split_template host isTag names whole children template, rfl⟩
    · exact ⟨_, split_declarative host isTag names whole children unmarked template, rfl⟩
  · exact ⟨_, split_other host isTag names whole children serialization declarative, rfl⟩

end Whole

theorem split_broken (broken : ∃ a ∈ host.attributes, breaks a = true) (children : List Char) (serialization : Serialization) :
    ∃ line, Markup.split (String.ofList (answer host children serialization)) host.name serialization =
      .error (.missingOpenTag host.name line) := by
  obtain ⟨a, member, breaks⟩ := broken
  have allNames := List.forall_mem_append.mpr ⟨names, marks_names host.name serialization⟩
  obtain ⟨before, name, cut, behind, namesBefore, isName, unquoted, is, single⟩ :=
    Markup.OpenTag.opening_breaks isTag allNames (List.mem_append_left _ member) breaks
  let kept := Text.dropEndWhile (· == '\r') cut
  have first : Text.dropEndWhile (· == '\r') (unclosed host.name before name cut) = unclosed host.name before name kept := by
    have quote := Text.dropEndWhile_append (p := (· == '\r')) (c := '"') rfl
      ('<' :: host.name.toList ++ (writtenAll before ++ ' ' :: (name.toList ++ ['=']))) cut
    simpa [unclosed] using quote
  have lines := lines_answer host children serialization
  rw [is, Markup.linesOf_break single, first, List.cons_append] at lines
  have inside : '"' ∉ kept := fun here => unquoted (Text.mem_of_mem_dropEndWhile here)
  have unread := Markup.OpenTag.read?_unclosed isTag namesBefore isName inside
  exact ⟨_, Markup.split_unopened serialization lines unread⟩

end Lines

section Run

def greeted (tag : String) (props : Props) : OpenTag := ⟨tag, texted (props.asked greeter.encode)⟩

def response (options : Options) (tag : String) (props : Props) : String :=
  String.ofList (answer (greeted tag props) (escape (props.children.getD "")).toList (options.shadowRoot.resolve tag))

theorem response_of_resolve {options : Options} {tag : String} {props : Props} {serialization : Serialization}
    (resolved : options.shadowRoot.resolve tag = serialization) :
    response options tag props =
      String.ofList (answer (greeted tag props) (escape (props.children.getD "")).toList serialization) := by
  rw [response, resolved]

theorem texted_whole {attributes : List (String × String)} :
    (∀ a ∈ texted attributes, breaks a = false) ↔ ∀ a ∈ attributes, '\n' ∉ a.2.toList := by
  rw [texted, List.forall_mem_map]
  exact forall₂_congr fun a _ => Markup.OpenTag.breaks_eq_false_iff rfl

theorem escape_unmarked (s : String) : '<' ∉ (escape s).toList := by
  rw [escape, String.toList_ofList]
  exact Markup.Entity.not_mem_escapeChars (by decide) s.toList

theorem response_visible (options : Options) (tag : String) (props : Props) :
    Options.isBlankText (response options tag props) = false := by
  obtain ⟨behind, start⟩ := Renderer.answer_head (greeted tag props) (escape (props.children.getD "")).toList
    (options.shadowRoot.resolve tag)
  rw [Options.isBlankText, response, String.toList_ofList, start]
  rfl

section Renamed

variable {options : Options} {tag renamed : String} {props : Props} (is : Tag.rename options.renames tag = renamed)
  (isTag : IsTag renamed) (intact : renamed ≠ "broken-component") (names : ∀ a ∈ props.asked greeter.encode, IsName a.1)

include is isTag intact names

theorem render_request :
    ∃ styles, greeter.render (request options greeter tag props) = .ok ⟨some (response options renamed props), styles⟩ := by
  obtain ⟨styles, answers⟩ := Renderer.greet_answers ⟨source greeter.encode renamed props, options.shadowRoot⟩
    (read?_source greeter.encode renamed props isTag names) intact
  rw [Renderer.content_source greeter.encode isTag names] at answers
  refine ⟨styles, ?_⟩
  rw [request, is, Renderer.greeter_render, response]
  exact answers

theorem run_greeter :
    ∃ styles, run options greeter tag props =
      match Markup.split (response options renamed props) renamed (options.shadowRoot.resolveRenamed tag renamed) with
      | .error cause => .error (.markup renamed cause)
      | .ok markup => .ok ⟨renamed, options.shadowRoot.resolveRenamed tag renamed, markup, styles⟩ := by
  obtain ⟨styles, answers⟩ := render_request is isTag intact names
  refine ⟨styles, ?_⟩
  rw [run_eq, answers, receive]
  cases split : Markup.split (response options renamed props) renamed (options.shadowRoot.resolveRenamed tag renamed) <;>
    simp only [is, Option.filter_some, response_visible, Bool.not_false, if_true, split]

theorem run_of_split {markup : Markup} {serialization : Serialization}
    (chosen : options.shadowRoot.resolveRenamed tag renamed = serialization)
    (split : Markup.split (response options renamed props) renamed serialization = .ok markup) :
    ∃ styles, run options greeter tag props = .ok ⟨renamed, serialization, markup, styles⟩ := by
  obtain ⟨styles, ran⟩ := run_greeter is isTag intact names
  rw [chosen, split] at ran
  exact ⟨styles, ran⟩

end Renamed

variable {options : Options} {tag : String} {props : Props} (isTag : IsTag tag) (intact : tag ≠ "broken-component")
  (unrenamed : Tag.rename options.renames tag = tag) (names : ∀ a ∈ props.asked greeter.encode, IsName a.1)

include isTag intact unrenamed names

theorem run_of_resolve {markup : Markup} {serialization : Serialization}
    (resolved : options.shadowRoot.resolve tag = serialization)
    (split : Markup.split (String.ofList (answer (greeted tag props) (escape (props.children.getD "")).toList serialization))
      tag serialization = .ok markup) :
    ∃ styles, run options greeter tag props = .ok ⟨tag, serialization, markup, styles⟩ := by
  have chosen := (ShadowRoot.resolveRenamed_self options.shadowRoot tag).trans resolved
  rw [← response_of_resolve resolved] at split
  exact run_of_split unrenamed isTag intact names chosen split

section Whole

variable (whole : ∀ a ∈ props.asked greeter.encode, '\n' ∉ a.2.toList)

include whole

theorem run_whole :
    ∃ rendered, run options greeter tag props = .ok rendered ∧
      rendered.markup.host = marked (greeted tag props) (options.shadowRoot.resolve tag) := by
  obtain ⟨markup, split, host⟩ := split_whole (greeted tag props) isTag (texted_names names)
    (texted_whole.mpr whole) (escape (props.children.getD "")).toList (escape_unmarked _) (options.shadowRoot.resolve tag)
  obtain ⟨styles, ran⟩ := run_of_resolve isTag intact unrenamed names rfl split
  exact ⟨_, ran, host⟩

theorem run_declarative (declarative : options.shadowRoot.resolve tag = .declarative) (other : tag ≠ "template") :
    ∃ styles, run options greeter tag props = .ok ⟨tag, .declarative,
      .shadow (marked (greeted tag props) .declarative) (styleLine ++ "\n" ++ greetingLine (greeted tag props)), styles⟩ := by
  have split := split_declarative (greeted tag props) isTag (texted_names names) (texted_whole.mpr whole)
    (escape (props.children.getD "")).toList (escape_unmarked _) other
  exact run_of_resolve isTag intact unrenamed names declarative split

theorem run_template (declarative : options.shadowRoot.resolve tag = .declarative) (same : tag = "template") :
    ∃ styles, run options greeter tag props = .ok ⟨tag, .declarative,
      .shadow (marked (greeted tag props) .declarative) (Markup.joinLines ((shadowLines (greeted tag props)
        (escape (props.children.getD "")).toList).drop 1)), styles⟩ := by
  have split := split_template (greeted tag props) isTag (texted_names names) (texted_whole.mpr whole)
    (escape (props.children.getD "")).toList same
  exact run_of_resolve isTag intact unrenamed names declarative split

end Whole

theorem run_broken (broken : ∃ a ∈ props.asked greeter.encode, '\n' ∈ a.2.toList) :
    ∃ line, run options greeter tag props = .error (.markup tag (.missingOpenTag tag line)) := by
  obtain ⟨styles, ran⟩ := run_greeter unrenamed isTag intact names
  obtain ⟨a, member, here⟩ := broken
  have breaks : breaks (a.1, some a.2) = true := (Markup.OpenTag.breaks_iff rfl).mpr here
  obtain ⟨line, (split : Markup.split (response options tag props) tag _ = .error (.missingOpenTag tag line))⟩ :=
    split_broken (greeted tag props) isTag (texted_names names) ⟨_, List.mem_map_of_mem member, breaks⟩
      (escape (props.children.getD "")).toList (options.shadowRoot.resolve tag)
  rw [ShadowRoot.resolveRenamed_self, split] at ran
  exact ⟨line, ran⟩

omit intact in
theorem run_intact {rendered : Rendered} (ran : run options greeter tag props = .ok rendered) : tag ≠ "broken-component" := by
  rintro rfl
  have nothing : greeter.render (request options greeter "broken-component" props) = .ok ⟨none, []⟩ := by
    rw [request, unrenamed, Renderer.greeter_render]
    exact Renderer.greet_broken _ (read?_source greeter.encode "broken-component" props isTag names) rfl
  rw [run_eq, nothing, receive] at ran
  cases ran

end Run

/-- Whatever the values and the children, the sample renderer's answer can be taken apart unless the text of an
attribute has a line feed. The host that is found then begins with the attributes that were written, each with
its text; otherwise the host's tag is not found on the first line. -/
theorem run_greeter_iff (options : Options) (tag : String) (props : Props) (isTag : IsTag tag)
    (intact : tag ≠ "broken-component") (unrenamed : Tag.rename options.renames tag = tag)
    (names : ∀ a ∈ props.asked greeter.encode, IsName a.1) :
    ((∃ rendered, run options greeter tag props = .ok rendered) ↔
      ∀ a ∈ props.asked greeter.encode, '\n' ∉ a.2.toList) ∧
    (∀ rendered, run options greeter tag props = .ok rendered →
      rendered.markup.host.name = tag ∧ texted (props.asked greeter.encode) <+: rendered.markup.host.attributes) ∧
    (∀ cause, run options greeter tag props = .error cause →
      ∃ line, cause = .markup tag (.missingOpenTag tag line)) := by
  by_cases whole : ∀ a ∈ props.asked greeter.encode, '\n' ∉ a.2.toList
  · obtain ⟨rendered, ran, host⟩ := run_whole isTag intact unrenamed names whole
    refine ⟨⟨fun _ => whole, fun _ => ⟨rendered, ran⟩⟩, fun other same => ?_, fun cause failed => ?_⟩
    · obtain rfl : rendered = other := Except.ok.inj (ran.symm.trans same)
      rw [host]
      exact ⟨rfl, List.prefix_append _ _⟩
    · cases ran.symm.trans failed
  · have broken : ∃ a ∈ props.asked greeter.encode, '\n' ∈ a.2.toList := by
      simpa only [not_forall, exists_prop, not_not] using whole
    obtain ⟨line, failed⟩ := run_broken isTag intact unrenamed names broken
    refine ⟨⟨fun ⟨rendered, ran⟩ => ?_, fun all => absurd all whole⟩, fun rendered ran => ?_, fun cause same => ?_⟩
    · cases ran.symm.trans failed
    · cases ran.symm.trans failed
    · exact ⟨line, Except.error.inj (same.symm.trans failed)⟩

def plain : Options := ⟨"lib", Registry.ofNames ["MyComponent"], .default, .react, []⟩

def titled (text : String) : Props := ⟨[("title", .string text)], none, some "</my-component>"⟩

theorem run_greeter_titled :
    (∃ rendered, run plain greeter "my-component" (titled "a\"\r>") = .ok rendered ∧
      [("title", some "a\"\r>")] <+: rendered.markup.host.attributes) ∧
    ¬ ∃ rendered, run plain greeter "my-component" (titled "a\nb") = .ok rendered := by
  have isTag : IsTag "my-component" := .of_all rfl rfl rfl
  have names (text : String) : ∀ a ∈ (titled text).asked greeter.encode, IsName a.1 := by
    have asked : (titled text).asked greeter.encode = [("title", text)] := rfl
    have isName : IsName "title" := .of_all (by decide) rfl
    rw [asked, List.forall_mem_singleton]
    exact isName
  obtain ⟨⟨_, answers⟩, found, _⟩ :=
    run_greeter_iff plain "my-component" (titled "a\"\r>") isTag (by decide) rfl (names _)
  obtain ⟨⟨unbroken, _⟩, _, _⟩ :=
    run_greeter_iff plain "my-component" (titled "a\nb") isTag (by decide) rfl (names _)
  obtain ⟨rendered, ran⟩ := answers (by decide)
  exact ⟨⟨rendered, ran, (found rendered ran).2⟩, fun success => absurd (unbroken success) (by decide)⟩

end Rendering
end Prerender
