import Prerender.Proofs.Element.Jsx
import Prerender.Proofs.Text.Quoted

set_option autoImplicit false

namespace Prerender.Element

open Markup (Outline closeTag)
open Jsx (Tree Reads isName tagOf)

def AttrValue.sourced (value : AttrValue) : AttrValue := .expression value.argument

def Attr.sourced : Attr → Attr
  | .named name value => .named name value.sourced
  | .spread source => .spread source

mutual
def Child.sourced : Child → Child
  | .element tag attrs children => .element tag (attrs.map Attr.sourced) (Child.sourcedAll children)
  | .expression source => .expression source
  | .text s => .expression (Text.Quoted.script s)
def Child.sourcedAll : List Child → List Child
  | [] => []
  | child :: children => child.sourced :: Child.sourcedAll children
end

theorem Child.length_sourcedAll (children : List Child) : (sourcedAll children).length = children.length := by
  induction children with
  | nil => rfl
  | cons child children ih => rw [sourcedAll, List.length_cons, ih, List.length_cons]

theorem Attr.argument_sourced (a : Attr) : a.sourced.argument = a.argument := by
  cases a <;> rfl

theorem attrsArgument_sourced (attrs : List Attr) : attrsArgument (attrs.map Attr.sourced) = attrsArgument attrs := by
  have same : (attrs.map Attr.sourced).map Attr.argument = attrs.map Attr.argument := by
    rw [List.map_map]
    exact List.map_congr_left fun a _ => Attr.argument_sourced a
  rw [attrsArgument, attrsArgument, same, List.isEmpty_map]

mutual
theorem Child.creation_sourced (h : String) : (child : Child) → child.sourced.creation h = child.creation h
  | .element tag attrs children => by
      rw [sourced, creation, attrsArgument_sourced, Child.creations_sourced h children, creation]
  | .expression _ => rfl
  | .text _ => rfl
theorem Child.creations_sourced (h : String) :
    (children : List Child) → Child.creations h (sourcedAll children) = Child.creations h children
  | [] => rfl
  | child :: children => by
      rw [sourcedAll, creations, Child.creation_sourced h child, Child.creations_sourced h children, creations]
end

def AttrValue.quoted? : AttrValue → Option String
  | .text s => if isPlainAttribute s then some s else none
  | _ => none

def AttrValue.spelled (value : AttrValue) : AttrValue :=
  match value.quoted? with
  | some s => .text s
  | none => .expression value.argument

def Attr.spelled : Attr → Attr
  | .named name value => .named name value.spelled
  | .spread source => .spread source

mutual
-- What a child is in JSX, in front of what follows it: bare texts that meet are one.
def Child.spelled : Child → List Tree → List Tree
  | .element tag attrs children, others =>
      .element (tag, attrs.map Attr.spelled) (Child.spelledAll children) :: others
  | .expression source, others => .leaf source :: others
  | .text s, others => if isPlainText s then Outline.prepend s others else .leaf (Text.Quoted.script s) :: others
def Child.spelledAll : List Child → List Tree
  | [] => []
  | child :: children => child.spelled (Child.spelledAll children)
end

def Attr.sources : Attr → List String
  | .named _ value => if value.quoted?.isSome then [] else [value.argument]
  | .spread source => [source]

mutual
def Child.sources : Child → List String
  | .element _ attrs children => attrs.flatMap Attr.sources ++ Child.sourcesAll children
  | .expression source => [source]
  | .text s => if isPlainText s then [] else [Text.Quoted.script s]
def Child.sourcesAll : List Child → List String
  | [] => []
  | child :: children => child.sources ++ Child.sourcesAll children
end

def Attr.IsLegal : Attr → Prop
  | .named name _ => isName name = true
  | .spread _ => True

mutual
def Child.IsLegal : Child → Prop
  | .element tag attrs children =>
      isName tag.name = true ∧ tagOf tag.name = tag ∧ (∀ a ∈ attrs, a.IsLegal) ∧ Child.AllLegal children
  | .expression _ => True
  | .text _ => True
def Child.AllLegal : List Child → Prop
  | [] => True
  | child :: children => child.IsLegal ∧ Child.AllLegal children
end

variable {expression? : List Char → Option (String × List Char)}

theorem AttrValue.jsx_eq (value : AttrValue) :
    value.jsx = match value.quoted? with
      | some s => "\"" ++ s ++ "\""
      | none => braces value.argument := by
  cases value with
  | text s =>
      rw [jsx, quoted?, argument]
      split <;> rfl
  | _ => rfl

theorem AttrValue.quoted?_closed {value : AttrValue} {s : String} (is : value.quoted? = some s) : '"' ∉ s.toList := by
  cases value with
  | text t =>
      rw [quoted?] at is
      split at is
      next plain =>
        obtain rfl := Option.some.inj is
        intro here
        have other := List.all_eq_true.mp plain '"' here
        exact absurd other (by decide)
      next => cases is
  | _ => cases is

theorem braces_toList (s : String) : (braces s).toList = '\x7b' :: (s.toList ++ ['\x7d']) := by
  rw [braces, String.toList_append, String.toList_append]
  rfl

theorem AttrValue.value?_jsx {value : AttrValue} (reads : value.quoted? = none → Reads expression? value.argument)
    (rest : List Char) : Jsx.value? expression? (value.jsx.toList ++ rest) = some (value.spelled, rest) := by
  rw [jsx_eq, spelled]
  cases is : value.quoted? with
  | some s =>
      have text : ("\"" ++ s ++ "\"").toList ++ rest = '"' :: (s.toList ++ '"' :: rest) := by
        simp [String.toList_append]
      dsimp only
      rw [text, Jsx.value?_quoted (quoted?_closed is)]
  | none =>
      dsimp only
      rw [braces_toList, List.cons_append, List.append_assoc]
      exact Jsx.value?_braces (reads is) rest

theorem Attr.attribute?_jsx {a : Attr} (legal : a.IsLegal) (reads : ∀ source ∈ a.sources, Reads expression? source)
    (rest : List Char) : Jsx.attribute? expression? (a.jsx.toList ++ rest) = some (a.spelled, rest) := by
  cases a with
  | spread source =>
      have mark : "...".toList = ['.', '.', '.'] := rfl
      have text : (Attr.spread source).jsx.toList ++ rest = Jsx.spreadMark ++ (source.toList ++ '\x7d' :: rest) := by
        rw [Attr.jsx, braces_toList, String.toList_append, mark]
        simp [Jsx.spreadMark]
      rw [text]
      exact Jsx.attribute?_spread (reads source List.mem_cons_self) rest
  | named name value =>
      have equals : "=".toList = ['='] := rfl
      have text : (Attr.named name value).jsx.toList ++ rest = name.toList ++ '=' :: (value.jsx.toList ++ rest) := by
        rw [Attr.jsx, String.toList_append, String.toList_append, equals]
        simp
      rw [text]
      refine Jsx.attribute?_named legal (AttrValue.value?_jsx (fun unquoted => reads _ ?_) rest)
      simp [sources, unquoted]

def attrsJsx (attrs : List Attr) : List Char := attrs.flatMap fun a => ' ' :: a.jsx.toList

theorem join_jsx (attrs : List Attr) : (String.join (attrs.map fun a => " " ++ a.jsx)).toList = attrsJsx attrs := by
  induction attrs with
  | nil => rfl
  | cons a attrs ih =>
      rw [List.map_cons, String.join_cons, String.toList_append, ih, String.toList_append]
      rfl

theorem Attr.jsx_start {a : Attr} (legal : a.IsLegal) :
    ∃ c cs, a.jsx.toList = c :: cs ∧ (Jsx.isNamePart c = true ∨ c = '\x7b') := by
  cases a with
  | spread source =>
      rw [Attr.jsx, braces_toList]
      exact ⟨_, _, rfl, .inr rfl⟩
  | named name value =>
      obtain ⟨c, cs, chars, parts⟩ := Jsx.isName_cons legal
      refine ⟨c, cs ++ ("=".toList ++ value.jsx.toList), ?_, .inl (parts c (chars ▸ List.mem_cons_self))⟩
      rw [Attr.jsx, String.toList_append, String.toList_append, chars, List.append_assoc, List.cons_append]

theorem attributes?_jsx {attrs : List Attr} (legal : ∀ a ∈ attrs, a.IsLegal)
    (reads : ∀ source ∈ attrs.flatMap Attr.sources, Reads expression? source) {behind rest : List Char}
    (ends : ∀ steps, Jsx.attributes? expression? (steps + 1) behind = some ([], rest)) (steps : Nat)
    (enough : steps > attrs.length) :
    Jsx.attributes? expression? steps (attrsJsx attrs ++ behind) = some (attrs.map Attr.spelled, rest) := by
  obtain ⟨steps, rfl⟩ : ∃ fewer, steps = fewer + 1 := ⟨steps - 1, by omega⟩
  induction attrs generalizing steps with
  | nil => exact ends steps
  | cons a attrs ih =>
      rw [List.forall_mem_cons] at legal
      rw [List.flatMap_cons, List.forall_mem_append] at reads
      rw [List.length_cons] at enough
      obtain ⟨steps, rfl⟩ : ∃ fewer, steps = fewer + 1 := ⟨steps - 1, by omega⟩
      obtain ⟨c, cs, is, starts⟩ := Attr.jsx_start legal.1
      have one := Attr.attribute?_jsx legal.1 reads.1 (attrsJsx attrs ++ behind)
      have more := ih legal.2 reads.2 steps (by omega)
      rw [is, List.cons_append] at one
      have text : attrsJsx (a :: attrs) ++ behind = ' ' :: c :: (cs ++ (attrsJsx attrs ++ behind)) := by
        simp only [attrsJsx, List.flatMap_cons, is, List.cons_append, List.append_assoc]
      rw [text, List.map_cons]
      exact Jsx.attributes?_cons starts one more

theorem length_attrsJsx (attrs : List Attr) : attrs.length ≤ (attrsJsx attrs).length := by
  induction attrs with
  | nil => exact Nat.le_refl 0
  | cons a attrs ih =>
      rw [attrsJsx, List.flatMap_cons, ← attrsJsx, List.length_append, List.length_cons, List.length_cons]
      omega

section
variable {tag : Tag} {attrs : List Attr} {children : List Child}

def closingJsx (tag : Tag) (children : List Child) : List Char :=
  if children.isEmpty then [' ', '/', '>'] else '>' :: ((Child.jsxAll children).toList ++ closeTag tag.name)

theorem jsx_toList (tag : Tag) (attrs : List Attr) (children : List Child) :
    (Child.element tag attrs children).jsx.toList =
      '<' :: (tag.name.toList ++ (attrsJsx attrs ++ closingJsx tag children)) := by
  have less : "<".toList = ['<'] := rfl
  have greater : ">".toList = ['>'] := rfl
  have close : "</".toList = ['<', '/'] := rfl
  have alone : " />".toList = [' ', '/', '>'] := rfl
  rw [Child.jsx, closingJsx]
  split <;>
    simp only [String.toList_append, join_jsx, less, greater, close, alone, closeTag, List.append_assoc, List.cons_append,
      List.nil_append]

theorem stops_name (behind : List Char) (starts : ∃ c cs, behind = c :: cs ∧ Jsx.isNamePart c = false) :
    ∀ c ∈ (attrsJsx attrs ++ behind).head?, Jsx.isNamePart c = false := by
  obtain ⟨d, ds, rfl, other⟩ := starts
  intro c here
  cases attrs with
  | nil =>
      obtain rfl := Option.some.inj here
      exact other
  | cons a attrs =>
      obtain rfl : ' ' = c := Option.some.inj here
      decide

theorem element?_jsx (isName : isName tag.name = true) (same : tagOf tag.name = tag) (legal : ∀ a ∈ attrs, a.IsLegal)
    (reads : ∀ source ∈ attrs.flatMap Attr.sources, Reads expression? source) (steps : Nat)
    (enough : steps + 1 ≥ (Child.element tag attrs children).jsx.toList.length)
    (content : ∀ fewer > (Child.jsxAll children).toList.length, ∀ rest,
      Jsx.content? expression? fewer ((Child.jsxAll children).toList ++ (closeTag tag.name ++ rest)) =
        some (Child.spelledAll children, closeTag tag.name ++ rest)) (rest : List Char) :
    Jsx.element? expression? steps ((Child.element tag attrs children).jsx.toList ++ rest) =
      some (.element (tag, attrs.map Attr.spelled) (Child.spelledAll children), rest) := by
  have few := length_attrsJsx attrs
  rw [jsx_toList] at enough ⊢
  simp only [closingJsx] at enough ⊢
  simp only [List.cons_append, List.append_assoc]
  split at enough
  next empty =>
    obtain rfl := List.isEmpty_iff.mp empty
    simp only [List.length_append, List.length_cons, List.length_nil] at enough
    obtain ⟨fewer, rfl⟩ : ∃ fewer, steps = fewer + 1 := ⟨steps - 1, by omega⟩
    have ends (steps : Nat) :
        Jsx.attributes? expression? (steps + 1) (' ' :: '/' :: '>' :: rest) = some ([], '/' :: '>' :: rest) := rfl
    have read := attributes?_jsx legal reads ends fewer (by omega)
    have found := Jsx.element?_alone isName (stops_name _ ⟨_, _, rfl, by decide⟩) read
    rw [same] at found
    exact found
  next some_child =>
    simp only [closeTag, List.length_append, List.length_cons, List.length_nil] at enough
    obtain ⟨fewer, rfl⟩ : ∃ fewer, steps = fewer + 1 := ⟨steps - 1, by omega⟩
    have ends (cs : List Char) (steps : Nat) :
        Jsx.attributes? expression? (steps + 1) ('>' :: cs) = some ([], '>' :: cs) := rfl
    have read := attributes?_jsx legal reads (ends ((Child.jsxAll children).toList ++ (closeTag tag.name ++ rest))) fewer
      (by omega)
    have found := Jsx.element?_around isName (stops_name _ ⟨_, _, rfl, by decide⟩) read (content fewer (by omega) rest)
    rw [same] at found
    rw [if_neg some_child]
    simpa only [List.cons_append, List.append_assoc] using found

end

theorem isTextChar_plain {s : String} (plain : isPlainText s = true) : ∀ c ∈ s.toList, Jsx.isTextChar c = true := by
  simp only [isPlainText, Bool.and_eq_true] at plain
  intro c here
  have kept := List.all_eq_true.mp plain.1.2 c here
  simp only [Bool.and_eq_true, bne_iff_ne] at kept
  simp [Jsx.isTextChar, kept]

theorem ne_empty_of_plain {s : String} (plain : isPlainText s = true) : s ≠ "" := by
  rintro rfl
  cases plain

-- Each child is read in front of what is read behind it. There are steps enough as long as there are as many as
-- characters, and `room` for what stands behind.
mutual
theorem Child.content?_jsx {cs rest : List Char} {others : List Tree} {room : Nat}
    (behind : ∀ steps ≥ room, Jsx.content? expression? steps cs = some (others, rest)) :
    (child : Child) → child.IsLegal → (∀ source ∈ child.sources, Reads expression? source) →
      ∀ steps ≥ child.jsx.toList.length + room,
        Jsx.content? expression? steps (child.jsx.toList ++ cs) = some (child.spelled others, rest)
  | .element tag attrs children => by
      intro all reads steps enough
      rw [IsLegal] at all
      rw [sources, List.forall_mem_append] at reads
      obtain ⟨isName, same, legal, inner⟩ := all
      have opens : ∃ behind, (element tag attrs children).jsx.toList ++ cs = '<' :: (tag.name.toList ++ behind) := by
        rw [jsx_toList, List.cons_append, List.append_assoc]
        exact ⟨_, rfl⟩
      have occupied : (element tag attrs children).jsx.toList.length > 0 := by
        rw [jsx_toList]
        exact Nat.succ_pos _
      obtain ⟨steps, rfl⟩ : ∃ fewer, steps = fewer + 1 := ⟨steps - 1, by omega⟩
      have one := element?_jsx isName same legal reads.1 steps (by omega)
        (Child.content?_jsxAll tag.name children inner reads.2) cs
      rw [spelled]
      exact Jsx.content?_element isName opens one (behind steps (by omega))
  | .expression source => by
      intro _ reads steps enough
      rw [Child.jsx, braces_toList] at enough ⊢
      simp only [List.length_cons, List.length_append, List.length_nil] at enough
      obtain ⟨steps, rfl⟩ : ∃ fewer, steps = fewer + 1 := ⟨steps - 1, by omega⟩
      rw [List.cons_append, List.append_assoc, spelled]
      exact Jsx.content?_leaf (reads source List.mem_cons_self) (behind steps (by omega))
  | .text s => by
      intro _ reads steps enough
      rw [Child.jsx, spelled]
      rw [Child.jsx] at enough
      rw [sources] at reads
      split
      next plain =>
        rw [if_pos plain] at enough
        rw [Jsx.content?_text (isTextChar_plain plain), behind steps (by omega), Option.map_some]
      next marked =>
        rw [if_neg marked] at enough reads
        rw [braces_toList] at enough ⊢
        simp only [List.length_cons, List.length_append, List.length_nil] at enough
        obtain ⟨steps, rfl⟩ : ∃ fewer, steps = fewer + 1 := ⟨steps - 1, by omega⟩
        rw [List.cons_append, List.append_assoc]
        exact Jsx.content?_leaf (reads _ List.mem_cons_self) (behind steps (by omega))
theorem Child.content?_jsxAll (tag : String) :
    (children : List Child) → Child.AllLegal children → (∀ source ∈ Child.sourcesAll children, Reads expression? source) →
      ∀ steps > (Child.jsxAll children).toList.length, ∀ rest,
        Jsx.content? expression? steps ((Child.jsxAll children).toList ++ (closeTag tag ++ rest)) =
          some (Child.spelledAll children, closeTag tag ++ rest)
  | [] => by
      intro _ _ steps enough rest
      obtain ⟨steps, rfl⟩ : ∃ fewer, steps = fewer + 1 := ⟨steps - 1, by omega⟩
      exact Jsx.content?_end _
  | child :: children => by
      intro all reads steps enough rest
      rw [AllLegal] at all
      rw [sourcesAll, List.forall_mem_append] at reads
      have behind (steps : Nat) (enough : steps ≥ (Child.jsxAll children).toList.length + 1) :=
        Child.content?_jsxAll tag children all.2 reads.2 steps enough rest
      rw [Child.jsxAll, String.toList_append, List.length_append] at enough
      rw [Child.jsxAll, String.toList_append, List.append_assoc]
      exact Child.content?_jsx behind child all.1 reads.1 steps (by omega)
end

def Child.isBare : Child → Bool
  | .text s => isPlainText s
  | _ => false

section
variable (named : List Char → Option Char)

def Attr.IsFaithful : Attr → Prop
  | .named _ (.text s) => isPlainAttribute s = true → Jsx.Unmarked named s.toList
  | _ => True

mutual
-- No reference stands in a text that is written as it is, no line ends in a bare one, and no two of these meet.
def Child.IsFaithful : Child → Prop
  | .element _ attrs children => (∀ a ∈ attrs, a.IsFaithful named) ∧ Child.AllFaithful children
  | .expression _ => True
  | .text s => isPlainText s = true → Jsx.Unmarked named s.toList ∧ ∀ c ∈ s.toList, Script.isLineEnd c = false
def Child.AllFaithful : List Child → Prop
  | [] => True
  | child :: children =>
      child.IsFaithful ∧ (child.isBare = true → children.head?.any Child.isBare = false) ∧ Child.AllFaithful children
end

end

variable {named : List Char → Option Char}

theorem lowered_braces {value : AttrValue} (unquoted : value.quoted? = none) (name : String) :
    (Jsx.lowerAttr named (Attr.named name value).spelled).sourced = (Attr.named name value).sourced := by
  rw [Attr.spelled, AttrValue.spelled, unquoted]
  rfl

theorem lowered_quoted {value : AttrValue} {s : String} (quoted : value.quoted? = some s) (name : String) :
    (Jsx.lowerAttr named (Attr.named name value).spelled).sourced =
      .named name (.expression (Text.Quoted.script (Jsx.decode named s))) := by
  rw [Attr.spelled, AttrValue.spelled, quoted]
  rfl

theorem Attr.lowered_iff (a : Attr) : (Jsx.lowerAttr named a.spelled).sourced = a.sourced ↔ a.IsFaithful named := by
  cases a with
  | spread source => exact iff_of_true rfl trivial
  | named name value =>
      cases value with
      | text s =>
          have text : (Attr.named name (.text s)).sourced = .named name (.expression (Text.Quoted.script s)) := rfl
          rw [IsFaithful]
          by_cases plain : isPlainAttribute s = true
          · have quoted : (AttrValue.text s).quoted? = some s := if_pos plain
            rw [lowered_quoted quoted, text, Attr.named.injEq, AttrValue.expression.injEq, forall_prop_of_true plain,
              ← Jsx.decode_eq_self_iff]
            exact ⟨fun same => Text.Quoted.script_injective same.2, fun same => ⟨rfl, congrArg _ same⟩⟩
          · have unquoted : (AttrValue.text s).quoted? = none := if_neg plain
            exact iff_of_true (lowered_braces unquoted name) fun is => absurd is plain
      | _ => exact iff_of_true (lowered_braces rfl name) trivial

theorem lowered_attrs_iff (attrs : List Attr) :
    ((attrs.map Attr.spelled).map (Jsx.lowerAttr named)).map Attr.sourced = attrs.map Attr.sourced ↔
      ∀ a ∈ attrs, a.IsFaithful named := by
  rw [List.map_map, List.map_map, List.map_inj_left]
  exact forall₂_congr fun a _ => Attr.lowered_iff a

theorem prepend_length (s : String) (others : List Tree) : (Outline.prepend s others).length ≤ others.length + 1 := by
  unfold Outline.prepend
  split
  · exact Nat.le_succ _
  · split <;> simp

theorem length_spelledAll (children : List Child) : (Child.spelledAll children).length ≤ children.length := by
  induction children with
  | nil => exact Nat.le_refl 0
  | cons child children ih =>
      rw [Child.spelledAll, List.length_cons]
      cases child with
      | element tag attrs inner => exact Nat.succ_le_succ ih
      | expression source => exact Nat.succ_le_succ ih
      | text s =>
          rw [Child.spelled]
          split
          · exact (prepend_length s _).trans (Nat.succ_le_succ ih)
          · exact Nat.succ_le_succ ih

theorem length_lowerAll (named : List Char → Option Char) (trees : List Tree) : (Jsx.lowerAll named trees).length ≤ trees.length := by
  induction trees with
  | nil => exact Nat.le_refl 0
  | cons x xs ih =>
      have one : (Jsx.lower named x).toList.length ≤ 1 := by cases Jsx.lower named x <;> simp
      rw [Jsx.lowerAll, List.length_append, List.length_cons]
      omega

theorem prepend_spelledAll {s : String} (occupied : s ≠ "") {children : List Child}
    (alone : children.head?.any Child.isBare = false) :
    Outline.prepend s (Child.spelledAll children) = .text s :: Child.spelledAll children := by
  cases children with
  | nil => exact if_neg occupied
  | cons child children =>
      rw [Child.spelledAll]
      cases child with
      | element tag attrs inner => exact if_neg occupied
      | expression source => exact if_neg occupied
      | text t =>
          have marked : ¬ isPlainText t = true := by simpa [Child.isBare] using alone
          rw [Child.spelled, if_neg marked]
          exact if_neg occupied

theorem length_prepend_bare (s : String) {children : List Child} (bare : children.head?.any Child.isBare = true) :
    (Outline.prepend s (Child.spelledAll children)).length ≤ children.length := by
  obtain ⟨child, children, rfl⟩ : ∃ child others, children = child :: others := by
    cases children with
    | nil => cases bare
    | cons child children => exact ⟨child, children, rfl⟩
  cases child with
  | text t =>
      have plain : isPlainText t = true := bare
      rw [Child.spelledAll, Child.spelled, if_pos plain, Outline.prepend_prepend, List.length_cons]
      exact (prepend_length _ _).trans (Nat.succ_le_succ (length_spelledAll children))
  | _ => cases bare

theorem Child.lowered_iff : (children : List Child) →
    (Child.sourcedAll (Jsx.lowerAll named (Child.spelledAll children)) = Child.sourcedAll children ↔
      Child.AllFaithful named children)
  | [] => iff_of_true rfl trivial
  | .element tag attrs inner :: children => by
      have inside := Child.lowered_iff inner
      have behind := Child.lowered_iff children
      have unbare : (Child.element tag attrs inner).isBare = true ↔ False := by simp [isBare]
      rw [spelledAll, spelled, Jsx.lowerAll, Jsx.lower, Option.toList_some, List.singleton_append, sourcedAll, sourcedAll,
        sourced, sourced, AllFaithful, IsFaithful, List.cons.injEq, behind, Child.element.injEq, lowered_attrs_iff, inside]
      simp [unbare]
  | .expression source :: children => by
      have behind := Child.lowered_iff children
      rw [spelledAll, spelled, Jsx.lowerAll, Jsx.lower, Option.toList_some, List.singleton_append, sourcedAll, sourcedAll,
        sourced, AllFaithful, IsFaithful, List.cons.injEq, behind]
      simp [isBare]
  | .text s :: children => by
      have behind := Child.lowered_iff children
      rw [AllFaithful, IsFaithful, isBare]
      by_cases plain : isPlainText s = true
      · cases meets : children.head?.any Child.isBare with
        | true =>
            refine iff_of_false (fun same => ?_) fun all => absurd (all.2.1 plain) (by simp)
            have lengths := congrArg List.length same
            have fewer := length_prepend_bare s meets
            have kept := length_lowerAll named (Outline.prepend s (spelledAll children))
            rw [spelledAll, spelled, if_pos plain, length_sourcedAll, length_sourcedAll, List.length_cons] at lengths
            omega
        | false =>
            rw [spelledAll, spelled, if_pos plain, prepend_spelledAll (ne_empty_of_plain plain) meets, Jsx.lowerAll, Jsx.lower,
              forall_prop_of_true plain, ← Jsx.bare?_eq_self_iff]
            cases Jsx.bare? named s with
            | none =>
                refine iff_of_false (fun same => ?_) fun all => absurd all.1 nofun
                have lengths := congrArg List.length same
                have kept := length_lowerAll named (spelledAll children)
                have fewer := length_spelledAll children
                simp only [Option.map_none, Option.toList_none, List.nil_append, length_sourcedAll, List.length_cons] at lengths
                omega
            | some t =>
                rw [Option.map_some, Option.toList_some, List.singleton_append, sourcedAll, sourcedAll, sourced, sourced,
                  List.cons.injEq, behind, Child.expression.injEq]
                have literal : Text.Quoted.script t = Text.Quoted.script s ↔ t = s := ⟨Text.Quoted.script_injective, congrArg _⟩
                simp [literal]
      · rw [spelledAll, spelled, if_neg plain, Jsx.lowerAll, Jsx.lower, Option.toList_some, List.singleton_append, sourcedAll,
          sourcedAll, sourced, sourced, List.cons.injEq, behind]
        simp [plain]

theorem read?_jsx {e : Element} (legal : e.toChild.IsLegal) (reads : ∀ source ∈ e.toChild.sources, Reads expression? source) :
    Jsx.read? expression? e.jsx = some (.element (e.tag, e.attrs.map Attr.spelled) (Child.spelledAll e.children)) := by
  rw [toChild, Child.IsLegal] at legal
  rw [toChild, Child.sources, List.forall_mem_append] at reads
  obtain ⟨isName, same, legal, inner⟩ := legal
  have enough : e.jsx.length + 1 ≥ e.toChild.jsx.toList.length := by
    rw [jsx, String.length_toList]
    exact Nat.le_succ _
  have read := element?_jsx isName same legal reads.1 _ enough (Child.content?_jsxAll e.tag.name e.children inner reads.2) []
  rw [List.append_nil] at read
  rw [Jsx.read?, show e.jsx.toList = (Child.element e.tag e.attrs e.children).jsx.toList from rfl, read]

/-- The two spellings of an element agree except for texts. JSX with names that can be written in it is lowered, and
the calls it is lowered to, each with its arguments as expressions, are those that are printed at once if and only if
no reference stands in a text that JSX has as it is, no line ends in one between tags, and no two of those meet. -/
theorem lowered?_jsx (named : List Char → Option Char) (expression? : List Char → Option (String × List Char)) (e : Element)
    (legal : e.toChild.IsLegal) (reads : ∀ source ∈ e.toChild.sources, Reads expression? source) :
    ∃ lowered, Jsx.lowered? named expression? e.jsx = some lowered ∧
      (lowered.sourced = e.toChild.sourced ↔ e.toChild.IsFaithful named) ∧
      ∀ h, lowered.sourced.creation h = lowered.creation h ∧ e.toChild.sourced.creation h = e.creation h := by
  refine ⟨.element e.tag ((e.attrs.map Attr.spelled).map (Jsx.lowerAttr named))
    (Jsx.lowerAll named (Child.spelledAll e.children)), ?_, ?_, fun h => ⟨Child.creation_sourced h _, ?_⟩⟩
  · rw [Jsx.lowered?, read?_jsx legal reads]
    rfl
  · rw [toChild, Child.sourced, Child.sourced, Child.IsFaithful, Child.element.injEq, lowered_attrs_iff, Child.lowered_iff]
    simp only [true_and]
  · exact Child.creation_sourced h e.toChild

def basicNames (name : List Char) : Option Char :=
  [("amp", '&'), ("lt", '<'), ("gt", '>'), ("quot", '"'), ("apos", '\'')].lookup (String.ofList name)

def upToBrace (cs : List Char) : Option (String × List Char) :=
  (Text.cutFirst? ['\x7d'] cs).map fun (source, rest) => (String.ofList source, rest)

theorem reads_upToBrace {source : String} (plain : '\x7d' ∉ source.toList) : Reads upToBrace source := by
  intro rest
  simp only [upToBrace, Text.cutFirst?_char rest plain, Option.map_some, String.ofList_toList]

def card : Element :=
  ⟨.intrinsic "x-card",
    [.named "title" (.text "\"&\""), .named "alt" (.text "1 < 2"), .spread "props", .named "hidden" (.flag true)],
    [.text "Tom", .expression "x", .element (.component "Icon") [] [], .text "& co", .text " "]⟩

theorem lowered?_jsx_card :
    card.jsx = "<x-card title=\x7b\"\\\"&\\\"\"\x7d alt=\"1 < 2\" \x7b...props\x7d hidden=\x7btrue\x7d>Tom\x7bx\x7d<Icon />& co\x7b\" \"\x7d</x-card>" ∧
    card.toChild.IsLegal ∧ (∀ source ∈ card.toChild.sources, Reads upToBrace source) ∧
    ∃ lowered, Jsx.lowered? basicNames upToBrace card.jsx = some lowered ∧ lowered.sourced = card.toChild.sourced ∧
      lowered.creation "h" = card.creation "h" := by
  have legal : card.toChild.IsLegal := by
    simp only [card, toChild, Child.IsLegal, Child.AllLegal, Attr.IsLegal, Tag.name, List.forall_mem_cons, List.not_mem_nil,
      false_imp_iff, implies_true, and_true, true_and]
    decide +kernel
  have reads : ∀ source ∈ card.toChild.sources, Reads upToBrace source := by
    have plain : card.toChild.sources.all (fun source => !source.toList.contains '\x7d') = true := by decide +kernel
    exact fun source here => reads_upToBrace (by simpa using List.all_eq_true.mp plain source here)
  obtain ⟨lowered, is, same, calls⟩ := lowered?_jsx basicNames upToBrace card legal reads
  have faithful : card.toChild.IsFaithful basicNames := by
    simp only [card, toChild, Child.IsFaithful, Child.AllFaithful, Attr.IsFaithful, Child.isBare, List.forall_mem_cons,
      List.not_mem_nil, false_imp_iff, implies_true, and_true, true_and]
    decide +kernel
  refine ⟨by decide +kernel, legal, reads, lowered, is, same.mpr faithful, ?_⟩
  rw [← (calls "h").1, same.mpr faithful, (calls "h").2]

def mixed : Element := ⟨.intrinsic "x-a", [.named "title" (.text "&amp;")], [.text "a\rb", .text "c"]⟩

theorem lowered?_jsx_mixed :
    mixed.toChild.IsLegal ∧ (Jsx.lowered? basicNames upToBrace mixed.jsx).map (Child.creation "h") =
      some "h(\"x-a\", \x7b title: \"&\" \x7d, \"a bc\")" ∧
    mixed.creation "h" = "h(\"x-a\", \x7b title: \"&amp;\" \x7d, \"a\\rb\", \"c\")" := by
  have legal : mixed.toChild.IsLegal := by
    simp only [mixed, toChild, Child.IsLegal, Child.AllLegal, Attr.IsLegal, Tag.name, List.forall_mem_cons,
      List.not_mem_nil, false_imp_iff, implies_true, and_true]
    decide +kernel
  exact ⟨legal, by decide +kernel⟩

end Prerender.Element
