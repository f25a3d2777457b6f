import Prerender.Extraction
import Prerender.Proofs.Environments

set_option autoImplicit false

namespace Prerender

open Script (Node)

section Last

variable {α β γ : Type}

theorem exists_front {front before behind : List α} {x last : α} (is : front ++ [last] = before ++ x :: behind)
    (more : behind ≠ []) : ∃ between, behind = between ++ [last] ∧ front = before ++ x :: between := by
  obtain ⟨between, other, rfl⟩ := (List.eq_nil_or_concat' behind).resolve_left more
  have split : front ++ [last] = (before ++ x :: between) ++ [other] := by rw [is]; simp
  obtain ⟨rfl, same⟩ := List.append_inj' split rfl
  exact ⟨between, by rw [List.singleton_inj.mp same], rfl⟩

theorem filterMap_eq_last_iff (f : α → Option β) (xs : List α) : xs.filterMap f = (xs.getLast?.bind f).toList ↔
    ¬ ∃ before x behind, xs = before ++ x :: behind ∧ f x ≠ none ∧ behind ≠ [] := by
  rcases List.eq_nil_or_concat' xs with rfl | ⟨front, last, rfl⟩
  · simp
  · have alone : [last].filterMap f = (f last).toList := by cases shown : f last <;> simp [shown]
    rw [List.filterMap_append, List.getLast?_concat, Option.bind_some, alone, List.append_left_eq_self,
      List.filterMap_eq_nil_iff]
    constructor
    · rintro nothing ⟨before, x, behind, is, shows, more⟩
      obtain ⟨between, -, rfl⟩ := exists_front is more
      exact shows (nothing x (List.mem_append_right before List.mem_cons_self))
    · intro nothing x member
      by_contra shows
      obtain ⟨before, behind, rfl⟩ := List.append_of_mem member
      exact nothing ⟨before, x, behind ++ [last], by simp, shows, by simp⟩

theorem getLast?_filterMap_iff {f : α → Option β} {xs : List α} {y : β} : (xs.filterMap f).getLast? = some y ↔
    ∃ before x behind, xs = before ++ x :: behind ∧ f x = some y ∧ ∀ z ∈ behind, f z = none := by
  constructor
  · intro last
    obtain ⟨front, is⟩ := List.getLast?_eq_some_iff.mp last
    obtain ⟨one, two, rfl, -, is⟩ := List.filterMap_eq_append_iff.mp is
    obtain ⟨passed, x, behind, rfl, -, found, none_behind⟩ := List.filterMap_eq_cons_iff.mp is
    exact ⟨one ++ passed, x, behind, by simp, found, List.filterMap_eq_nil_iff.mp none_behind⟩
  · rintro ⟨before, x, behind, rfl, found, quiet⟩
    rw [List.filterMap_append, List.filterMap_cons_some found, List.filterMap_eq_nil_iff.mpr quiet, List.getLast?_concat]

theorem last_filterMap_iff (keep : α → Option β) (read : β → Option γ) (xs : List α) :
    (xs.filterMap keep).getLast?.bind read = xs.getLast?.bind (fun x => (keep x).bind read) ↔
    ¬ ∃ before x behind, xs = before ++ x :: behind ∧ (keep x).bind read ≠ none ∧ behind ≠ [] ∧
      ∀ y ∈ behind, keep y = none := by
  rcases List.eq_nil_or_concat' xs with rfl | ⟨front, last, rfl⟩
  · simp
  · rw [List.getLast?_concat, Option.bind_some]
    cases kept : keep last with
    | some y =>
        have found : ((front ++ [last]).filterMap keep).getLast? = some y :=
          getLast?_filterMap_iff.mpr ⟨front, last, [], rfl, kept, nofun⟩
        rw [found]
        refine iff_of_true rfl ?_
        rintro ⟨before, x, behind, is, -, more, quiet⟩
        obtain ⟨between, rfl, -⟩ := exists_front is more
        exact absurd (quiet last (List.mem_append_right between List.mem_cons_self)) (by simp [kept])
    | none =>
        rw [List.filterMap_append, List.filterMap_cons_none kept, List.filterMap_nil, List.append_nil, Option.bind_none]
        constructor
        · rintro nothing ⟨before, x, behind, is, shows, more, quiet⟩
          obtain ⟨between, rfl, rfl⟩ := exists_front is more
          obtain ⟨z, shown⟩ := Option.ne_none_iff_exists'.mp shows
          obtain ⟨y, found, reads⟩ := Option.bind_eq_some_iff.mp shown
          have last := getLast?_filterMap_iff.mpr
            ⟨before, x, between, rfl, found, fun z member => quiet z (List.mem_append_left [last] member)⟩
          rw [last, Option.bind_some, reads] at nothing
          cases nothing
        · intro nothing
          by_contra shows
          obtain ⟨z, shown⟩ := Option.ne_none_iff_exists'.mp shows
          obtain ⟨y, found, reads⟩ := Option.bind_eq_some_iff.mp shown
          obtain ⟨before, x, behind, rfl, stands, quiet⟩ := getLast?_filterMap_iff.mp found
          refine nothing ⟨before, x, behind ++ [last], by simp, by simp [stands, reads], by simp, ?_⟩
          intro z member
          rcases List.mem_append.mp member with member | member
          · exact quiet z member
          · rw [List.mem_singleton.mp member, kept]

end Last

namespace Props

variable (encode : Value → String)

def property? : Node → Option (String × Option Value)
  | .mk .property _ [key, value] => (Value.keyText? key).map (·, Value.ofNode? value)
  | _ => none

def entries (properties : List Node) : List (String × Option Value) := properties.filterMap property?

def under (keys : String → Bool) (entries : List (String × Option Value)) : List (Option Value) :=
  (entries.filter (keys ·.1)).map Prod.snd

def last? (keys : String → Bool) (entries : List (String × Option Value)) : Option Value :=
  (under keys entries).getLast?.join

def lastText? (name : String) (entries : List (String × Option Value)) : Option String :=
  if name = "style" then (((last? (· = "style") entries).bind Style.ofValue?).map Style.css).filter (· ≠ "")
  else if name ∈ Rendering.unwritten then none
  else (last? (Element.domName · = name) entries).bind (Rendering.attributeText? encode)

def texts (name : String) (attributes : List (String × String)) : List String :=
  (attributes.filter (·.1 = name)).map Prod.snd

structure FollowsLast (entries : List (String × Option Value)) (props : Props) : Prop where
  style : props.style = (last? (· = "style") entries).bind Style.ofValue?
  children : props.children = (last? (· = "children") entries).bind Value.string?
  attributes : ∀ name, texts name (Rendering.attributeList encode props) = (lastText? encode name entries).toList

-- An entry under some keys that does something, though others stand behind it; these all do nothing about it.
def Outlives (keys : String → Bool) (acts idle : Option Value → Prop) (entries : List (String × Option Value)) : Prop :=
  ∃ before entry behind, entries = before ++ entry :: behind ∧ keys entry.1 = true ∧ acts entry.2 ∧
    (∃ later ∈ behind, keys later.1 = true) ∧ ∀ later ∈ behind, keys later.1 = true → idle later.2

theorem outlives_iff {keys : String → Bool} {acts idle : Option Value → Prop} {entries : List (String × Option Value)} :
    Outlives keys acts idle entries ↔ ∃ before value behind, under keys entries = before ++ value :: behind ∧
      acts value ∧ behind ≠ [] ∧ ∀ later ∈ behind, idle later := by
  constructor
  · rintro ⟨before, entry, behind, rfl, here, acts, ⟨later, member, there⟩, idle⟩
    refine ⟨under keys before, entry.2, under keys behind, ?_, acts, ?_, ?_⟩
    · simp [under, here]
    · exact List.ne_nil_of_mem (List.mem_map_of_mem (List.mem_filter.mpr ⟨member, there⟩))
    · intro value inside
      obtain ⟨other, is, rfl⟩ := List.mem_map.mp inside
      exact idle other (List.mem_filter.mp is).1 (List.mem_filter.mp is).2
  · rintro ⟨before, value, behind, is, acts, more, idle⟩
    obtain ⟨one, two, split, -, two_is⟩ := List.map_eq_append_iff.mp is
    obtain ⟨entry, three, rfl, rfl, rfl⟩ := List.map_eq_cons_iff.mp two_is
    obtain ⟨front, rest, rfl, -, rest_is⟩ := List.filter_eq_append_iff.mp split
    obtain ⟨passed, back, rfl, -, here, rfl⟩ := List.filter_eq_cons_iff.mp rest_is
    obtain ⟨later, member⟩ := List.exists_mem_of_ne_nil _ more
    obtain ⟨other, inside, rfl⟩ := List.mem_map.mp member
    refine ⟨front ++ passed, entry, back, by simp, here, acts,
      ⟨other, (List.mem_filter.mp inside).1, (List.mem_filter.mp inside).2⟩, fun last there name => ?_⟩
    exact idle last.2 (List.mem_map_of_mem (List.mem_filter.mpr ⟨there, name⟩))

-- An entry that shows, though another one with the same key should have replaced it.
inductive Survives (entries : List (String × Option Value)) : Prop
  | style : Outlives (· = "style") (fun v => v.bind Style.ofValue? ≠ none) (· = none) entries → Survives entries
  | child : Outlives (· = "children") (fun v => v.bind Value.string? ≠ none) (fun v => v.bind Value.string? = none)
      entries → Survives entries
  | text {name : String} : name ∉ Rendering.unwritten →
      Outlives (Element.domName · = name) (fun v => v.bind (Rendering.attributeText? encode) ≠ none) (fun _ => True)
      entries → Survives entries

section

variable {β : Type} {encode}

def pick (keys : String → Bool) (f : Value → Option β) (values : List (String × Value)) : List β :=
  values.filterMap fun e => if keys e.1 then f e.2 else none

def understood (entries : List (String × Option Value)) : List (String × Value) :=
  entries.filterMap fun e => e.2.map (e.1, ·)

theorem entriesOf_cons (n : Node) (ns : List Node) :
    Value.entriesOf (n :: ns) = ((property? n).bind fun e => e.2.map (e.1, ·)).toList ++ Value.entriesOf ns := by
  rw [Value.entriesOf.eq_def]
  split
  next => contradiction
  next span key value rest is =>
    obtain ⟨rfl, rfl⟩ := List.cons.inj is
    rw [property?]
    cases Value.keyText? key with
    | none => rfl
    | some k => cases Value.ofNode? value <;> rfl
  next other rest no_property is =>
    obtain ⟨rfl, rfl⟩ := List.cons.inj is
    have nothing : property? n = none := by
      unfold property?
      split
      next span key value => exact (no_property span key value rfl).elim
      next => rfl
    rw [nothing]
    rfl

theorem entriesOf_eq (properties : List Node) : Value.entriesOf properties = understood (entries properties) := by
  induction properties with
  | nil => rfl
  | cons n properties ih =>
      have first : entries (n :: properties) = (property? n).toList ++ entries properties := by
        rw [entries, List.filterMap_cons]
        cases property? n <;> rfl
      rw [entriesOf_cons, ih, first]
      cases property? n with
      | none => rfl
      | some e =>
          rw [Option.bind_some, Option.toList_some, List.singleton_append, understood, understood, List.filterMap_cons]
          cases e.2 <;> rfl

theorem pick_understood (keys : String → Bool) (f : Value → Option β) (entries : List (String × Option Value)) :
    pick keys f (understood entries) = (under keys entries).filterMap (·.bind f) := by
  rw [pick, understood, under, List.filterMap_filterMap, List.filterMap_map, List.filterMap_filter]
  refine List.filterMap_congr fun e _ => ?_
  cases value : e.2 <;> simp [value]

theorem ofValues_concat (values : List (String × Value)) (e : String × Value) (children : Option String) :
    ofValues (values ++ [e]) children = (ofValues values children).add e.1 e.2 := by
  rw [ofValues, List.foldl_append]
  rfl

theorem pick_concat (keys : String → Bool) (f : Value → Option β) (values : List (String × Value))
    (e : String × Value) : pick keys f (values ++ [e]) = pick keys f values ++ (if keys e.1 then f e.2 else none).toList := by
  rw [pick, List.filterMap_append, List.filterMap_cons, List.filterMap_nil]
  cases (if keys e.1 then f e.2 else none) <;> rfl

theorem style_add (props : Props) (key : String) (value : Value) :
    (props.add key value).style = if key = "style" then Style.ofValue? value else props.style := by
  unfold add
  split
  · rfl
  · split
    · split <;> rfl
    · rfl

theorem children_add (props : Props) (key : String) (value : Value) :
    (props.add key value).children = if key = "children" then value.string?.or props.children else props.children := by
  unfold add
  split
  · next style => rw [style, if_neg (by decide)]
  · split
    · cases value <;> rfl
    · rfl

theorem style_ofValues (values : List (String × Value)) (children : Option String) :
    (ofValues values children).style = (pick (· = "style") some values).getLast?.bind Style.ofValue? := by
  induction values using List.reverseRecOn with
  | nil => rfl
  | append_singleton values e ih =>
      rw [ofValues_concat, pick_concat, style_add]
      by_cases style : e.1 = "style"
      · simp [style]
      · simp [style, ih]

theorem children_ofValues (values : List (String × Value)) :
    (ofValues values none).children = (pick (· = "children") Value.string? values).getLast? := by
  induction values using List.reverseRecOn with
  | nil => rfl
  | append_singleton values e ih =>
      rw [ofValues_concat, pick_concat, children_add]
      by_cases text : e.1 = "children"
      · cases e.2.string? <;> simp [text, ih]
      · simp [text, ih]

theorem texts_append (name : String) (before behind : List (String × String)) :
    texts name (before ++ behind) = texts name before ++ texts name behind := by
  rw [texts, List.filter_append, List.map_append]
  rfl

theorem texts_of_other {name : String} {attributes : List (String × String)} (other : ∀ a ∈ attributes, a.1 ≠ name) :
    texts name attributes = [] := by
  have nothing : attributes.filter (·.1 = name) = [] :=
    List.filter_eq_nil_iff.mpr fun a member => by simpa using other a member
  rw [texts, nothing, List.map_nil]

def attribute? (encode : Value → String) (e : String × Value) : Option (String × String) :=
  if e.1 ∈ Rendering.unwritten then none else (Rendering.attributeText? encode e.2).map (Element.domName e.1, ·)

theorem name_of_attribute? {e : String × Value} {a : String × String} (is : attribute? encode e = some a) :
    a.1 = Element.domName e.1 ∧ a.1 ∉ Rendering.unwritten := by
  rw [attribute?] at is
  split at is
  · cases is
  · next written =>
    obtain ⟨text, -, rfl⟩ := Option.map_eq_some_iff.mp is
    refine ⟨rfl, ?_⟩
    dsimp only
    rcases domName_cases e.1 with ⟨-, same⟩ | ⟨-, same⟩
    · rw [same]
      decide
    · rwa [same]

theorem attributeList_ofValues (values : List (String × Value)) (children : Option String) :
    Rendering.attributeList encode (ofValues values children) = values.filterMap (attribute? encode) ++
      (((ofValues values children).style.map Style.css).filter (· ≠ "")).toList.map ("style", ·) := by
  have written : (values.filter fun p => p.1 ≠ "style" && p.1 ≠ "children").filterMap (attribute? encode) =
      values.filterMap (attribute? encode) := by
    rw [List.filterMap_filter]
    refine List.filterMap_congr fun e _ => ?_
    by_cases style : e.1 = "style"
    · simp [attribute?, style, Rendering.unwritten]
    by_cases text : e.1 = "children"
    · simp [attribute?, text, Rendering.unwritten]
    · simp [style, text]
  rw [← written, ← values_ofValues values children, ← Rendering.style_asked]
  rfl

theorem unwritten_domName {key : String} (unwritten : key ∈ Rendering.unwritten) : Element.domName key = key :=
  if_neg fun same => absurd unwritten (by rw [same]; decide)

theorem texts_values (values : List (String × Value)) {name : String} (written : name ∉ Rendering.unwritten) :
    texts name (values.filterMap (attribute? encode)) =
      pick (Element.domName · = name) (Rendering.attributeText? encode) values := by
  induction values using List.reverseRecOn with
  | nil => rfl
  | append_singleton values e ih =>
      have last : texts name ([e].filterMap (attribute? encode)) =
          (if Element.domName e.1 = name then Rendering.attributeText? encode e.2 else none).toList := by
        by_cases named : Element.domName e.1 = name
        · have free : e.1 ∉ Rendering.unwritten := fun here => written (named ▸ (unwritten_domName here).symm ▸ here)
          cases text : Rendering.attributeText? encode e.2 <;> simp [attribute?, texts, free, text, named]
        · rw [if_neg named]
          refine texts_of_other fun a member => ?_
          obtain ⟨other, inside, is⟩ := List.mem_filterMap.mp member
          rw [List.mem_singleton.mp inside] at is
          rwa [(name_of_attribute? is).1]
      rw [List.filterMap_append, texts_append, ih, last, pick_concat]
      simp

theorem texts_attributeList (values : List (String × Value)) (children : Option String) (name : String) :
    texts name (Rendering.attributeList encode (ofValues values children)) =
      if name = "style" then (((ofValues values children).style.map Style.css).filter (· ≠ "")).toList
      else if name ∈ Rendering.unwritten then []
      else pick (Element.domName · = name) (Rendering.attributeText? encode) values := by
  have unwritten {name : String} (here : name ∈ Rendering.unwritten) :
      texts name (values.filterMap (attribute? encode)) = [] := by
    refine texts_of_other fun a member same => ?_
    obtain ⟨e, -, is⟩ := List.mem_filterMap.mp member
    exact (name_of_attribute? is).2 (same ▸ here)
  rw [attributeList_ofValues, texts_append]
  by_cases style : name = "style"
  · rw [if_pos style, style, unwritten (by decide), List.nil_append]
    cases ((ofValues values children).style.map Style.css).filter (· ≠ "") <;> rfl
  · have none_styled : texts name (((((ofValues values children).style.map Style.css).filter (· ≠ "")).toList.map
        ("style", ·))) = [] := by
      refine texts_of_other fun a member same => style ?_
      obtain ⟨css, -, rfl⟩ := List.mem_map.mp member
      exact same.symm
    rw [if_neg style, none_styled, List.append_nil]
    by_cases here : name ∈ Rendering.unwritten
    · rw [if_pos here, unwritten here]
    · rw [if_neg here, texts_values values here]

end

section

variable {encode} {entries : List (String × Option Value)}

theorem last?_bind {β : Type} (keys : String → Bool) (f : Value → Option β) :
    (last? keys entries).bind f = (under keys entries).getLast?.bind fun v => v.bind f := by
  rw [last?]
  cases (under keys entries).getLast? <;> rfl

theorem style_follows_iff :
    (ofValues (understood entries) none).style = (last? (· = "style") entries).bind Style.ofValue? ↔
    ¬ Outlives (· = "style") (fun v => v.bind Style.ofValue? ≠ none) (· = none) entries := by
  have given : (under (· = "style") entries).filterMap (·.bind some) = (under (· = "style") entries).filterMap id :=
    List.filterMap_congr fun v _ => by cases v <;> rfl
  rw [style_ofValues, pick_understood, given, last?_bind, outlives_iff]
  exact last_filterMap_iff id Style.ofValue? _

theorem children_follows_iff :
    (ofValues (understood entries) none).children = (last? (· = "children") entries).bind Value.string? ↔
    ¬ Outlives (· = "children") (fun v => v.bind Value.string? ≠ none) (fun v => v.bind Value.string? = none)
      entries := by
  have kept := last_filterMap_iff (fun v : Option Value => v.bind Value.string?) some (under (· = "children") entries)
  simp only [Option.bind_fun_some] at kept
  rw [children_ofValues, pick_understood, last?_bind, outlives_iff]
  exact kept

theorem texts_follow_iff (name : String) :
    (under (Element.domName · = name) entries).filterMap (·.bind (Rendering.attributeText? encode)) =
      ((last? (Element.domName · = name) entries).bind (Rendering.attributeText? encode)).toList ↔
    ¬ Outlives (Element.domName · = name) (fun v => v.bind (Rendering.attributeText? encode) ≠ none) (fun _ => True)
      entries := by
  rw [last?_bind, filterMap_eq_last_iff, outlives_iff]
  simp

end

/-- The props that are read off an object literal are those of the last entry under each key, the style object, the child
and the one attribute of each name, exactly if no entry outlives the one that should replace it: neither a text of an
attribute another entry of that name, nor a style a later one that is not understood, nor a text among the children
a later one that is none. -/
theorem ofProperties_follows_iff (encode : Value → String) (properties : List Node) :
    FollowsLast encode (entries properties) (ofProperties properties) ↔ ¬ Survives encode (entries properties) := by
  have read : ofProperties properties = ofValues (understood (entries properties)) none :=
    congrArg (ofValues · none) (entriesOf_eq properties)
  rw [read]
  generalize entries properties = entries
  constructor
  · rintro ⟨style, children, attributes⟩ survives
    cases survives with
    | style outlives => exact style_follows_iff.mp style outlives
    | child outlives => exact children_follows_iff.mp children outlives
    | @text name written outlives =>
        have other : name ≠ "style" := fun same => written (by rw [same]; decide)
        have same := attributes name
        rw [texts_attributeList, lastText?, if_neg other, if_neg written, if_neg other, if_neg written,
          pick_understood] at same
        exact (texts_follow_iff name).mp same outlives
  · intro nothing
    have style := style_follows_iff.mpr fun outlives => nothing (.style outlives)
    have children := children_follows_iff.mpr fun outlives => nothing (.child outlives)
    refine ⟨style, children, fun name => ?_⟩
    rw [texts_attributeList, lastText?]
    by_cases other : name = "style"
    · rw [if_pos other, if_pos other, style]
    by_cases unwritten : name ∈ Rendering.unwritten
    · rw [if_neg other, if_neg other, if_pos unwritten, if_pos unwritten, Option.toList_none]
    · rw [if_neg other, if_neg other, if_neg unwritten, if_neg unwritten, pick_understood]
      exact (texts_follow_iff name).mpr fun outlives => nothing (.text unwritten outlives)

def literal? (object : String) : Option (List Node) :=
  (Script.parse? (.ofPage "page.js") ("h(C, " ++ object ++ ");")).bind fun tree =>
    (Construction.all ["h"] [("C", ⟨"C", "c"⟩)] tree).head?.map (·.properties)

def repeating : String :=
  "\x7b title: \"a\", children: \"b\", style: \x7b top: 1 \x7d, title: \"c\", children: f(), style: s.t \x7d"

theorem ofProperties_repeating : ∃ properties, literal? repeating = some properties ∧
    Rendering.attributes Value.Envelope.encode (ofProperties properties) = " title=\"a\" title=\"c\" style=\"top: 1px;\"" ∧
    (ofProperties properties).children = some "b" ∧
    ¬ FollowsLast Value.Envelope.encode (entries properties) (ofProperties properties) := by
  have read : ((literal? repeating).map fun properties =>
      (Rendering.attributes Value.Envelope.encode (ofProperties properties), (ofProperties properties).children,
        (last? (· = "children") (entries properties)).isNone)) =
      some (" title=\"a\" title=\"c\" style=\"top: 1px;\"", some "b", true) := by decide +kernel
  obtain ⟨properties, is, parts⟩ := Option.map_eq_some_iff.mp read
  rw [Prod.mk.injEq, Prod.mk.injEq] at parts
  obtain ⟨attributes, children, last⟩ := parts
  refine ⟨properties, is, attributes, children, fun follows => ?_⟩
  have same := follows.children
  rw [children, Option.isNone_iff_eq_none.mp last] at same
  cases same

end Props
end Prerender
