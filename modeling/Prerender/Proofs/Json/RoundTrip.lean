import Prerender.Proofs.Json.Numbers
import Prerender.Proofs.Json.Strings
import Prerender.Text.Search

set_option autoImplicit false

namespace Prerender.Json

mutual
def reading : Json → Option Json
  | .number n => n.reading
  | .array items => (readingItems items).map .array
  | .object members => (readingMembers members).map .object
  | value => some value
def readingItems : List Json → Option (List Json)
  | [] => some []
  | item :: items => do
      let v ← reading item
      let vs ← readingItems items
      return v :: vs
def readingMembers : List (String × Json) → Option (List (String × Json))
  | [] => some []
  | (key, value) :: members => do
      let v ← reading value
      let vs ← readingMembers members
      return (key, v) :: vs
end

def shallow (limit : Nat) (j : Json) : Option Json := if depth j ≤ limit then reading j else none

def readingMember (member : String × Json) : Option (String × Json) :=
  (reading member.2).map fun v => (member.1, v)

def shallowMember (limit : Nat) (member : String × Json) : Option (String × Json) :=
  if depth member.2 ≤ limit then readingMember member else none

def memberText (member : String × Json) : List Char :=
  (Text.Quoted.json member.1).toList ++ ':' :: (render member.2).toList

theorem renderItems_join (items : List Json) :
    (renderItems items).toList = Text.join [','] (items.map fun j => (render j).toList) := by
  induction items with
  | nil => rfl
  | cons item items ih =>
      cases items with
      | nil => rfl
      | cons next items =>
          rw [renderItems, String.toList_append, String.toList_append, ih]
          rfl

theorem renderMembers_join (members : List (String × Json)) :
    (renderMembers members).toList = Text.join [','] (members.map memberText) := by
  have text (key : String) (value : Json) :
      (Text.Quoted.json key ++ ":" ++ render value).toList = memberText (key, value) := by
    rw [String.toList_append, String.toList_append, List.append_assoc]
    rfl
  induction members with
  | nil => rfl
  | cons member members ih =>
      obtain ⟨key, value⟩ := member
      cases members with
      | nil => exact text key value
      | cons next members =>
          rw [renderMembers, String.toList_append, String.toList_append, text, ih]
          rfl

theorem readingItems_mapM (items : List Json) : readingItems items = items.mapM reading := by
  induction items with
  | nil => rfl
  | cons item items ih => rw [readingItems, List.mapM_cons, ih]

theorem readingMembers_mapM (members : List (String × Json)) : readingMembers members = members.mapM readingMember := by
  induction members with
  | nil => rfl
  | cons member members ih =>
      obtain ⟨key, value⟩ := member
      rw [readingMembers, List.mapM_cons, ih, readingMember]
      cases reading value <;> rfl

theorem depthItems_le (limit : Nat) (items : List Json) :
    depthItems items ≤ limit ↔ ∀ j ∈ items, depth j ≤ limit := by
  induction items with
  | nil => simp [depthItems]
  | cons item items ih => rw [depthItems, Nat.max_le, ih, List.forall_mem_cons]

theorem depthMembers_le (limit : Nat) (members : List (String × Json)) :
    depthMembers members ≤ limit ↔ ∀ member ∈ members, depth member.2 ≤ limit := by
  induction members with
  | nil => simp [depthMembers]
  | cons member members ih => rw [depthMembers, Nat.max_le, ih, List.forall_mem_cons]

theorem mapM_within {α β : Type} (fits : α → Prop) [DecidablePred fits] (reads : α → Option β) (xs : List α)
    (all : Prop) [Decidable all] (is : all ↔ ∀ x ∈ xs, fits x) :
    (xs.mapM fun x => if fits x then reads x else none) = if all then xs.mapM reads else none := by
  induction xs generalizing all with
  | nil => rw [if_pos (is.mpr (by simp))]; rfl
  | cons x xs ih =>
      rw [List.mapM_cons, List.mapM_cons, ih (∀ x ∈ xs, fits x) Iff.rfl]
      rw [List.forall_mem_cons] at is
      by_cases first : fits x
      · by_cases others : ∀ x ∈ xs, fits x
        · rw [if_pos first, if_pos others, if_pos (is.mpr ⟨first, others⟩)]
        · rw [if_pos first, if_neg others, if_neg fun yes => others (is.mp yes).2]
          cases reads x <;> rfl
      · rw [if_neg first, if_neg fun yes => first (is.mp yes).1]
        rfl

theorem mapM_shallow (limit : Nat) (items : List Json) :
    items.mapM (shallow limit) = if depthItems items ≤ limit then readingItems items else none := by
  rw [readingItems_mapM]
  exact mapM_within _ _ items _ (depthItems_le limit items)

theorem mapM_shallowMember (limit : Nat) (members : List (String × Json)) :
    members.mapM (shallowMember limit) = if depthMembers members ≤ limit then readingMembers members else none := by
  rw [readingMembers_mapM]
  exact mapM_within _ _ members _ (depthMembers_le limit members)

theorem skipSpace_solid {c : Char} (solid : isSpace c = false) (cs : List Char) : skipSpace (c :: cs) = c :: cs := by
  rw [skipSpace, List.dropWhile_cons_of_neg (by rw [solid]; exact Bool.false_ne_true)]

theorem sequence?_joined {α β : Type} {item : List Char → Option (β × List Char)} {close : Char} {text : α → List Char}
    {reads : α → Option β} (closing : close = ']' ∨ close = '\x7d') (x : α) (xs : List α) (rest : List Char)
    (whole : ∀ y ∈ x :: xs, ∀ after, Ends after →
      item (skipSpace (text y ++ after)) = (reads y).map fun v => (v, after))
    (fuel : Nat) (enough : xs.length < fuel) :
    sequence? item close fuel (Text.join [','] ((x :: xs).map text) ++ close :: rest) =
      ((x :: xs).mapM reads).map fun vs => (vs, rest) := by
  have solid : isSpace close = false := by rcases closing with rfl | rfl <;> rfl
  have ends : Ends (close :: rest) := by
    rintro c ⟨⟩
    exact .inr closing
  have no_comma : ',' ≠ close := by rcases closing with rfl | rfl <;> decide
  have comma (after : List Char) : Ends (',' :: after) := by
    rintro c ⟨⟩
    exact .inl rfl
  induction xs generalizing x fuel with
  | nil =>
      cases fuel with
      | zero => exact absurd enough (Nat.not_lt_zero _)
      | succ fuel =>
          simp only [List.map_cons, List.map_nil, Text.join, sequence?, whole x List.mem_cons_self _ ends,
            List.mapM_cons, List.mapM_nil]
          cases reads x with
          | none => rfl
          | some v => simp [skipSpace_solid solid]
  | cons y ys ih =>
      cases fuel with
      | zero => exact absurd enough (Nat.not_lt_zero _)
      | succ fuel =>
          have others := ih y (fun z here => whole z (List.mem_cons_of_mem x here)) fuel (Nat.lt_of_succ_lt_succ enough)
          rw [List.mapM_cons]
          simp only [List.map_cons, Text.join, List.append_assoc, List.cons_append, List.nil_append, sequence?,
            whole x List.mem_cons_self _ (comma _)] at others ⊢
          cases reads x with
          | none => rfl
          | some v =>
              have comma_solid : isSpace ',' = false := rfl
              simp only [Option.map_some, Option.bind_eq_bind, Option.bind_some, skipSpace_solid comma_solid,
                if_neg no_comma, if_true, others]
              cases (y :: ys).mapM reads <;> rfl

theorem digit_solid {c : Char} (digit : isDigit c = true) : isSpace c = false := by
  have space := isDigit_ne (d := ' ') digit rfl
  have line := isDigit_ne (d := '\n') digit rfl
  have tab := isDigit_ne (d := '\t') digit rfl
  have back := isDigit_ne (d := '\r') digit rfl
  simp [isSpace, space, line, tab, back]

def Opens (c : Char) : Prop := isSpace c = false ∧ c ≠ ']' ∧ c ≠ '\x7d'

theorem write_head (n : Number) :
    ∃ c cs, n.write.toList = c :: cs ∧ Opens c ∧ c ≠ '[' ∧ c ≠ '\x7b' := by
  obtain ⟨c, cs, is, digit | rfl | rfl | rfl⟩ := (written_write n).head
  · exact ⟨c, cs, is, ⟨digit_solid digit, isDigit_ne digit rfl, isDigit_ne digit rfl⟩, isDigit_ne digit rfl,
      isDigit_ne digit rfl⟩
  · exact ⟨'-', cs, is, ⟨rfl, by decide, by decide⟩, by decide, by decide⟩
  · exact ⟨'N', cs, is, ⟨rfl, by decide, by decide⟩, by decide, by decide⟩
  · exact ⟨'i', cs, is, ⟨rfl, by decide, by decide⟩, by decide, by decide⟩

theorem render_head (j : Json) : ∃ c cs, (render j).toList = c :: cs ∧ Opens c := by
  cases j with
  | null => exact ⟨'n', _, rfl, rfl, by decide⟩
  | bool b => cases b with
    | false => exact ⟨'f', _, rfl, rfl, by decide⟩
    | true => exact ⟨'t', _, rfl, rfl, by decide⟩
  | number n =>
      obtain ⟨c, cs, is, opens, -⟩ := write_head n
      exact ⟨c, cs, is, opens⟩
  | string s => exact ⟨'"', _, String.toList_ofList, rfl, by decide⟩
  | array items =>
      rw [render, String.toList_append, String.toList_append]
      exact ⟨'[', _, rfl, rfl, by decide⟩
  | object members =>
      rw [render, String.toList_append, String.toList_append]
      exact ⟨'\x7b', _, rfl, rfl, by decide⟩

theorem skipSpace_render (j : Json) (rest : List Char) :
    skipSpace ((render j).toList ++ rest) = (render j).toList ++ rest := by
  obtain ⟨c, cs, is, opens⟩ := render_head j
  rw [is, List.cons_append, skipSpace_solid opens.1]

theorem value?_scalar {c : Char} (no_array : c ≠ '[') (no_object : c ≠ '\x7b') (limit : Nat) (cs : List Char) :
    value? limit (c :: cs) = scalar? (c :: cs) := by
  cases limit with
  | zero => rfl
  | succ limit =>
      rw [value?]
      · exact fun _ is => no_array (List.cons.inj is).1
      · exact fun _ is => no_object (List.cons.inj is).1

theorem value?_items {c : Char} (opens : Opens c) (limit : Nat) (cs : List Char) :
    value? (limit + 1) ('[' :: c :: cs) =
      (sequence? (value? limit) ']' (cs.length + 2) (c :: cs)).map fun (xs, r) => (.array xs, r) := by
  rw [value?]
  dsimp only
  rw [skipSpace_solid opens.1]
  split
  next is => exact absurd (List.cons.inj is).1 opens.2.1
  next => rfl

theorem value?_members {c : Char} (opens : Opens c) (limit : Nat) (cs : List Char) :
    value? (limit + 1) ('\x7b' :: c :: cs) =
      (sequence? (member? (value? limit)) '\x7d' (cs.length + 2) (c :: cs)).map fun (ms, r) => (.object ms, r) := by
  rw [value?]
  dsimp only
  rw [skipSpace_solid opens.1]
  split
  next is => exact absurd (List.cons.inj is).1 opens.2.2
  next => rfl

theorem scalar?_string (s : String) (rest : List Char) :
    scalar? ((Text.Quoted.json s).toList ++ rest) = some (.string s, rest) := by
  rw [Text.Quoted.json, String.toList_ofList, List.cons_append, List.cons_append, List.append_assoc,
    List.singleton_append]
  rw [scalar?, if_pos rfl, stringRest_escaped]
  simp

theorem length_join (pieces : List (List Char)) : pieces.length ≤ (Text.join [','] pieces).length + 1 := by
  induction pieces with
  | nil => simp
  | cons piece pieces ih =>
      cases pieces with
      | nil => simp
      | cons next pieces =>
          simp only [Text.join, List.length_append, List.length_cons, List.length_nil] at ih ⊢
          omega

theorem join_head (c : Char) (cs : List Char) (pieces : List (List Char)) :
    ∃ t, Text.join [','] ((c :: cs) :: pieces) = c :: t := by
  cases pieces with
  | nil => exact ⟨cs, rfl⟩
  | cons next pieces => exact ⟨_, rfl⟩

-- The fuel that the reader gives to a sequence is the length of all the text behind the opening bracket.
theorem sequence?_opened {α β : Type} {item : List Char → Option (β × List Char)} {close : Char} {text : α → List Char}
    {reads : α → Option β} (closing : close = ']' ∨ close = '\x7d') (x : α) (xs : List α) (rest : List Char)
    (head : ∃ c cs, text x = c :: cs ∧ Opens c)
    (whole : ∀ y ∈ x :: xs, ∀ after, Ends after →
      item (skipSpace (text y ++ after)) = (reads y).map fun v => (v, after)) :
    ∃ c t, Opens c ∧ Text.join [','] ((x :: xs).map text) ++ close :: rest = c :: t ∧
      sequence? item close (t.length + 2) (c :: t) = ((x :: xs).mapM reads).map fun vs => (vs, rest) := by
  obtain ⟨c, cs, is, opens⟩ := head
  obtain ⟨t, joined⟩ := join_head c cs (xs.map text)
  rw [← is, ← List.map_cons] at joined
  have long := length_join ((x :: xs).map text)
  rw [joined, List.length_map] at long
  refine ⟨c, t ++ close :: rest, opens, by rw [joined, List.cons_append], ?_⟩
  rw [← List.cons_append, ← joined]
  refine sequence?_joined closing x xs rest whole _ ?_
  simp only [List.length_append, List.length_cons] at long ⊢
  omega

theorem shallow_scalar {j : Json} (flat : depth j = 0) (limit : Nat) : shallow limit j = reading j := by
  rw [shallow, flat, if_pos (Nat.zero_le limit)]

theorem shallow_array (limit : Nat) (items : List Json) :
    shallow (limit + 1) (.array items) = (items.mapM (shallow limit)).map .array := by
  rw [mapM_shallow, shallow, depth, reading]
  by_cases fits : depthItems items ≤ limit
  · rw [if_pos fits, if_pos (Nat.succ_le_succ fits)]
  · rw [if_neg fits, if_neg fun more => fits (Nat.le_of_succ_le_succ more)]
    rfl

theorem shallow_object (limit : Nat) (members : List (String × Json)) :
    shallow (limit + 1) (.object members) = (members.mapM (shallowMember limit)).map .object := by
  rw [mapM_shallowMember, shallow, depth, reading]
  by_cases fits : depthMembers members ≤ limit
  · rw [if_pos fits, if_pos (Nat.succ_le_succ fits)]
  · rw [if_neg fits, if_neg fun more => fits (Nat.le_of_succ_le_succ more)]
    rfl

theorem value?_array (limit : Nat) (items : List Json) (rest : List Char)
    (whole : ∀ j ∈ items, ∀ after, Ends after →
      value? limit ((render j).toList ++ after) = (shallow limit j).map fun v => (v, after)) :
    value? (limit + 1) ((render (.array items)).toList ++ rest) =
      (shallow (limit + 1) (.array items)).map fun v => (v, rest) := by
  rw [shallow_array, render, String.toList_append, String.toList_append, renderItems_join]
  cases items with
  | nil => rfl
  | cons item items =>
      obtain ⟨c, t, opens, text, read⟩ := sequence?_opened (.inl rfl) item items rest (render_head item)
        fun j here after ends => (congrArg (value? limit) (skipSpace_render j after)).trans (whole j here after ends)
      rw [List.append_assoc, List.append_assoc]
      change value? (limit + 1) ('[' :: (_ ++ ']' :: rest)) = _
      rw [text, value?_items opens, read, Option.map_map, Option.map_map]
      rfl

theorem memberText_head (member : String × Json) : ∃ c cs, memberText member = c :: cs ∧ Opens c := by
  rw [memberText, Text.Quoted.json, String.toList_ofList]
  exact ⟨'"', _, rfl, rfl, by decide⟩

theorem member?_text (limit : Nat) (member : String × Json) (after : List Char)
    (whole : value? limit ((render member.2).toList ++ after) = (shallow limit member.2).map fun v => (v, after)) :
    member? (value? limit) (skipSpace (memberText member ++ after)) =
      (shallowMember limit member).map fun m => (m, after) := by
  obtain ⟨key, value⟩ := member
  have text : memberText (key, value) ++ after =
      '"' :: (key.toList.flatMap Text.Quoted.jsonChar ++ '"' :: ':' :: ((render value).toList ++ after)) := by
    simp [memberText, Text.Quoted.json]
  have quote : isSpace '"' = false := rfl
  have colon : isSpace ':' = false := rfl
  have kept : shallowMember limit (key, value) = (shallow limit value).map fun v => (key, v) := by
    rw [shallowMember, shallow]
    split <;> rfl
  rw [text, skipSpace_solid quote, member?, stringRest_escaped]
  simp only [Option.bind_eq_bind, Option.bind_some, skipSpace_solid colon, skipSpace_render, whole, kept,
    String.ofList_toList]
  cases shallow limit value <;> rfl

theorem value?_object (limit : Nat) (members : List (String × Json)) (rest : List Char)
    (whole : ∀ member ∈ members, ∀ after, Ends after →
      value? limit ((render member.2).toList ++ after) = (shallow limit member.2).map fun v => (v, after)) :
    value? (limit + 1) ((render (.object members)).toList ++ rest) =
      (shallow (limit + 1) (.object members)).map fun v => (v, rest) := by
  rw [shallow_object, render, String.toList_append, String.toList_append, renderMembers_join]
  cases members with
  | nil => rfl
  | cons member members =>
      obtain ⟨c, t, opens, text, read⟩ := sequence?_opened (.inr rfl) member members rest (memberText_head member)
        fun m here after ends => member?_text limit m after (whole m here after ends)
      rw [List.append_assoc, List.append_assoc]
      change value? (limit + 1) ('\x7b' :: (_ ++ '\x7d' :: rest)) = _
      rw [text, value?_members opens, read, Option.map_map, Option.map_map]
      rfl

mutual
theorem value?_render : (j : Json) → (limit : Nat) → (rest : List Char) → Ends rest →
    value? limit ((render j).toList ++ rest) = (shallow limit j).map fun v => (v, rest)
  | .null, limit, rest, ends => by
      rw [shallow_scalar rfl]
      exact value?_scalar (by decide) (by decide) limit _
  | .bool true, limit, rest, ends => by
      rw [shallow_scalar rfl]
      exact value?_scalar (by decide) (by decide) limit _
  | .bool false, limit, rest, ends => by
      rw [shallow_scalar rfl]
      exact value?_scalar (by decide) (by decide) limit _
  | .number n, limit, rest, ends => by
      obtain ⟨c, cs, is, -, no_array, no_object⟩ := write_head n
      have read := scalar?_write n ends
      rw [shallow_scalar rfl, reading, render, ← read, is, List.cons_append]
      exact value?_scalar no_array no_object limit _
  | .string s, limit, rest, ends => by
      rw [shallow_scalar rfl, render]
      refine Eq.trans ?_ (scalar?_string s rest)
      rw [Text.Quoted.json, String.toList_ofList]
      exact value?_scalar (by decide) (by decide) limit _
  | .array items, 0, rest, ends => by
      rw [render, String.toList_append, String.toList_append]
      rfl
  | .array items, limit + 1, rest, ends => value?_array limit items rest (value?_renderItems items limit)
  | .object members, 0, rest, ends => by
      rw [render, String.toList_append, String.toList_append]
      rfl
  | .object members, limit + 1, rest, ends => value?_object limit members rest (value?_renderMembers members limit)
theorem value?_renderItems : (items : List Json) → (limit : Nat) → ∀ j ∈ items, ∀ rest, Ends rest →
    value? limit ((render j).toList ++ rest) = (shallow limit j).map fun v => (v, rest)
  | item :: items, limit, j, here, rest, ends => by
      rcases List.mem_cons.mp here with is | later
      · rw [is]
        exact value?_render item limit rest ends
      · exact value?_renderItems items limit j later rest ends
theorem value?_renderMembers : (members : List (String × Json)) → (limit : Nat) → ∀ member ∈ members, ∀ rest,
    Ends rest → value? limit ((render member.2).toList ++ rest) = (shallow limit member.2).map fun v => (v, rest)
  | (key, value) :: members, limit, member, here, rest, ends => by
      rcases List.mem_cons.mp here with is | later
      · rw [is]
        exact value?_render value limit rest ends
      · exact value?_renderMembers members limit member later rest ends
end

theorem parse?_render (limit : Nat) (j : Json) :
    parse? limit (render j) = if depth j ≤ limit then (reading j).map merge else none := by
  have read := value?_render j limit [] Ends.nil
  have skipped := skipSpace_render j []
  rw [List.append_nil] at read skipped
  rw [parse?, parseRaw?, skipped, read, shallow]
  split
  · cases reading j <;> rfl
  · rfl

end Prerender.Json
