import Prerender.Path
import Prerender.Proofs.Text.Search

set_option autoImplicit false

namespace Prerender

namespace Path

structure IsName (name : String) : Prop where
  single : '/' ∉ name.toList
  counts : component? name.toList = some (.name name)

instance (name : String) : Decidable (IsName name) :=
  decidable_of_iff ('/' ∉ name.toList ∧ component? name.toList = some (.name name))
    ⟨fun ⟨single, counts⟩ => ⟨single, counts⟩, fun ⟨single, counts⟩ => ⟨single, counts⟩⟩

-- The components that a path passes; `components` begins with a mark of where it starts.
def passed (path : String) : List Component := (pieces path).filterMap component?

def advance (here : List String) : Component → List String
  | .root => []
  | .current => here
  | .parent => here.dropLast
  | .name text => here ++ [text]

def place (here : List String) (path : String) : List String := (passed path).foldl advance (start here path)

def stops : List String → List Component → List (List String)
  | _, [] => []
  | here, c :: cs => advance here c :: stops (advance here c) cs

def route (here : List String) (path : String) : List (List String) := stops (start here path) (passed path)

def under (base : String) (names : List String) : String := names.foldl join base

structure Plain (path : String) : Prop where
  absolute : isAbsolute path = true
  straight : ∀ piece ∈ pieces path, piece ≠ ['.'] ∧ piece ≠ ['.', '.']

instance (path : String) : Decidable (Plain path) :=
  decidable_of_iff (isAbsolute path = true ∧ ∀ piece ∈ pieces path, piece ≠ ['.'] ∧ piece ≠ ['.', '.'])
    ⟨fun ⟨absolute, straight⟩ => ⟨absolute, straight⟩, fun ⟨absolute, straight⟩ => ⟨absolute, straight⟩⟩

variable {base name path : String} {here names : List String}

theorem component?_nil : component? [] = none := rfl

theorem IsName.ne_nil (is : IsName name) : name.toList ≠ [] := by
  intro empty
  have counts := is.counts
  rw [empty] at counts
  cases counts

theorem IsName.ne_dot (is : IsName name) : name.toList ≠ ['.'] := by
  intro dot
  have counts := is.counts
  rw [dot] at counts
  cases counts

theorem IsName.relative (is : IsName name) : isAbsolute name = false := by
  rw [isAbsolute, beq_eq_false_iff_ne]
  exact fun first => is.single (List.mem_of_mem_head? (by rw [first]; exact rfl))

theorem pieces_eq_of_single {text : String} (single : '/' ∉ text.toList) : pieces text = [text.toList] :=
  Text.splitOn_of_none fun _ here => beq_eq_false_iff_ne.mpr fun same => single (same ▸ here)

theorem pieces_ne_nil (path : String) : pieces path ≠ [] := Text.splitOn_ne_nil _ _

theorem eq_of_pieces {path other : String} (same : pieces path = pieces other) : path = other := by
  have only (d : Char) (cuts : (d == '/') = true) : d = '/' := beq_iff_eq.mp cuts
  rw [← String.toList_inj, ← Text.join_splitOn only path.toList, ← Text.join_splitOn only other.toList]
  exact congrArg _ same

def stem (base : String) : List (List Char) :=
  if (pieces base).getLast? = some [] then (pieces base).dropLast else pieces base

theorem pieces_eq_stem (base : String) : pieces base = stem base ∨ pieces base = stem base ++ [[]] := by
  unfold stem
  split
  · next last => exact .inr (List.dropLast_append_getLast? [] last).symm
  · exact .inl rfl

theorem passed_eq_stem (base : String) : passed base = (stem base).filterMap component? := by
  rcases pieces_eq_stem base with is | is
  · rw [passed, is]
  · rw [passed, is, List.filterMap_append]
    exact List.append_nil _

theorem stem_of_slash {base : String} {before : List Char} (is : base.toList = before ++ ['/']) :
    stem base = Text.splitOn (· == '/') before := by
  have split : pieces base = Text.splitOn (· == '/') before ++ [[]] := by
    rw [pieces, is]
    exact Text.splitOn_append rfl before []
  rw [stem, split, if_pos List.getLast?_concat, List.dropLast_concat]

theorem last_piece (cs : List Char) (no_slash : cs.getLast? ≠ some '/') (solid : cs ≠ []) :
    (Text.splitOn (· == '/') cs).getLast? ≠ some [] := by
  induction cs with
  | nil => contradiction
  | cons c cs ih =>
      obtain ⟨piece, pieces, is⟩ := List.exists_cons_of_ne_nil (Text.splitOn_ne_nil (· == '/') cs)
      simp only [Text.splitOn, is]
      cases cs with
      | nil =>
          have other : (c == '/') = false := beq_eq_false_iff_ne.mpr fun same => no_slash (by rw [same]; rfl)
          simp only [Text.splitOn, List.cons.injEq] at is
          simp [other, ← is.1, ← is.2]
      | cons d cs =>
          have rest := ih (by simpa using no_slash) (List.cons_ne_nil d cs)
          rw [is] at rest
          split
          · simpa using rest
          · cases pieces with
            | nil => simp
            | cons next pieces => simpa using rest

theorem pieces_join (relative : isAbsolute path = false) : pieces (join base path) = stem base ++ pieces path := by
  rw [join, if_neg (by simp [relative])]
  split
  · next joined =>
    rcases Bool.or_eq_true_iff.mp joined with empty | slash
    · obtain rfl : base = "" := String.isEmpty_iff.mp empty
      simp [stem, pieces, Text.splitOn]
    · obtain ⟨before, is⟩ := List.getLast?_eq_some_iff.mp (beq_iff_eq.mp slash)
      rw [stem_of_slash is, pieces, String.toList_append, is, List.append_assoc]
      exact Text.splitOn_append rfl before path.toList
  · next apart =>
    simp only [Bool.or_eq_true, not_or, Bool.not_eq_true, beq_eq_false_iff_ne, String.isEmpty_eq_false_iff] at apart
    have solid : base.toList ≠ [] := fun empty => apart.1 (String.toList_eq_nil_iff.mp empty)
    have whole : stem base = pieces base := if_neg (last_piece base.toList (by simpa using apart.2) solid)
    rw [whole, pieces, String.toList_append, String.toList_append, List.append_assoc]
    exact Text.splitOn_append rfl base.toList path.toList

theorem pieces_join_name (base : String) (is : IsName name) : pieces (join base name) = stem base ++ [name.toList] := by
  rw [pieces_join is.relative, pieces_eq_of_single is.single]

theorem stem_join_name (is : IsName name) : stem (join base name) = stem base ++ [name.toList] := by
  rw [stem, pieces_join_name base is, if_neg (by simpa using is.ne_nil)]

theorem stem_under (are : ∀ name ∈ names, IsName name) :
    stem (under base names) = stem base ++ names.map String.toList := by
  induction names generalizing base with
  | nil => exact (List.append_nil _).symm
  | cons name names ih =>
      rw [List.forall_mem_cons] at are
      rw [under, List.foldl_cons]
      refine (ih are.2).trans ?_
      rw [stem_join_name are.1, List.append_assoc]
      rfl

theorem pieces_under (base : String) (are : ∀ name ∈ names, IsName name) (some : names ≠ []) :
    pieces (under base names) = stem base ++ names.map String.toList := by
  obtain ⟨init, last, rfl⟩ := List.eq_nil_or_concat names |>.resolve_left some
  rw [List.concat_eq_append] at are ⊢
  simp only [List.forall_mem_append, List.forall_mem_singleton] at are
  rw [under, List.foldl_append]
  refine (pieces_join_name _ are.2).trans ?_
  rw [show init.foldl join base = under base init from rfl, stem_under are.1, List.map_append, List.append_assoc]
  rfl

theorem counted_names (are : ∀ name ∈ names, IsName name) :
    (names.map String.toList).filterMap component? = names.map .name := by
  rw [List.filterMap_map, ← List.filterMap_eq_map]
  exact List.filterMap_congr fun name member => (are name member).counts

theorem passed_under (are : ∀ name ∈ names, IsName name) :
    passed (under base names) = passed base ++ names.map .name := by
  rw [passed_eq_stem, passed_eq_stem, stem_under are, List.filterMap_append, counted_names are]

theorem foldl_advance (here names : List String) : (names.map Component.name).foldl advance here = here ++ names := by
  induction names generalizing here with
  | nil => exact (List.append_nil here).symm
  | cons name names ih =>
      refine (ih (here ++ [name])).trans ?_
      rw [List.append_assoc]
      rfl

theorem isAbsolute_join (base : String) (relative : isAbsolute path = false) :
    isAbsolute (join base path) = isAbsolute base := by
  rw [join, if_neg (by simp [relative])]
  unfold isAbsolute at relative ⊢
  by_cases empty : base = ""
  · subst empty
    simpa [String.toList_append] using relative
  · have solid : base.toList ≠ [] := fun none => empty (String.toList_eq_nil_iff.mp none)
    split <;> simp only [String.toList_append, List.append_assoc, List.head?_append_of_ne_nil _ solid]

theorem isAbsolute_under (base : String) (are : ∀ name ∈ names, IsName name) :
    isAbsolute (under base names) = isAbsolute base := by
  induction names generalizing base with
  | nil => rfl
  | cons name names ih =>
      rw [List.forall_mem_cons] at are
      exact (ih (join base name) are.2).trans (isAbsolute_join base are.1.relative)

theorem start_join (is : IsName name) : start here (join base name) = start here base := by
  rw [start, isAbsolute_join base is.relative, start]

theorem start_under (are : ∀ name ∈ names, IsName name) : start here (under base names) = start here base := by
  rw [start, isAbsolute_under base are, start]

theorem place_under (are : ∀ name ∈ names, IsName name) : place here (under base names) = place here base ++ names := by
  rw [place, passed_under are, start_under are, List.foldl_append, foldl_advance]
  rfl

theorem under_append (base : String) (names more : List String) :
    under base (names ++ more) = under (under base names) more := List.foldl_append

theorem under_injective {more : List String} (are : ∀ name ∈ names, IsName name)
    (are' : ∀ name ∈ more, IsName name) (same : under base names = under base more) : names = more := by
  have chars := congrArg stem same
  rw [stem_under are, stem_under are', List.append_cancel_left_eq] at chars
  exact List.map_injective_iff.mpr (fun _ _ => String.toList_inj.mp) chars

theorem body_of_root {rest : List (List Char)} (is : pieces path = [] :: rest) (solid : rest ≠ []) :
    body path = (some .root, rest) := by
  obtain ⟨next, rest, rfl⟩ := List.exists_cons_of_ne_nil solid
  unfold body
  rw [is]

theorem body_of_current {rest : List (List Char)} (is : pieces path = ['.'] :: rest) :
    body path = (some .current, rest) := by
  unfold body
  rw [is]
  rfl

theorem body_of_other {first : List Char} {rest : List (List Char)} (is : pieces path = first :: rest)
    (solid : first ≠ []) (other : first ≠ ['.']) : body path = (none, first :: rest) := by
  unfold body
  rw [is]
  split
  · next same => exact absurd (List.cons.inj same).1 solid
  · next same => exact absurd (List.cons.inj same).1 solid
  · next same => exact absurd (List.cons.inj same).1 other
  · rfl

theorem body_cases (path : String) :
    (pieces path = [[]] ∧ body path = (none, [])) ∨
    (∃ rest, pieces path = [] :: rest ∧ rest ≠ [] ∧ body path = (some .root, rest)) ∨
    (∃ rest, pieces path = ['.'] :: rest ∧ body path = (some .current, rest)) ∨
    (∃ first rest, pieces path = first :: rest ∧ first ≠ [] ∧ first ≠ ['.'] ∧ body path = (none, first :: rest)) := by
  obtain ⟨first, rest, is⟩ := List.exists_cons_of_ne_nil (pieces_ne_nil path)
  by_cases empty : first = []
  · subst empty
    by_cases alone : rest = []
    · subst alone
      exact .inl ⟨is, by unfold body; rw [is]⟩
    · exact .inr (.inl ⟨rest, is, alone, body_of_root is alone⟩)
  · by_cases dot : first = ['.']
    · subst dot
      exact .inr (.inr (.inl ⟨rest, is, body_of_current is⟩))
    · exact .inr (.inr (.inr ⟨first, rest, is, empty, dot, body_of_other is empty dot⟩))

theorem passed_body (path : String) : passed path = (body path).2.filterMap component? := by
  unfold passed
  rcases body_cases path with ⟨is, starts⟩ | ⟨rest, is, -, starts⟩ | ⟨rest, is, starts⟩ | ⟨first, rest, is, -, -, starts⟩
  · rw [is, starts]
    rfl
  · rw [is, starts]
    rfl
  · rw [is, starts]
    rfl
  · rw [is, starts]

theorem components_eq (path : String) : components path = (body path).1.toList ++ passed path := by
  rw [passed_body]
  rfl

theorem isAbsolute_of_pieces {first : List Char} {rest : List (List Char)} (is : pieces path = first :: rest) :
    isAbsolute path = (first.isEmpty && !rest.isEmpty) := by
  unfold isAbsolute
  rw [pieces] at is
  cases spelled : path.toList with
  | nil =>
      obtain ⟨rfl, rfl⟩ := List.cons.inj ((congrArg (Text.splitOn (· == '/')) spelled).symm.trans is)
      rfl
  | cons c cs =>
      obtain ⟨piece, pieces, split⟩ := List.exists_cons_of_ne_nil (Text.splitOn_ne_nil (· == '/') cs)
      rw [spelled, Text.splitOn, split] at is
      cases slash : c == '/' with
      | true =>
          obtain ⟨rfl, rfl⟩ := List.cons.inj ((if_pos slash).symm.trans is)
          simpa using slash
      | false =>
          obtain ⟨rfl, rfl⟩ := List.cons.inj ((if_neg (by simp [slash])).symm.trans is)
          simpa using slash

theorem front_cases (path : String) : ((body path).1 = none ∧ isAbsolute path = false) ∨
    ((body path).1 = some .root ∧ isAbsolute path = true) ∨
    ((body path).1 = some .current ∧ isAbsolute path = false) := by
  rcases body_cases path with ⟨is, starts⟩ | ⟨rest, is, given, starts⟩ | ⟨rest, is, starts⟩ |
    ⟨first, rest, is, solid, -, starts⟩ <;> rw [starts, isAbsolute_of_pieces is]
  · exact .inl ⟨rfl, rfl⟩
  · exact .inr (.inl ⟨rfl, by simpa using given⟩)
  · exact .inr (.inr ⟨rfl, rfl⟩)
  · exact .inl ⟨rfl, by simp [solid]⟩

theorem place_eq_components (here : List String) (path : String) :
    place here path = (components path).foldl advance here := by
  have mark : (body path).1.toList.foldl advance here = start here path := by
    rcases front_cases path with ⟨front, absolute⟩ | ⟨front, absolute⟩ | ⟨front, absolute⟩ <;>
      rw [front, start, absolute] <;> rfl
  rw [components_eq, List.foldl_append, mark, place]

theorem stem_cons {first : List Char} {rest : List (List Char)} (is : pieces base = first :: rest)
    (solid : first ≠ [] ∨ rest ≠ []) :
    ∃ kept, stem base = first :: kept ∧ kept.filterMap component? = rest.filterMap component? := by
  rcases pieces_eq_stem base with same | same
  · exact ⟨rest, same.symm.trans is, rfl⟩
  · rw [is] at same
    cases stay : stem base with
    | nil =>
        rw [stay, List.nil_append, List.cons.injEq] at same
        exact absurd solid (by simp [same])
    | cons first' kept =>
        rw [stay, List.cons_append, List.cons.injEq] at same
        refine ⟨kept, by rw [same.1], ?_⟩
        rw [same.2, List.filterMap_append]
        exact (List.append_nil _).symm

theorem body_under (base : String) (are : ∀ name ∈ names, IsName name) (named : names ≠ []) :
    ∃ rest, body (under base names) = ((body base).1, rest ++ names.map String.toList) ∧
      rest.filterMap component? = (body base).2.filterMap component? := by
  have spelled := pieces_under base are named
  have joined : names.map String.toList ≠ [] := by simpa using named
  rcases body_cases base with ⟨is, starts⟩ | ⟨rest, is, solid, starts⟩ | ⟨rest, is, starts⟩ |
    ⟨first, rest, is, solid, other, starts⟩
  · obtain ⟨name, more, rfl⟩ := List.exists_cons_of_ne_nil named
    have is_name := are name List.mem_cons_self
    have nothing : stem base = [] := by simp [stem, is]
    rw [nothing, List.nil_append, List.map_cons] at spelled
    exact ⟨[], by rw [starts, body_of_other spelled is_name.ne_nil is_name.ne_dot]; rfl, by rw [starts]⟩
  · obtain ⟨kept, stays, same⟩ := stem_cons is (.inr solid)
    rw [stays, List.cons_append] at spelled
    exact ⟨kept, by rw [starts, body_of_root spelled (List.append_ne_nil_of_right_ne_nil kept joined)],
      by rw [starts, same]⟩
  · obtain ⟨kept, stays, same⟩ := stem_cons is (.inl (List.cons_ne_nil '.' []))
    rw [stays, List.cons_append] at spelled
    exact ⟨kept, by rw [starts, body_of_current spelled], by rw [starts, same]⟩
  · obtain ⟨kept, stays, same⟩ := stem_cons is (.inl solid)
    rw [stays, List.cons_append] at spelled
    refine ⟨first :: kept, by rw [starts, body_of_other spelled solid other]; rfl, ?_⟩
    rw [starts, List.filterMap_cons, List.filterMap_cons, same]

theorem components_under (are : ∀ name ∈ names, IsName name) :
    components (under base names) = components base ++ names.map .name := by
  by_cases named : names = []
  · subst named
    exact (List.append_nil _).symm
  · obtain ⟨rest, starts, -⟩ := body_under base are named
    rw [components_eq, components_eq, starts, passed_under are, List.append_assoc]

theorem isWithin_iff : isWithin base path = true ↔ components base <+: components path := List.isPrefixOf_iff_prefix

theorem isWithin_under (are : ∀ name ∈ names, IsName name) : isWithin base (under base names) = true := by
  rw [isWithin_iff, components_under are]
  exact List.prefix_append _ _

theorem isNone_of_isName (is : IsName name) : (component? name.toList).isNone = false := by rw [is.counts]; rfl

theorem dropCounted_append (ps more : List (List Char)) (is : IsName name) :
    dropCounted (ps.filterMap component?).length (ps ++ name.toList :: more) = name.toList :: more := by
  induction ps with
  | nil => simp only [List.filterMap_nil, List.length_nil, List.nil_append, dropCounted, isNone_of_isName is,
      Bool.false_eq_true, if_false]
  | cons p ps ih =>
      cases found : component? p with
      | none =>
          rw [List.filterMap_cons_none found, List.cons_append]
          simpa only [dropCounted, found, Option.isNone_none, if_true] using ih
      | some c =>
          rw [List.filterMap_cons_some found, List.cons_append, List.length_cons]
          simpa only [dropCounted, found, Option.isNone_some, Bool.false_eq_true, if_false] using ih

theorem trimEnd_concat (init : List (List Char)) (is : IsName name) : trimEnd (init ++ [name.toList]) = init ++ [name.toList] := by
  rw [trimEnd, List.reverse_concat, List.dropWhile_cons_of_neg (by simp [is.counts]), List.reverse_cons, List.reverse_reverse]

theorem trimEnd_names (are : ∀ name ∈ names, IsName name) (named : names ≠ []) :
    trimEnd (names.map String.toList) = names.map String.toList := by
  obtain ⟨init, last, rfl⟩ := List.eq_nil_or_concat names |>.resolve_left named
  rw [List.concat_eq_append, List.map_append]
  exact trimEnd_concat _ (are last (by simp))

def ofNames (names : List String) : String := ofPieces (names.map String.toList)

theorem pieces_ofNames (are : ∀ name ∈ names, IsName name) (named : names ≠ []) :
    pieces (ofNames names) = names.map String.toList := by
  rw [ofNames, ofPieces, pieces, String.toList_ofList, Text.splitOn_join (c := '/') rfl (by simpa using named),
    List.flatMap_map, ← List.flatMap_pure_eq_map]
  exact List.flatMap_congr fun name member => pieces_eq_of_single (are name member).single

theorem relativeTo?_under (given : base ≠ "") (are : ∀ name ∈ names, IsName name) (named : names ≠ []) :
    relativeTo? base (under base names) = some (ofNames names) := by
  obtain ⟨rest, starts, same⟩ := body_under base are named
  obtain ⟨name, more, rfl⟩ := List.exists_cons_of_ne_nil named
  have behind : (components base).length - (body base).1.toList.length = (rest.filterMap component?).length := by
    rw [components_eq, passed_body, List.length_append, same, Nat.add_sub_cancel_left]
  rw [relativeTo?, if_pos (isWithin_under are), starts]
  simp only [String.isEmpty_iff, if_neg given, behind]
  rw [List.map_cons, dropCounted_append rest _ (are name List.mem_cons_self), ← List.map_cons,
    trimEnd_names are named]
  rfl

theorem join_ofNames (are : ∀ name ∈ names, IsName name) (named : names ≠ []) :
    join base (ofNames names) = under base names := by
  have relative : isAbsolute (ofNames names) = false := by
    obtain ⟨name, more, rfl⟩ := List.exists_cons_of_ne_nil named
    obtain ⟨behind, is⟩ := Text.join_cons ['/'] name.toList (more.map String.toList)
    have is_name := are name List.mem_cons_self
    rw [isAbsolute, ofNames, ofPieces, String.toList_ofList, List.map_cons, is, List.head?_append_of_ne_nil _ is_name.ne_nil]
    exact is_name.relative
  apply eq_of_pieces
  rw [pieces_join relative, pieces_ofNames are named, pieces_under _ are named]

theorem passed_ofPieces {ps : List (List Char)} (single : ∀ piece ∈ ps, '/' ∉ piece) :
    passed (ofPieces ps) = ps.filterMap component? := by
  by_cases empty : ps = []
  · subst empty
    rfl
  · have whole : ps.flatMap (Text.splitOn (· == '/')) = ps := by
      conv_rhs => rw [← List.flatMap_singleton' ps]
      exact List.flatMap_congr fun piece member =>
        Text.splitOn_of_none fun _ here => beq_eq_false_iff_ne.mpr fun same => single piece member (same ▸ here)
    rw [passed, pieces, ofPieces, String.toList_ofList, Text.splitOn_join (c := '/') rfl empty, whole]

theorem passed_root (path : String) : passed ("/" ++ path) = passed path := by
  have cut : pieces ("/" ++ path) = [] :: pieces path := by
    rw [pieces, String.toList_append]
    exact Text.splitOn_append (c := '/') rfl [] path.toList
  rw [passed, cut, List.filterMap_cons_none component?_nil, passed]

theorem counted_trimEnd (ps : List (List Char)) : (trimEnd ps).filterMap component? = ps.filterMap component? := by
  induction ps using List.reverseRecOn with
  | nil => rfl
  | append_singleton init last ih =>
      rw [trimEnd, List.reverse_concat]
      cases found : component? last with
      | none =>
          rw [List.dropWhile_cons_of_pos (by simp [found]), List.filterMap_append, List.filterMap_cons_none found]
          simpa [trimEnd] using ih
      | some c => rw [List.dropWhile_cons_of_neg (by simp [found]), List.reverse_cons, List.reverse_reverse]

theorem trimEnd_begins (ps : List (List Char)) : trimEnd ps <+: ps := by
  rw [← List.reverse_suffix, trimEnd, List.reverse_reverse]
  exact List.dropWhile_suffix _

theorem single_of_mem_pieces (path : String) {piece : List Char} (member : piece ∈ pieces path) : '/' ∉ piece := by
  intro here
  exact absurd (Text.not_of_mem_splitOn member here) (by decide)

theorem mem_pieces_of_mem_body {piece : List Char} (member : piece ∈ (body path).2) : piece ∈ pieces path := by
  rcases body_cases path with ⟨is, starts⟩ | ⟨rest, is, -, starts⟩ | ⟨rest, is, starts⟩ | ⟨first, rest, is, -, -, starts⟩
  · rw [starts] at member
    cases member
  · rw [starts] at member
    exact is ▸ List.mem_cons_of_mem _ member
  · rw [starts] at member
    exact is ▸ List.mem_cons_of_mem _ member
  · rw [starts] at member
    exact is ▸ member

theorem solid_of_body (path : String) (relative : (body path).1 = none) :
    ∀ piece ∈ (body path).2.head?, piece ≠ [] := by
  intro piece first
  rcases body_cases path with ⟨-, starts⟩ | ⟨rest, -, -, starts⟩ | ⟨rest, -, starts⟩ |
    ⟨_, rest, -, solid, -, starts⟩ <;>
    rw [starts] at relative first
  · cases first
  · cases relative
  · cases relative
  · exact Option.some.inj first ▸ solid

theorem isAbsolute_root (path : String) : isAbsolute ("/" ++ path) = true := by
  rw [isAbsolute, String.toList_append]
  rfl

theorem relative_ofPieces {ps : List (List Char)} (single : ∀ piece ∈ ps, '/' ∉ piece)
    (solid : ∀ piece ∈ ps.head?, piece ≠ []) : isAbsolute (ofPieces ps) = false := by
  rw [isAbsolute, ofPieces, String.toList_ofList, beq_eq_false_iff_ne]
  cases ps with
  | nil => nofun
  | cons piece ps =>
      obtain ⟨behind, is⟩ := Text.join_cons ['/'] piece ps
      rw [is, List.head?_append_of_ne_nil _ (solid piece rfl)]
      exact fun first => single piece List.mem_cons_self (List.mem_of_mem_head? first)

theorem single_of_body {front : Option Component} {ps before : List (List Char)}
    (starts : body path = (front, ps)) (begins : before <+: ps) : ∀ piece ∈ before, '/' ∉ piece := fun _ member =>
  single_of_mem_pieces path (mem_pieces_of_mem_body (by rw [starts]; exact begins.subset member))

theorem relative_of_body {ps before : List (List Char)} (starts : body path = (none, ps)) (begins : before <+: ps) :
    isAbsolute (ofPieces before) = false := by
  refine relative_ofPieces (single_of_body starts begins) fun piece first => ?_
  obtain ⟨behind, rfl⟩ := begins
  refine solid_of_body path (by rw [starts]) piece ?_
  rw [starts, List.head?_append, first]
  rfl

def lead (front : Option Component) (ps : List (List Char)) : String :=
  match front with
  | some .current => ofPieces (['.'] :: ps)
  | some .root => "/" ++ ofPieces ps
  | _ => ofPieces ps

theorem parent?_of_body {front : Option Component} {rest : List (List Char)} (is : IsName name)
    (starts : body path = (front, rest ++ [name.toList])) : parent? path = some (lead front (trimEnd rest)) := by
  have reversed : (trimEnd (rest ++ [name.toList])).reverse = name.toList :: rest.reverse := by
    rw [trimEnd_concat rest is, List.reverse_concat]
  simp only [parent?, starts]
  rw [reversed]
  simp only [List.reverse_reverse]
  rcases front with _ | _ | _ <;> rfl

theorem parent?_under (base : String) (are : ∀ name ∈ names, IsName name) (named : names ≠ []) :
    ∃ above, parent? (under base names) = some above ∧ isAbsolute above = isAbsolute base ∧
      passed above = passed base ++ names.dropLast.map .name := by
  obtain ⟨rest, starts, same⟩ := body_under base are named
  obtain ⟨init, last, rfl⟩ := List.eq_nil_or_concat names |>.resolve_left named
  rw [List.concat_eq_append] at are starts ⊢
  rw [List.map_append, List.map_singleton, ← List.append_assoc] at starts
  have begins : trimEnd (rest ++ init.map String.toList) <+: rest ++ init.map String.toList ++ [last.toList] :=
    (trimEnd_begins _).trans (List.prefix_append _ _)
  have counted : (trimEnd (rest ++ init.map String.toList)).filterMap component? = passed base ++ init.map .name := by
    rw [counted_trimEnd, List.filterMap_append, same, ← passed_body,
      counted_names fun name member => are name (List.mem_append_left _ member)]
  have parent := parent?_of_body (are last (by simp)) starts
  have single := single_of_body starts begins
  rw [List.dropLast_concat, ← counted]
  rcases front_cases base with ⟨front, absolute⟩ | ⟨front, absolute⟩ | ⟨front, absolute⟩ <;>
    rw [front] at parent starts <;> rw [absolute]
  · exact ⟨_, parent, relative_of_body starts begins, passed_ofPieces single⟩
  · exact ⟨_, parent, isAbsolute_root _, (passed_root _).trans (passed_ofPieces single)⟩
  · have dotted : ∀ piece ∈ ['.'] :: trimEnd _, '/' ∉ piece := List.forall_mem_cons.mpr ⟨by decide, single⟩
    exact ⟨_, parent, relative_ofPieces dotted (by simp), passed_ofPieces dotted⟩

theorem name_injective : Function.Injective Component.name := fun _ _ same => Component.name.inj same

theorem component?_cases {piece : List Char} (straight : piece ≠ ['.'] ∧ piece ≠ ['.', '.']) :
    component? piece = none ∨ component? piece = some (.name (String.ofList piece)) := by
  unfold component?
  split
  · exact .inl rfl
  · rw [if_neg (by simpa using straight.2)]
    exact .inr rfl

theorem Plain.start_eq (plain : Plain path) (here : List String) : start here path = [] := if_pos plain.absolute

theorem Plain.passed_eq (plain : Plain path) (here : List String) : passed path = (place here path).map .name := by
  have named (ps : List (List Char)) (straight : ∀ piece ∈ ps, piece ≠ ['.'] ∧ piece ≠ ['.', '.']) :
      ∃ names : List String, ps.filterMap component? = names.map .name := by
    induction ps with
    | nil => exact ⟨[], rfl⟩
    | cons piece ps ih =>
        rw [List.forall_mem_cons] at straight
        obtain ⟨names, is⟩ := ih straight.2
        rcases component?_cases straight.1 with found | found
        · exact ⟨names, by rw [List.filterMap_cons_none found, is]⟩
        · exact ⟨String.ofList piece :: names, by rw [List.filterMap_cons_some found, is]; rfl⟩
  obtain ⟨names, is⟩ := named (pieces path) plain.straight
  rw [place, plain.start_eq, show passed path = names.map .name from is, foldl_advance, List.nil_append]

theorem Plain.components_eq (plain : Plain path) (here : List String) :
    components path = .root :: (place here path).map .name := by
  obtain ⟨rest, is⟩ := List.head?_eq_some_iff.mp (beq_iff_eq.mp plain.absolute)
  have cut : pieces path = [] :: Text.splitOn (· == '/') rest := by
    rw [pieces, is]
    exact Text.splitOn_append (c := '/') rfl [] rest
  rw [Path.components_eq, plain.passed_eq here, body_of_root cut (Text.splitOn_ne_nil _ rest)]
  rfl

end Path
end Prerender
