import Prerender.Proofs.Script.Place
import Prerender.Script.Parse

set_option autoImplicit false

/-!
What a name means in a module. It belongs to the innermost scope around it that declares it, be it before or
after. A module is strict code: a function belongs to the block in which it stands, and nothing that runs
adds a name to a scope. Of what only a dialect with types declares, namespaces and enumerations count, since
there are values by their names; types do not.
-/
namespace Prerender.Script.Node

def entryNames : Node → List String
  | mk .specifier _ parts => boundNamesOf parts
  | n => boundNames n

mutual
def blockNames : Node → List String
| mk (.variableList false) _ declarators => boundNamesOf declarators
| mk (.function name) _ _ => name.toList
| mk (.classDefinition name) _ _ => name.toList
| mk (.moduleBlock names) _ _ => names.head?.toList
| mk .enumeration _ (name :: _) => boundNames name
| mk .importAlias _ (name :: _) => boundNames name
| mk (.importDeclaration _) _ entries => entries.flatMap entryNames
| mk .labeled _ parts => blockNamesOf parts
| mk .decorated _ parts => blockNamesOf parts
| mk .exportDeclaration _ parts => blockNamesOf parts
| mk .exportDefault _ parts => blockNamesOf parts
| _ => []
def blockNamesOf : List Node → List String
| [] => []
| n :: ns => n.blockNames ++ blockNamesOf ns
end

mutual
-- For the function in which the statement stands, at whatever depth: the names behind a `var`.
def hoistedNames : Node → List String
| mk (.variableList true) _ declarators => boundNamesOf declarators
| mk (.function _) _ _ => []
| mk .arrow _ _ => []
| mk (.classDefinition _) _ _ => []
| mk (.moduleBlock _) _ _ => []
| mk _ _ parts => hoistedNamesOf parts
def hoistedNamesOf : List Node → List String
| [] => []
| n :: ns => n.hoistedNames ++ hoistedNamesOf ns
end

def declaredNames (n : Node) : List String := n.blockNames ++ n.hoistedNames

theorem mem_boundNamesOf {name : String} {ns : List Node} : name ∈ boundNamesOf ns ↔ ∃ n ∈ ns, name ∈ boundNames n := by
  induction ns with
  | nil => simp [boundNamesOf]
  | cons n ns ih => simp [boundNamesOf, ih]

theorem mem_blockNamesOf {name : String} {ns : List Node} : name ∈ blockNamesOf ns ↔ ∃ n ∈ ns, name ∈ n.blockNames := by
  induction ns with
  | nil => simp [blockNamesOf]
  | cons n ns ih => simp [blockNamesOf, ih]

theorem mem_hoistedNamesOf {name : String} {ns : List Node} : name ∈ hoistedNamesOf ns ↔ ∃ n ∈ ns, name ∈ n.hoistedNames := by
  induction ns with
  | nil => simp [hoistedNamesOf]
  | cons n ns ih => simp [hoistedNamesOf, ih]

def parameterName : Node → List String
  | mk .decorated _ parts => boundNamesOf parts
  | n => boundNames n

def parameterNames : List Node → List String
  | _ :: parameters :: _ => parameters.parts.flatMap parameterName
  | _ => []

def memberName? : Node → Option String
  | mk .property _ (key :: _) =>
      match key.kind with
      | .name text => some text
      | .string text => some text
      | .template [text] => text
      | _ => none
  | _ => none

def caseNames : Node → List String
  | mk _ _ (_ :: statements) => blockNamesOf statements
  | _ => []

def statementNames : String → Nat → List Node → List String
  | "catch", _, parameter :: _ => boundNames parameter
  | "for", _, mk (.variableList false) _ declarators :: _ => boundNamesOf declarators
  | "switch", _ + 1, _ :: cases => cases.flatMap caseNames
  | _, _, _ => []

-- The names that a node declares for its part `i`. What `var` declares in the body of a function is not
-- seen by its parameters.
def scopeNames (n : Node) (i : Nat) : List String :=
  let hoisted := (n.parts[i]?.map hoistedNames).getD []
  match n with
  | mk .program _ parts => blockNamesOf parts ++ hoistedNamesOf parts
  | mk .block _ parts => blockNamesOf parts
  | mk (.function name) _ parts => name.toList ++ parameterNames parts ++ hoisted
  | mk .arrow _ parts => parameterNames parts ++ hoisted
  | mk (.classDefinition name) _ _ => name.toList ++ hoisted
  | mk (.moduleBlock names) _ _ => names ++ hoisted
  | mk .enumeration _ parts => parts.filterMap memberName?
  | mk (.statement keyword) _ parts => statementNames keyword i parts
  | _ => []

-- The scope that a name at a place belongs to, by the place of the node that opens it.
def scope? (name : String) : Node → List Nat → Option (List Nat)
  | _, [] => none
  | n, i :: p =>
      match n.parts[i]?.bind fun part => part.scope? name p with
      | some s => some (i :: s)
      | none => if name ∈ n.scopeNames i then some [] else none

def Shadowed (n : Node) (name : String) (p : List Nat) : Prop :=
  ∃ s i r m, p = s ++ i :: r ∧ s ≠ [] ∧ n.at? s = some m ∧ name ∈ m.scopeNames i

theorem scope?_eq_none_iff (n : Node) (name : String) (p : List Nat) : n.scope? name p = none ↔
    ∀ s i r m, p = s ++ i :: r → n.at? s = some m → name ∉ m.scopeNames i := by
  induction p generalizing n with
  | nil => simp [scope?]
  | cons i p ih =>
      have inner : (n.parts[i]?.bind fun part => part.scope? name p) = none ↔
          ∀ s j r m, p = s ++ j :: r → n.at? (i :: s) = some m → name ∉ m.scopeNames j := by
        simp only [at?]
        cases n.parts[i]? with
        | none => simp
        | some part => exact ih part
      constructor
      · intro free s j r m split here
        unfold scope? at free
        split at free
        · cases free
        · next none_inside =>
          cases s with
          | nil =>
              obtain rfl := Option.some.inj here
              obtain ⟨rfl, -⟩ := List.cons.inj split
              exact fun member => by simp [member] at free
          | cons k s =>
              obtain ⟨rfl, below⟩ := List.cons.inj split
              exact inner.mp none_inside s j r m below here
      · intro free
        have none_inside := inner.mpr fun s j r m split here => free (i :: s) j r m (by rw [split]; rfl) here
        have not_here := free [] i p n rfl rfl
        simp [scope?, none_inside, not_here]

theorem scope?_eq_nil_iff (n : Node) (name : String) (i : Nat) (p : List Nat) :
    n.scope? name (i :: p) = some [] ↔ name ∈ n.scopeNames i ∧ ¬ n.Shadowed name (i :: p) := by
  have inner : (n.parts[i]?.bind fun part => part.scope? name p) = none ↔ ¬ n.Shadowed name (i :: p) := by
    constructor
    · rintro free ⟨s, j, r, m, split, some_step, here, member⟩
      obtain ⟨k, s, rfl⟩ := List.exists_cons_of_ne_nil some_step
      obtain ⟨rfl, below⟩ := List.cons.inj split
      obtain ⟨part, found, there⟩ := Option.bind_eq_some_iff.mp here
      rw [found, Option.bind_some] at free
      exact (scope?_eq_none_iff part name p).mp free s j r m below there member
    · intro clear
      cases found : n.parts[i]? with
      | none => rfl
      | some part =>
          refine (scope?_eq_none_iff part name p).mpr fun s j r m split there member => clear ?_
          exact ⟨i :: s, j, r, m, by rw [split]; rfl, List.cons_ne_nil i s, by simp [at?, found, there], member⟩
  rw [← inner, scope?]
  split
  · next found => simp [found]
  · next none_inside => by_cases member : name ∈ n.scopeNames i <;> simp [member, none_inside]

def ownNames : Node → List String
  | mk (.binding name) _ _ => [name]
  | mk (.function name) _ _ => name.toList
  | mk (.classDefinition name) _ _ => name.toList
  | mk (.moduleBlock names) _ _ => names
  | mk .enumeration _ parts => parts.filterMap memberName?
  | _ => []

def Writes (n : Node) (name : String) : Prop := ∃ m ∈ n.descendants, name ∈ m.ownNames

def WritesOf (ns : List Node) (name : String) : Prop := ∃ n ∈ ns, n.Writes name

instance (n : Node) (name : String) : Decidable (n.Writes name) :=
  inferInstanceAs (Decidable (∃ m ∈ n.descendants, name ∈ m.ownNames))

theorem writes_own {n : Node} {name : String} (member : name ∈ n.ownNames) : n.Writes name :=
  ⟨n, (mem_descendants n n).mpr ⟨[], rfl⟩, member⟩

theorem writes_part {kind : Kind} {span : Span} {parts : List Node} {name : String}
    (below : WritesOf parts name) : (mk kind span parts).Writes name := by
  obtain ⟨part, part_in, m, member, own⟩ := below
  refine ⟨m, ?_, own⟩
  rw [descendants]
  exact List.mem_cons_of_mem _ ((mem_descendantsOf parts m).mpr ⟨part, part_in, member⟩)

theorem Writes.above {n m : Node} {s : List Nat} {name : String} (below : m.Writes name) (there : n.at? s = some m) :
    n.Writes name := by
  obtain ⟨d, d_in, own⟩ := below
  obtain ⟨t, reached⟩ := (mem_descendants m d).mp d_in
  exact ⟨d, (mem_descendants n d).mpr ⟨s ++ t, by rw [at_append, there, Option.bind_some, reached]⟩, own⟩

theorem writesOf_cons {n : Node} {ns : List Node} {name : String} :
    WritesOf (n :: ns) name ↔ n.Writes name ∨ WritesOf ns name := by
  simp [WritesOf]

theorem writes_first {kind : Kind} {span : Span} {n : Node} {ns : List Node} {name : String} (below : n.Writes name) :
    (mk kind span (n :: ns)).Writes name := writes_part (writesOf_cons.mpr (.inl below))

theorem writes_behind {kind : Kind} {span : Span} {n : Node} {ns : List Node} {name : String}
    (below : WritesOf ns name) : (mk kind span (n :: ns)).Writes name := writes_part (writesOf_cons.mpr (.inr below))

mutual
theorem writes_of_boundNames (name : String) : ∀ n : Node, name ∈ boundNames n → n.Writes name
| n, member => by
    unfold boundNames at member
    split at member
    · exact writes_own (by simpa [ownNames] using member)
    · next value => exact writes_behind (writesOf_cons.mpr (.inl (writes_of_boundNames name value member)))
    · next target _ => exact writes_first (writes_of_boundNames name target member)
    · next target _ => exact writes_first (writes_of_boundNames name target member)
    · next target => exact writes_first (writes_of_boundNames name target member)
    · next parts => exact writes_part (writes_of_boundNamesOf name parts member)
    · next parts => exact writes_part (writes_of_boundNamesOf name parts member)
    · next parts => exact writes_part (writes_of_boundNamesOf name parts member)
    · next target _ => exact writes_first (writes_of_boundNames name target member)
    · cases member
theorem writes_of_boundNamesOf (name : String) : ∀ ns : List Node, name ∈ boundNamesOf ns → WritesOf ns name
| [], member => by cases member
| n :: ns, member => by
    rw [boundNamesOf, List.mem_append] at member
    exact writesOf_cons.mpr (member.imp (writes_of_boundNames name n) (writes_of_boundNamesOf name ns))
end

theorem writes_of_entryNames {name : String} {n : Node} (member : name ∈ n.entryNames) : n.Writes name := by
  unfold entryNames at member
  split at member
  · exact writes_part (writes_of_boundNamesOf name _ member)
  · exact writes_of_boundNames name n member

mutual
theorem writes_of_blockNames (name : String) : ∀ n : Node, name ∈ n.blockNames → n.Writes name
| n, member => by
    unfold blockNames at member
    split at member
    · next declarators => exact writes_part (writes_of_boundNamesOf name declarators member)
    · exact writes_own member
    · exact writes_own member
    · exact writes_own (List.mem_of_mem_head? (Option.mem_toList.mp member))
    · exact writes_first (writes_of_boundNames name _ member)
    · exact writes_first (writes_of_boundNames name _ member)
    · next entries =>
        obtain ⟨entry, entry_in, member⟩ := List.mem_flatMap.mp member
        exact writes_part ⟨entry, entry_in, writes_of_entryNames member⟩
    · next parts => exact writes_part (writes_of_blockNamesOf name parts member)
    · next parts => exact writes_part (writes_of_blockNamesOf name parts member)
    · next parts => exact writes_part (writes_of_blockNamesOf name parts member)
    · next parts => exact writes_part (writes_of_blockNamesOf name parts member)
    · cases member
theorem writes_of_blockNamesOf (name : String) : ∀ ns : List Node, name ∈ blockNamesOf ns → WritesOf ns name
| [], member => by cases member
| n :: ns, member => by
    rw [blockNamesOf, List.mem_append] at member
    exact writesOf_cons.mpr (member.imp (writes_of_blockNames name n) (writes_of_blockNamesOf name ns))
end

mutual
theorem writes_of_hoistedNames (name : String) : ∀ n : Node, name ∈ n.hoistedNames → n.Writes name
| n, member => by
    unfold hoistedNames at member
    split at member
    · next declarators => exact writes_part (writes_of_boundNamesOf name declarators member)
    · cases member
    · cases member
    · cases member
    · cases member
    · next parts _ _ _ _ _ => exact writes_part (writes_of_hoistedNamesOf name parts member)
theorem writes_of_hoistedNamesOf (name : String) : ∀ ns : List Node, name ∈ hoistedNamesOf ns → WritesOf ns name
| [], member => by cases member
| n :: ns, member => by
    rw [hoistedNamesOf, List.mem_append] at member
    exact writesOf_cons.mpr (member.imp (writes_of_hoistedNames name n) (writes_of_hoistedNamesOf name ns))
end

theorem writes_of_declaredNames {name : String} {n : Node} (member : name ∈ n.declaredNames) : n.Writes name :=
  (List.mem_append.mp member).elim (writes_of_blockNames name n) (writes_of_hoistedNames name n)

theorem writes_of_statementNames {keyword name : String} {i : Nat} {span : Span} {parts : List Node}
    (member : name ∈ statementNames keyword i parts) : (mk (.statement keyword) span parts).Writes name := by
  unfold statementNames at member
  split at member
  · exact writes_first (writes_of_boundNames name _ member)
  · exact writes_first (writes_part (writes_of_boundNamesOf name _ member))
  · obtain ⟨c, c_in, member⟩ := List.mem_flatMap.mp member
    refine writes_behind ⟨c, c_in, ?_⟩
    unfold caseNames at member
    split at member
    · exact writes_behind (writes_of_blockNamesOf name _ member)
    · cases member
  · cases member

theorem writesOf_parameterNames {name : String} {parts : List Node} (member : name ∈ parameterNames parts) :
    WritesOf parts name := by
  unfold parameterNames at member
  split at member
  · next parameters _ =>
      obtain ⟨p, p_in, member⟩ := List.mem_flatMap.mp member
      have written : p.Writes name := by
        unfold parameterName at member
        split at member
        · exact writes_part (writes_of_boundNamesOf name _ member)
        · exact writes_of_boundNames name p member
      refine writesOf_cons.mpr (.inr (writesOf_cons.mpr (.inl ?_)))
      cases parameters with
      | mk kind span parts => exact writes_part ⟨p, p_in, written⟩
  · cases member

theorem writes_of_scopeNames {name : String} {n : Node} {i : Nat} (member : name ∈ n.scopeNames i) :
    n.Writes name := by
  have hoisted (kind : Kind) (span : Span) (parts : List Node)
      (member : name ∈ ((parts[i]?.map hoistedNames).getD [])) : (mk kind span parts).Writes name := by
    cases found : parts[i]? with
    | none => simp [found] at member
    | some part =>
        rw [found] at member
        exact writes_part ⟨part, List.mem_of_getElem? found, writes_of_hoistedNames name part member⟩
  unfold scopeNames at member
  split at member
  · next parts =>
      exact writes_part ((List.mem_append.mp member).elim (writes_of_blockNamesOf name parts)
        (writes_of_hoistedNamesOf name parts))
  · next parts => exact writes_part (writes_of_blockNamesOf name parts member)
  · rcases List.mem_append.mp member with member | member
    · rcases List.mem_append.mp member with member | member
      · exact writes_own member
      · exact writes_part (writesOf_parameterNames member)
    · exact hoisted _ _ _ member
  · rcases List.mem_append.mp member with member | member
    · exact writes_part (writesOf_parameterNames member)
    · exact hoisted _ _ _ member
  · rcases List.mem_append.mp member with member | member
    · exact writes_own member
    · exact hoisted _ _ _ member
  · rcases List.mem_append.mp member with member | member
    · exact writes_own member
    · exact hoisted _ _ _ member
  · exact writes_own member
  · exact writes_of_statementNames member
  · cases member

end Prerender.Script.Node
