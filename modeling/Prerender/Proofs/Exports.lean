import Mathlib.Data.List.Induction
import Prerender.Proofs.Keyed
import Prerender.Proofs.Script.Scope
import Prerender.Registry.Exports

set_option autoImplicit false

namespace Prerender.Registry

open Script (Node Token)

theorem entries_ofNames (names : List String) : (ofNames names).entries =
    Keyed.ofList (names.map fun name => (name, ⟨name, Tag.ofExport name, none⟩)) := by
  induction names using List.reverseRecOn with
  | nil => rfl
  | append_singleton names name ih =>
      rw [Keyed.ofList] at ih
      rw [ofNames, List.foldl_append, List.map_append, Keyed.ofList, List.foldl_append, ← ih]
      rfl

theorem get?_ofNames (names : List String) (name : String) : (ofNames names).get? name =
    if name ∈ names then some ⟨name, Tag.ofExport name, none⟩ else none := by
  induction names using List.reverseRecOn with
  | nil => rfl
  | append_singleton names last ih =>
      have step : (ofNames (names ++ [last])).get? name =
          if last = name then some ⟨last, Tag.ofExport last, none⟩ else (ofNames names).get? name := by
        rw [ofNames, List.foldl_append]
        exact Keyed.get?_put _ _ _ _
      rw [step, ih]
      by_cases same : last = name
      · simp [same]
      · simp [same, Ne.symm same]

theorem contains_ofNames (names : List String) (name : String) :
    (ofNames names).contains name = true ↔ name ∈ names := by
  rw [contains, get?_ofNames]
  split <;> simp_all

structure Library where
  dialect : Script.Dialect
  source : String
  statements : List Node

-- The tokens from one on that begin in front of an offset.
def tokensTo (html : Bool) (stop : Nat) : Nat → Token → List Token
  | 0, _ => []
  | n + 1, t => if t.start < stop then t :: tokensTo html stop n (t.next html) else []

mutual
-- A statement of a namespace that is gone once its types are.
def isErased : Node → Bool
| .mk .typeDeclaration _ _ => true
| .mk .importAlias _ _ => true
| .mk (.moduleBlock _) _ [.mk .block _ statements] => allErased statements
| .mk .exportDeclaration _ [d] => d.kind ≠ .importAlias && isErased d
| _ => false
def allErased : List Node → Bool
| [] => true
| n :: ns => isErased n && allErased ns
end

namespace Library

def read? (source path : String) : Option Library :=
  (Script.parse? (.ofPath path) source).map fun tree => ⟨.ofPath path, source, tree.parts⟩

variable (library : Library)

-- A list or an entry that is there for types only. The tree does not tell, but in the source `type` is the last word
-- in front of the first name then, aside from an `as`.
def isMarked (n : Node) : Bool :=
  n.parts.head?.any fun first =>
    let html := !library.dialect.isModule
    let token := Token.first html n.span.start (library.source.toList.drop n.span.start)
    let words := (tokensTo html first.span.start first.span.start token).filter fun t => t.isWord && !t.is "as"
    words.getLast?.any (·.is "type")

def declarationsOf : Node → List Node
  | .mk .exportDeclaration _ [.mk .decorated _ parts] => parts
  | .mk .exportDeclaration _ [d] => [d]
  | _ => []

def declarations : List Node := library.statements.flatMap declarationsOf

def declared : Node → List (String × Bool)
  | .mk (.variableList _) _ declarators => (Script.boundNamesOf declarators).map (·, false)
  | .mk (.function name) _ _ => name.toList.map (·, false)
  | .mk (.classDefinition name) _ _ => name.toList.map (·, false)
  | .mk .enumeration _ (name :: _) => (Script.boundNames name).map (·, false)
  | .mk (.moduleBlock names) span parts => names.head?.toList.map (·, isErased (.mk (.moduleBlock names) span parts))
  | .mk .importAlias span (name :: parts) =>
      (Script.boundNames name).map (·, library.isMarked (.mk .importAlias span (name :: parts)))
  | .mk .typeDeclaration _ (name :: _) => (Script.boundNames name).map (·, true)
  | _ => []

def imported (statement entry : Node) : List (String × Bool) :=
  entry.entryNames.map (·, library.isMarked statement || library.isMarked entry)

def known (statement : Node) : List (String × Bool) :=
  match statement with
  | .mk (.importDeclaration _) _ entries => entries.flatMap (library.imported statement)
  | .mk .exportDeclaration _ _ => (declarationsOf statement).flatMap library.declared
  | .mk .exportDefault _ parts => parts.flatMap library.declared
  | .mk .decorated _ parts => parts.flatMap library.declared
  | statement => library.declared statement ++ statement.hoistedNames.map (·, false)

def isType (name : String) : Bool :=
  let known := library.statements.flatMap library.known
  known.contains (name, true) && !known.contains (name, false)

def ownName? (list entry : Node) : Option String :=
  if list.parts.all (·.kind = .specifier) then
    match entry.parts.head?.map Node.kind with
    | some (.name text) => some text
    | _ => none
  else none

def isTypeEntry (list entry : Node) : Bool :=
  library.isMarked list || library.isMarked entry || (ownName? list entry).any library.isType

def listedBy (statement : Node) : List (String × Bool) :=
  match statement with
  | .mk .exportList _ entries =>
      entries.filterMap fun entry => (Script.exportedName? entry).map (·, library.isTypeEntry statement entry)
  | _ => []

def listed : List (String × Bool) := library.statements.flatMap library.listedBy

def ExportsValue (name : String) : Prop :=
  (name, false) ∈ library.declarations.flatMap library.declared ++ library.listed

instance (name : String) : Decidable (library.ExportsValue name) :=
  inferInstanceAs (Decidable (_ ∈ _))

-- The names of values that a declaration gives in another way than by a function, a class or a variable by itself.
def overlooked (d : Node) : List String :=
  match d with
  | .mk (.variableList _) _ declarators =>
      (declarators.filter fun declarator => (variableName? declarator).isNone).flatMap Script.boundNames
  | .mk (.function _) _ _ => []
  | .mk (.classDefinition _) _ _ => []
  | d => ((library.declared d).filter fun entry => !entry.2).map Prod.fst

section

variable {library} {name : String}

theorem boundNames_of_variableName? {declarator : Node} (is : variableName? declarator = some name) :
    Script.boundNames declarator = [name] := by
  unfold variableName? at is
  split at is
  · cases is
    simp [Script.boundNames]
  · cases is
    simp [Script.boundNames]
  · cases is

theorem mem_boundNamesOf_iff {declarators : List Node} : name ∈ Script.boundNamesOf declarators ↔
    name ∈ declarators.filterMap variableName? ∨
      ∃ declarator ∈ declarators, variableName? declarator = none ∧ name ∈ Script.boundNames declarator := by
  rw [Node.mem_boundNamesOf, List.mem_filterMap]
  constructor
  · rintro ⟨declarator, inside, binds⟩
    cases alone : variableName? declarator with
    | none => exact .inr ⟨declarator, inside, alone, binds⟩
    | some bound =>
        rw [boundNames_of_variableName? alone, List.mem_singleton] at binds
        exact .inl ⟨declarator, inside, binds ▸ alone⟩
  · rintro (⟨declarator, inside, alone⟩ | ⟨declarator, inside, -, binds⟩)
    · exact ⟨declarator, inside, by simp [boundNames_of_variableName? alone]⟩
    · exact ⟨declarator, inside, binds⟩

theorem declaredName?_eq_none {d : Node} (no_function : ∀ name span parts, d = .mk (.function name) span parts → False)
    (no_class : ∀ name span parts, d = .mk (.classDefinition name) span parts → False) :
    Script.declaredName? d = none := by
  obtain ⟨kind, span, parts⟩ := d
  unfold Script.declaredName?
  split
  · next is => exact (no_function _ span parts (congrArg (Node.mk · span parts) is)).elim
  · next is => exact (no_class _ span parts (congrArg (Node.mk · span parts) is)).elim
  · rfl

theorem mem_declared_iff {d : Node} : (name, false) ∈ library.declared d ↔
    name ∈ declaredNames d ∨ name ∈ library.overlooked d := by
  unfold overlooked
  split
  · next declarators =>
    have patterns : name ∈
        (declarators.filter fun declarator => (variableName? declarator).isNone).flatMap Script.boundNames ↔
        ∃ declarator ∈ declarators, variableName? declarator = none ∧ name ∈ Script.boundNames declarator := by
      simp [and_assoc]
    rw [patterns, declaredNames, ← mem_boundNamesOf_iff]
    simp [declared]
  · simp [declared, declaredNames, Script.declaredName?, Node.kind]
  · simp [declared, declaredNames, Script.declaredName?, Node.kind]
  · next no_variables no_function no_class =>
    have none_found : declaredNames d = [] := by
      unfold declaredNames
      split
      · next hoisted span declarators => exact (no_variables hoisted span declarators rfl).elim
      · rw [declaredName?_eq_none no_function no_class, Option.toList_none]
    simp [none_found]

theorem exportNames_eq (library : Library) (statement : Node) : exportNames statement =
    (declarationsOf statement).flatMap declaredNames ++ (library.listedBy statement).map Prod.fst := by
  unfold exportNames
  split
  · simp [declarationsOf, listedBy]
  · simp [declarationsOf, listedBy]
  · simp [declarationsOf, listedBy, List.map_filterMap, Function.comp_def]
  · simp [declarationsOf, listedBy]

theorem mem_exportNames_iff (library : Library) : name ∈ library.statements.flatMap exportNames ↔
    name ∈ library.declarations.flatMap declaredNames ∨ ∃ isType, (name, isType) ∈ library.listed := by
  simp only [declarations, listed, List.flatMap_assoc, List.mem_flatMap]
  constructor
  · rintro ⟨statement, inside, member⟩
    rw [exportNames_eq library, List.mem_append, List.mem_map] at member
    rcases member with declared | ⟨⟨other, isType⟩, member, rfl⟩
    · exact .inl ⟨statement, inside, List.mem_flatMap.mp declared⟩
    · exact .inr ⟨isType, statement, inside, member⟩
  · rintro (⟨statement, inside, declared⟩ | ⟨isType, statement, inside, member⟩)
    · refine ⟨statement, inside, ?_⟩
      rw [exportNames_eq library]
      exact List.mem_append_left _ (List.mem_flatMap.mpr declared)
    · refine ⟨statement, inside, ?_⟩
      rw [exportNames_eq library]
      exact List.mem_append_right _ (List.mem_map_of_mem member)

theorem contains_ofTree_iff (tree : Node) (dialect : Script.Dialect) (source name : String) :
    let library : Library := ⟨dialect, source, tree.parts⟩
    (ofTree tree).contains name = true ↔ isComponentName name = true ∧
      (name ∈ library.declarations.flatMap declaredNames ∨ ∃ isType, (name, isType) ∈ library.listed) := by
  intro library
  rw [← mem_exportNames_iff library, ofTree, contains_ofNames, List.mem_filter, and_comm]

theorem exportsValue_iff : library.ExportsValue name ↔ name ∈ library.declarations.flatMap declaredNames ∨
    name ∈ library.declarations.flatMap library.overlooked ∨ (name, false) ∈ library.listed := by
  rw [ExportsValue, List.mem_append, ← or_assoc]
  simp only [List.mem_flatMap, mem_declared_iff, and_or_left, exists_or]

theorem registers_values_iff {registry : Registry}
    (registered : ∀ name, registry.contains name = true ↔ isComponentName name = true ∧
      (name ∈ library.declarations.flatMap declaredNames ∨ ∃ isType, (name, isType) ∈ library.listed)) :
    (∀ name, registry.contains name = true ↔ isComponentName name = true ∧ library.ExportsValue name) ↔
      (∀ name ∈ library.declarations.flatMap library.overlooked, isComponentName name = true →
        registry.contains name = true) ∧
      ∀ name, (name, true) ∈ library.listed → isComponentName name = true → library.ExportsValue name := by
  constructor
  · intro values
    refine ⟨fun name overlooked capital => ?_, fun name listed capital => ?_⟩
    · exact (values name).mpr ⟨capital, exportsValue_iff.mpr (.inr (.inl overlooked))⟩
    · exact ((values name).mp ((registered name).mpr ⟨capital, .inr ⟨true, listed⟩⟩)).2
  · rintro ⟨missed, taken⟩ name
    constructor
    · intro here
      obtain ⟨capital, declared | ⟨isType, listed⟩⟩ := (registered name).mp here
      · exact ⟨capital, exportsValue_iff.mpr (.inl declared)⟩
      · cases isType with
        | false => exact ⟨capital, exportsValue_iff.mpr (.inr (.inr listed))⟩
        | true => exact ⟨capital, taken name listed capital⟩
    · rintro ⟨capital, value⟩
      rcases exportsValue_iff.mp value with declared | overlooked | listed
      · exact (registered name).mpr ⟨capital, .inl declared⟩
      · exact missed name overlooked capital
      · exact (registered name).mpr ⟨capital, .inr ⟨false, listed⟩⟩

end

end Library

/-- What an entry module registers, each name once and with the tag that it suggests. These are the capital names of the
values that its declarations and lists export exactly if each value with a capital name that is overlooked, in a pattern
or as an enumeration, a namespace or an alias, has an export of that name that is not, and each type that is listed
under a capital name an export of a value. -/
theorem ofModule_exports_iff {source path : String} {library : Library} (read : Library.read? source path = some library) :
    ∃ registry, ofModule source path = .ok registry ∧ (Keyed.keys registry.entries).Nodup ∧
      (∀ name component, registry.get? name = some component → component = ⟨name, Tag.ofExport name, none⟩) ∧
      (∀ name, registry.contains name = true ↔ isComponentName name = true ∧
        (name ∈ library.declarations.flatMap declaredNames ∨ ∃ isType, (name, isType) ∈ library.listed)) ∧
      ((∀ name, registry.contains name = true ↔ isComponentName name = true ∧ library.ExportsValue name) ↔
        (∀ name ∈ library.declarations.flatMap library.overlooked, isComponentName name = true →
          registry.contains name = true) ∧
        ∀ name, (name, true) ∈ library.listed → isComponentName name = true → library.ExportsValue name) := by
  obtain ⟨tree, parsed, rfl⟩ := Option.map_eq_some_iff.mp read
  have registered (name : String) := Library.contains_ofTree_iff tree (.ofPath path) source name
  refine ⟨ofTree tree, by rw [ofModule, parsed], ?_, ?_, registered, Library.registers_values_iff registered⟩
  · rw [ofTree, entries_ofNames]
    exact Keyed.nodup_keys_ofList _
  · intro name component known
    rw [ofTree, get?_ofNames] at known
    split at known
    · exact (Option.some.inj known).symm
    · cases known

def menu : String :=
  "export class Card \x7b\x7d export const \x7b a \x7d = ui; export \x7b b as Menu, type T as t \x7d from './x';"

theorem ofModule_exports_menu : ∃ library registry, Library.read? menu "index.ts" = some library ∧
    ofModule menu "index.ts" = .ok registry ∧
    (∀ name, registry.contains name = true ↔ isComponentName name = true ∧ library.ExportsValue name) ∧
    registry.contains "Menu" = true := by
  have reading : ((Library.read? menu "index.ts").map fun library =>
      (library.declarations.flatMap library.overlooked, library.listed)) =
      some (["a"], [("Menu", false), ("t", true)]) := by decide +kernel
  obtain ⟨library, read, are⟩ := Option.map_eq_some_iff.mp reading
  obtain ⟨overlooked, listed⟩ := Prod.mk.inj are
  obtain ⟨registry, given, -, -, registered, values⟩ := ofModule_exports_iff read
  refine ⟨library, registry, read, given, values.mpr ⟨?_, ?_⟩,
    (registered "Menu").mpr ⟨by decide, .inr ⟨false, ?_⟩⟩⟩
  · rw [overlooked]
    intro name member capital
    rw [List.mem_singleton.mp member] at capital
    exact absurd capital (by decide)
  · rw [listed]
    intro name member capital
    obtain rfl : name = "t" := by simpa using member
    exact absurd capital (by decide)
  · rw [listed]
    decide

def patterned : String := "export const \x7b Card, helper \x7d = ui;"

def typed : String := "export type \x7b Look \x7d from './look';"

theorem exists_of_entered {source path : String} {shows : Library → Registry → Prop}
    [∀ library registry, Decidable (shows library registry)]
    (entered : ((Library.read? source path).bind fun library =>
      (ofModule source path).toOption.map fun registry => decide (shows library registry)) = some true) :
    ∃ library registry, Library.read? source path = some library ∧ ofModule source path = .ok registry ∧
      shows library registry := by
  obtain ⟨library, read, is⟩ := Option.bind_eq_some_iff.mp entered
  obtain ⟨registry, given, shown⟩ := Option.map_eq_some_iff.mp is
  refine ⟨library, registry, read, ?_, of_decide_eq_true shown⟩
  cases result : ofModule source path with
  | error fault => simp [result, Except.toOption] at given
  | ok other => simpa [result, Except.toOption] using given

theorem ofModule_overlooks : (∃ library registry, Library.read? patterned "index.js" = some library ∧
      ofModule patterned "index.js" = .ok registry ∧ library.ExportsValue "Card" ∧ registry.contains "Card" = false) ∧
    ∃ library registry, Library.read? typed "index.ts" = some library ∧ ofModule typed "index.ts" = .ok registry ∧
      ¬ library.ExportsValue "Look" ∧ registry.contains "Look" = true :=
  ⟨exists_of_entered (by decide +kernel), exists_of_entered (by decide +kernel)⟩

end Prerender.Registry
