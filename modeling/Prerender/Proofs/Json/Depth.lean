import Prerender.Proofs.Json.RoundTrip

set_option autoImplicit false

namespace Prerender.Json

theorem scalar?_depth {cs rest : List Char} {j : Json} (read : scalar? cs = some (j, rest)) : depth j = 0 := by
  have literal {text : String} {value : Json} {cs : List Char} (read : literal? text value cs = some (j, rest)) :
      j = value := by
    rw [literal?] at read
    split at read
    · exact (Prod.mk.inj (Option.some.inj read)).1.symm
    · cases read
  cases cs with
  | nil => cases read
  | cons c cs =>
      rw [scalar?] at read
      split at read
      · obtain ⟨_, -, is⟩ := Option.map_eq_some_iff.mp read
        rw [← (Prod.mk.inj is).1]
        rfl
      split at read
      · obtain ⟨_, -, is⟩ := Option.map_eq_some_iff.mp read
        rw [← (Prod.mk.inj is).1]
        rfl
      split at read
      · rw [literal read]
        rfl
      split at read
      · rw [literal read]
        rfl
      split at read
      · rw [literal read]
        rfl
      · cases read

theorem sequence?_all {α : Type} {item : List Char → Option (α × List Char)} {holds : α → Prop} {close : Char}
    (each : ∀ cs x rest, item cs = some (x, rest) → holds x) {fuel : Nat} {cs rest : List Char} {xs : List α}
    (read : sequence? item close fuel cs = some (xs, rest)) : ∀ x ∈ xs, holds x := by
  induction fuel generalizing cs rest xs with
  | zero => cases read
  | succ fuel ih =>
      obtain ⟨⟨x, behind⟩, first, read⟩ := Option.bind_eq_some_iff.mp read
      have own := each _ x behind first
      dsimp only at read
      split at read
      · cases read
      · split at read
        · obtain ⟨rfl, -⟩ := Prod.mk.inj (Option.some.inj read)
          exact List.forall_mem_singleton.mpr own
        · split at read
          · obtain ⟨⟨others, _⟩, more, same⟩ := Option.bind_eq_some_iff.mp read
            obtain ⟨rfl, -⟩ := Prod.mk.inj (Option.some.inj same)
            exact List.forall_mem_cons.mpr ⟨own, ih more⟩
          · cases read

theorem member?_all {value : List Char → Option (Json × List Char)} {holds : Json → Prop}
    (each : ∀ cs j rest, value cs = some (j, rest) → holds j) {cs rest : List Char} {member : String × Json}
    (read : member? value cs = some (member, rest)) : holds member.2 := by
  unfold member? at read
  split at read
  · obtain ⟨⟨key, behind⟩, -, read⟩ := Option.bind_eq_some_iff.mp read
    dsimp only at read
    split at read
    · obtain ⟨⟨j, _⟩, found, same⟩ := Option.bind_eq_some_iff.mp read
      obtain ⟨rfl, -⟩ := Prod.mk.inj (Option.some.inj same)
      exact each _ j _ found
    · cases read
  · cases read

theorem value?_depth {limit : Nat} {cs rest : List Char} {j : Json} (read : value? limit cs = some (j, rest)) :
    depth j ≤ limit := by
  induction limit generalizing cs rest j with
  | zero => exact Nat.le_of_eq (scalar?_depth read)
  | succ limit ih =>
      unfold value? at read
      dsimp only at read
      split at read
      · split at read
        · rw [← (Prod.mk.inj (Option.some.inj read)).1]
          exact Nat.le_add_left 1 limit
        · obtain ⟨⟨items, _⟩, found, same⟩ := Option.map_eq_some_iff.mp read
          obtain ⟨rfl, -⟩ := Prod.mk.inj same
          have all : ∀ j ∈ items, depth j ≤ limit := sequence?_all (fun _ _ _ read => ih read) found
          exact Nat.succ_le_succ ((depthItems_le limit items).mpr all)
      · split at read
        · rw [← (Prod.mk.inj (Option.some.inj read)).1]
          exact Nat.le_add_left 1 limit
        · obtain ⟨⟨members, _⟩, found, same⟩ := Option.map_eq_some_iff.mp read
          obtain ⟨rfl, -⟩ := Prod.mk.inj same
          have all : ∀ member ∈ members, depth member.2 ≤ limit :=
            sequence?_all (fun _ _ _ read => member?_all (fun _ _ _ read => ih read) read) found
          exact Nat.succ_le_succ ((depthMembers_le limit members).mpr all)
      · exact Nat.le_trans (Nat.le_of_eq (scalar?_depth read)) (Nat.zero_le _)

theorem depthMembers_put (members : List (String × Json)) (key : String) (value : Json) :
    depthMembers (Keyed.put members key value) ≤ max (depthMembers members) (depth value) := by
  induction members with
  | nil => simp [Keyed.put, depthMembers]
  | cons member members ih =>
      obtain ⟨other, own⟩ := member
      rw [Keyed.put]
      split
      · simp only [depthMembers]
        omega
      · simp only [depthMembers]
        omega

mutual
theorem depth_merge : ∀ j : Json, depth (merge j) ≤ depth j
  | .null | .bool _ | .number _ | .string _ => Nat.le_refl _
  | .array items => by
      rw [merge, depth, depth]
      exact Nat.succ_le_succ (depthItems_merge items)
  | .object members => by
      have inner := depthMembers_merge [] members
      rw [depthMembers, Nat.zero_max] at inner
      rw [merge, depth, depth]
      exact Nat.succ_le_succ inner
theorem depthItems_merge : ∀ items : List Json, depthItems (mergeItems items) ≤ depthItems items
  | [] => Nat.le_refl _
  | item :: items => by
      have first := depth_merge item
      have others := depthItems_merge items
      rw [mergeItems, depthItems, depthItems]
      omega
theorem depthMembers_merge (seen : List (String × Json)) :
    ∀ members : List (String × Json),
      depthMembers (mergeMembers seen members) ≤ max (depthMembers seen) (depthMembers members)
  | [] => Nat.le_max_left _ _
  | (key, value) :: members => by
      have first := depth_merge value
      have put := depthMembers_put seen key (merge value)
      have others := depthMembers_merge (Keyed.put seen key (merge value)) members
      rw [mergeMembers, depthMembers]
      omega
end

theorem parse?_depth {limit : Nat} {s : String} {j : Json} (read : parse? limit s = some j) : depth j ≤ limit := by
  obtain ⟨raw, found, rfl⟩ := Option.map_eq_some_iff.mp read
  obtain ⟨⟨value, rest⟩, head, found⟩ := Option.bind_eq_some_iff.mp found
  dsimp only at found
  split at found
  · obtain rfl := Option.some.inj found
    exact Nat.le_trans (depth_merge value) (value?_depth head)
  · cases found

end Prerender.Json
