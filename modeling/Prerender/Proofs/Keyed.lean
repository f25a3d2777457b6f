import Mathlib.Data.List.Nodup
import Prerender.Keyed

set_option autoImplicit false

namespace Prerender.Keyed

variable {α β : Type} [DecidableEq α] {entries : List (α × β)} {key : α}

theorem put_put (first second : β) : put (put entries key first) key second = put entries key second := by
  induction entries with
  | nil => simp [put]
  | cons entry rest ih =>
      rcases entry with ⟨k, v⟩
      by_cases same : k = key <;> simp [put, same, ih]

theorem put_same {value : β} (found : get? entries key = some value) : put entries key value = entries := by
  induction entries with
  | nil => cases found
  | cons entry rest ih =>
      rcases entry with ⟨k, v⟩
      by_cases same : k = key
      · simp only [get?, same, if_true, Option.some.injEq] at found
        simp [put, same, found]
      · simp only [get?, same, if_false] at found
        simp [put, same, ih found]

theorem mem_keys {value : β} (found : get? entries key = some value) : key ∈ keys entries := by
  induction entries with
  | nil => cases found
  | cons entry rest ih =>
      rcases entry with ⟨k, v⟩
      by_cases same : k = key
      · simp [keys, same]
      · simp only [get?, same, if_false] at found
        exact List.mem_cons_of_mem k (ih found)

theorem get?_eq_some_iff (once : (keys entries).Nodup) {value : β} :
    get? entries key = some value ↔ (key, value) ∈ entries := by
  induction entries with
  | nil => simp [get?]
  | cons entry rest ih =>
      rcases entry with ⟨k, v⟩
      obtain ⟨fresh, once⟩ := List.nodup_cons.mp once
      by_cases same : k = key
      · subst same
        have absent (v' : β) : (k, v') ∉ rest := fun member => fresh (List.mem_map.mpr ⟨_, member, rfl⟩)
        simp [get?, absent, eq_comm]
      · have other : ¬ key = k := fun is => same is.symm
        simp [get?, same, other, ih once]

theorem put_fresh (fresh : key ∉ keys entries) (value : β) :
    put entries key value = entries ++ [(key, value)] := by
  induction entries with
  | nil => rfl
  | cons entry entries ih =>
      obtain ⟨k, v⟩ := entry
      rw [keys, List.map_cons, List.mem_cons, not_or] at fresh
      rw [put, if_neg (Ne.symm fresh.1), ih fresh.2, List.cons_append]

theorem ofList_distinct {pairs : List (α × β)} (distinct : (keys pairs).Nodup) : ofList pairs = pairs := by
  suffices all : ∀ entries : List (α × β), (keys (entries ++ pairs)).Nodup →
      pairs.foldl (fun entries x => put entries x.1 x.2) entries = entries ++ pairs from all [] distinct
  clear distinct
  intro entries distinct
  induction pairs generalizing entries with
  | nil => exact (List.append_nil entries).symm
  | cons pair pairs ih =>
      have fresh : pair.1 ∉ keys entries := by
        rw [keys, List.map_append, List.map_cons] at distinct
        exact fun here => (List.nodup_middle.mp distinct).notMem (List.mem_append_left _ here)
      rw [List.append_cons] at distinct ⊢
      rw [List.foldl_cons, put_fresh fresh, ih (entries ++ [pair]) distinct]

theorem mem_of_mem_put {value : β} {entry : α × β}
    (member : entry ∈ put entries key value) : entry = (key, value) ∨ entry ∈ entries := by
  induction entries with
  | nil => exact .inl (List.mem_singleton.mp member)
  | cons other entries ih =>
      rw [put] at member
      split at member
      · exact (List.mem_cons.mp member).imp_right (List.mem_cons_of_mem _)
      · rcases List.mem_cons.mp member with same | member
        · exact .inr (same ▸ List.mem_cons_self)
        · exact (ih member).imp_right (List.mem_cons_of_mem _)

theorem mem_of_mem_ofList {pairs : List (α × β)} {entry : α × β} (member : entry ∈ ofList pairs) : entry ∈ pairs := by
  suffices all : ∀ entries : List (α × β), entry ∈ pairs.foldl (fun entries x => put entries x.1 x.2) entries →
      entry ∈ entries ∨ entry ∈ pairs from (all [] member).resolve_left List.not_mem_nil
  clear member
  induction pairs with
  | nil => exact fun entries => .inl
  | cons pair pairs ih =>
      intro entries member
      rcases ih _ member with member | member
      · rcases mem_of_mem_put member with same | member
        · exact .inr (same ▸ List.mem_cons_self)
        · exact .inl member
      · exact .inr (List.mem_cons_of_mem pair member)

theorem nodup_keys_put (once : (keys entries).Nodup) (key : α) (value : β) : (keys (put entries key value)).Nodup := by
  rw [keys_put]
  split
  · exact once
  · next fresh => exact List.nodup_append_comm.mp (List.nodup_cons.mpr ⟨fresh, once⟩)

theorem nodup_keys_ofList (pairs : List (α × β)) : (keys (ofList pairs)).Nodup := by
  suffices all : ∀ entries : List (α × β), (keys entries).Nodup →
      (keys (pairs.foldl (fun entries x => put entries x.1 x.2) entries)).Nodup from all [] List.nodup_nil
  induction pairs with
  | nil => exact fun entries once => once
  | cons pair pairs ih => exact fun entries once => ih _ (nodup_keys_put once pair.1 pair.2)

end Prerender.Keyed
