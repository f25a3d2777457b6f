set_option autoImplicit false

/-!
Lists of key and value that keep the order in which a key first came: a later value for a known key
takes the place of the earlier one.
-/
namespace Prerender.Keyed

variable {α β : Type} [DecidableEq α]

def put (entries : List (α × β)) (key : α) (value : β) : List (α × β) :=
  match entries with
  | [] => [(key, value)]
  | (k, v) :: rest => if k = key then (key, value) :: rest else (k, v) :: put rest key value

def get? (entries : List (α × β)) (key : α) : Option β :=
  match entries with
  | [] => none
  | (k, v) :: rest => if k = key then some v else get? rest key

def ofList (pairs : List (α × β)) : List (α × β) :=
  pairs.foldl (fun entries (key, value) => put entries key value) []

def keys (entries : List (α × β)) : List α := entries.map Prod.fst

theorem get?_put (entries : List (α × β)) (key query : α) (value : β) :
    get? (put entries key value) query = if key = query then some value else get? entries query := by
  induction entries with
  | nil => simp [put, get?]
  | cons entry rest ih =>
      rcases entry with ⟨k, v⟩
      by_cases same : k = key
      · subst same
        by_cases hit : k = query <;> simp [put, get?, hit]
      · by_cases hit : k = query
        · subst hit
          have differ : ¬ key = k := fun h => same h.symm
          simp [put, get?, same, differ]
        · simp [put, get?, same, hit, ih]

theorem keys_put (entries : List (α × β)) (key : α) (value : β) :
    keys (put entries key value) =
      if key ∈ keys entries then keys entries else keys entries ++ [key] := by
  induction entries with
  | nil => simp [put, keys]
  | cons entry rest ih =>
      rcases entry with ⟨k, v⟩
      by_cases same : k = key
      · subst same; simp [put, keys]
      · have differ : ¬ key = k := fun h => same h.symm
        simp only [put, same, if_false, keys, List.map_cons] at ih ⊢
        rw [ih]
        by_cases known : key ∈ rest.map Prod.fst <;> simp [known, differ]

theorem lookup_eq_get? (entries : List (α × β)) (key : α) : entries.lookup key = get? entries key := by
  induction entries with
  | nil => rfl
  | cons entry rest ih =>
      rcases entry with ⟨k, v⟩
      by_cases same : k = key
      · simp [get?, same]
      · have differ : (key == k) = false := beq_eq_false_iff_ne.mpr fun h => same h.symm
        simp [List.lookup_cons, get?, same, differ, ih]

end Prerender.Keyed
