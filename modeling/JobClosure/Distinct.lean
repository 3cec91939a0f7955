/-!
# Keeping first occurrences

Many tables of this library keep the first of several entries with one key, in the order in which the keys
first occur. The result has every key once (`nodup_map_distinctBy`) and, when the key is the entry itself,
the same members (`mem_distinctBy_id`).
-/

namespace JobClosure

variable {α β : Type} [DecidableEq β]

/-- Adds an element at the end, unless one with its key is there. -/
def addDistinct (key : α → β) (xs : List α) (x : α) : List α :=
  if xs.any (fun y => key y == key x) then xs else xs ++ [x]

/-- The first element for every key. -/
def distinctBy (key : α → β) (xs : List α) : List α := xs.foldl (addDistinct key) []

theorem subset_addDistinct {key : α → β} {xs : List α} {x y : α} (h : y ∈ xs) :
    y ∈ addDistinct key xs x := by
  unfold addDistinct
  split
  · exact h
  · exact List.mem_append_left _ h

theorem mem_addDistinct {key : α → β} {xs : List α} {x y : α} (h : y ∈ addDistinct key xs x) :
    y ∈ xs ∨ y = x := by
  unfold addDistinct at h
  split at h
  · exact .inl h
  · simpa using h

theorem nodup_map_addDistinct {key : α → β} {xs : List α} {x : α} (h : (xs.map key).Nodup) :
    ((addDistinct key xs x).map key).Nodup := by
  unfold addDistinct
  split
  · exact h
  · rename_i hx
    simp only [List.any_eq_true, beq_iff_eq, not_exists, not_and] at hx
    rw [List.map_append, List.nodup_append]
    refine ⟨h, by simp, ?_⟩
    intro a ha b hb heq
    obtain ⟨y, hy, rfl⟩ := List.mem_map.mp ha
    simp only [List.map_cons, List.map_nil, List.mem_singleton] at hb
    exact hx y hy (heq.trans hb)

theorem nodup_map_foldl_addDistinct {key : α → β} {xs acc : List α} (h : (acc.map key).Nodup) :
    ((xs.foldl (addDistinct key) acc).map key).Nodup := by
  induction xs generalizing acc with
  | nil => exact h
  | cons x xs ih => exact ih (nodup_map_addDistinct h)

/-- Every key occurs once. -/
theorem nodup_map_distinctBy (key : α → β) (xs : List α) : ((distinctBy key xs).map key).Nodup :=
  nodup_map_foldl_addDistinct (by simp)

theorem mem_foldl_addDistinct {key : α → β} {xs acc : List α} {y : α}
    (h : y ∈ xs.foldl (addDistinct key) acc) : y ∈ acc ∨ y ∈ xs := by
  induction xs generalizing acc with
  | nil => exact .inl h
  | cons x xs ih =>
    rcases ih h with h | h
    · rcases mem_addDistinct h with h | rfl
      · exact .inl h
      · exact .inr List.mem_cons_self
    · exact .inr (List.mem_cons_of_mem _ h)

theorem subset_foldl_addDistinct {key : α → β} {xs acc : List α} {y : α} (h : y ∈ acc) :
    y ∈ xs.foldl (addDistinct key) acc := by
  induction xs generalizing acc with
  | nil => exact h
  | cons x xs ih => exact ih (subset_addDistinct h)

/-- Nothing is made up. -/
theorem mem_of_mem_distinctBy {key : α → β} {xs : List α} {y : α} (h : y ∈ distinctBy key xs) : y ∈ xs := by
  simpa using mem_foldl_addDistinct h

theorem self_mem_addDistinct_id {xs : List β} {x : β} : x ∈ addDistinct id xs x := by
  unfold addDistinct
  split
  · rename_i h
    simpa using h
  · simp

theorem mem_foldl_addDistinct_id {xs acc : List β} {y : β} (h : y ∈ xs) :
    y ∈ xs.foldl (addDistinct id) acc := by
  induction xs generalizing acc with
  | nil => simp at h
  | cons x xs ih =>
    rcases List.mem_cons.mp h with rfl | h
    · rw [List.foldl_cons]
      exact subset_foldl_addDistinct self_mem_addDistinct_id
    · exact ih h

/-- When the key is the element itself, the members stay the same. -/
@[simp] theorem mem_distinctBy_id {xs : List β} {y : β} : y ∈ distinctBy id xs ↔ y ∈ xs :=
  ⟨mem_of_mem_distinctBy, mem_foldl_addDistinct_id⟩

theorem nodup_distinctBy_id (xs : List β) : (distinctBy id xs).Nodup := by
  simpa using nodup_map_distinctBy id xs

end JobClosure
