import JobClosure.Distinct
import Mathlib.Data.List.Flatten
import Mathlib.Data.List.Induction
import Mathlib.Data.List.Nodup

/-!
# Keeping first occurrences in two steps

What is kept of a list is a sublist of it, and the kept list can be built piece by piece.

When a list is expanded, duplicates may be dropped before as well as after. Whether it makes a difference is
decided by the elements that repeat an earlier one (`Repeats`): it makes none exactly if each of them adds
nothing to what the elements before it are expanded to (`flatMap_distinctBy_eq_iff`,
`distinctBy_flatMap_of_repeats`, `repeats_of_distinctBy_flatMap`).
-/

namespace JobClosure

variable {α β : Type} [DecidableEq β] {key : α → β}

theorem addDistinct_of_mem {xs : List α} {x : α} (h : key x ∈ xs.map key) : addDistinct key xs x = xs := by
  obtain ⟨y, hy, hkey⟩ := List.mem_map.mp h
  unfold addDistinct
  rw [if_pos]
  exact List.any_eq_true.mpr ⟨y, hy, beq_iff_eq.mpr hkey⟩

theorem addDistinct_of_not_mem {xs : List α} {x : α} (h : key x ∉ xs.map key) :
    addDistinct key xs x = xs ++ [x] := by
  unfold addDistinct
  rw [if_neg]
  intro hany
  obtain ⟨y, hy, hkey⟩ := List.any_eq_true.mp hany
  exact h (List.mem_map.mpr ⟨y, hy, eq_of_beq hkey⟩)

/-- Elements with keys that are there already add nothing. -/
theorem foldl_addDistinct_of_subset {xs acc : List α} (h : ∀ x ∈ xs, key x ∈ acc.map key) :
    xs.foldl (addDistinct key) acc = acc := by
  induction xs with
  | nil => rfl
  | cons x xs ih =>
    rw [List.foldl_cons, addDistinct_of_mem (h x List.mem_cons_self)]
    exact ih fun y hy => h y (List.mem_cons_of_mem _ hy)

/-- What is added has its key in the result. -/
theorem key_mem_foldl_addDistinct {xs acc : List α} {x : α} (h : x ∈ xs) :
    key x ∈ (xs.foldl (addDistinct key) acc).map key := by
  induction xs generalizing acc with
  | nil => exact absurd h List.not_mem_nil
  | cons y xs ih =>
    rcases List.mem_cons.mp h with rfl | h
    · rw [List.foldl_cons]
      by_cases htaken : key x ∈ acc.map key
      · obtain ⟨z, hz, hkey⟩ := List.mem_map.mp htaken
        exact List.mem_map.mpr ⟨z, subset_foldl_addDistinct (subset_addDistinct hz), hkey⟩
      · rw [addDistinct_of_not_mem htaken]
        exact List.mem_map_of_mem (subset_foldl_addDistinct (List.mem_append_right _ List.mem_cons_self))
    · exact ih h

theorem distinctBy_append (key : α → β) (xs ys : List α) :
    distinctBy key (xs ++ ys) = ys.foldl (addDistinct key) (distinctBy key xs) :=
  List.foldl_append

theorem distinctBy_concat (key : α → β) (xs : List α) (x : α) :
    distinctBy key (xs ++ [x]) = addDistinct key (distinctBy key xs) x := by
  rw [distinctBy_append, List.foldl_cons, List.foldl_nil]

/-- For every element there is a first one with its key. -/
theorem exists_mem_distinctBy {xs : List α} {x : α} (h : x ∈ xs) : ∃ y ∈ distinctBy key xs, key y = key x :=
  List.mem_map.mp (key_mem_foldl_addDistinct h)

/-- No key is lost. -/
theorem mem_map_distinctBy {xs : List α} {k : β} : k ∈ (distinctBy key xs).map key ↔ k ∈ xs.map key := by
  constructor
  · intro h
    obtain ⟨x, hx, rfl⟩ := List.mem_map.mp h
    exact List.mem_map_of_mem (mem_of_mem_distinctBy hx)
  · intro h
    obtain ⟨x, hx, rfl⟩ := List.mem_map.mp h
    exact key_mem_foldl_addDistinct hx

/-- Elements with keys that are there already are dropped. -/
theorem distinctBy_append_of_subset {xs ys : List α} (h : ∀ y ∈ ys, key y ∈ xs.map key) :
    distinctBy key (xs ++ ys) = distinctBy key xs := by
  rw [distinctBy_append]
  exact foldl_addDistinct_of_subset fun y hy => mem_map_distinctBy.mpr (h y hy)

theorem distinctBy_concat_of_mem {xs : List α} {x : α} (h : key x ∈ xs.map key) :
    distinctBy key (xs ++ [x]) = distinctBy key xs := by
  rw [distinctBy_concat, addDistinct_of_mem (mem_map_distinctBy.mpr h)]

theorem distinctBy_concat_of_not_mem {xs : List α} {x : α} (h : key x ∉ xs.map key) :
    distinctBy key (xs ++ [x]) = distinctBy key xs ++ [x] := by
  rw [distinctBy_concat, addDistinct_of_not_mem fun htaken => h (mem_map_distinctBy.mp htaken)]

/-- What is kept is a sublist. -/
theorem distinctBy_sublist (key : α → β) (xs : List α) : (distinctBy key xs).Sublist xs := by
  induction xs using List.reverseRecOn with
  | nil => exact List.Sublist.refl _
  | append_singleton xs x ih =>
    by_cases hx : key x ∈ xs.map key
    · rw [distinctBy_concat_of_mem hx]
      exact ih.trans (List.sublist_append_left xs [x])
    · rw [distinctBy_concat_of_not_mem hx]
      exact ih.append (List.Sublist.refl _)

/-- What is added comes last. -/
theorem prefix_foldl_addDistinct (acc ys : List α) : acc <+: ys.foldl (addDistinct key) acc := by
  induction ys generalizing acc with
  | nil => exact List.prefix_rfl
  | cons y ys ih =>
    refine List.IsPrefix.trans ?_ (ih (addDistinct key acc y))
    unfold addDistinct
    split
    · exact List.prefix_rfl
    · exact List.prefix_append _ _

/-- More elements at the end leave what was kept where it is. -/
theorem distinctBy_prefix_append (key : α → β) (xs ys : List α) : distinctBy key xs <+: distinctBy key (xs ++ ys) := by
  rw [distinctBy_append]
  exact prefix_foldl_addDistinct _ ys

/-- **Elements may be left out first**, if with an element all others of its key are left out. -/
theorem distinctBy_filter {p : α → Bool} {xs : List α} (h : ∀ x ∈ xs, ∀ y ∈ xs, key x = key y → p x = p y) :
    distinctBy key (xs.filter p) = (distinctBy key xs).filter p := by
  induction xs using List.reverseRecOn with
  | nil => rfl
  | append_singleton xs x ih =>
    have hinit := ih fun y hy z hz => h y (List.mem_append_left _ hy) z (List.mem_append_left _ hz)
    have hlast : ∀ y ∈ xs, key y = key x → p y = p x := fun y hy =>
      h y (List.mem_append_left _ hy) x (List.mem_append_right _ List.mem_cons_self)
    rw [List.filter_append, List.filter_singleton]
    by_cases htaken : key x ∈ xs.map key
    · rw [distinctBy_concat_of_mem htaken, ← hinit]
      cases hx : p x with
      | false => rw [cond_false, List.append_nil]
      | true =>
        obtain ⟨y, hy, hkey⟩ := List.mem_map.mp htaken
        have hkept : y ∈ xs.filter p := List.mem_filter.mpr ⟨hy, (hlast y hy hkey).trans hx⟩
        exact distinctBy_concat_of_mem (hkey ▸ List.mem_map_of_mem hkept)
    · rw [distinctBy_concat_of_not_mem htaken, List.filter_append, List.filter_singleton, ← hinit]
      cases p x with
      | false => rw [cond_false, List.append_nil, List.append_nil]
      | true => exact distinctBy_concat_of_not_mem fun hmem => htaken ((List.filter_sublist.map key).subset hmem)

/-- Of a list with every key once everything is kept. -/
theorem distinctBy_eq_self {xs : List α} (h : (xs.map key).Nodup) : distinctBy key xs = xs := by
  induction xs using List.reverseRecOn with
  | nil => rfl
  | append_singleton xs x ih =>
    rw [List.map_append, List.nodup_append] at h
    have hx : key x ∉ xs.map key := fun hmem => h.2.2 _ hmem _ List.mem_cons_self rfl
    rw [distinctBy_concat_of_not_mem hx, ih h.1]

/-- Of copies of one element a single one is kept. -/
theorem distinctBy_id_eq_singleton {xs : List β} {x : β} (hne : xs ≠ []) (h : ∀ y ∈ xs, y = x) :
    distinctBy id xs = [x] := by
  cases xs with
  | nil => exact absurd rfl hne
  | cons y ys =>
    obtain rfl := h y List.mem_cons_self
    show ys.foldl (addDistinct id) [y] = [y]
    refine foldl_addDistinct_of_subset fun z hz => ?_
    simp [h z (List.mem_cons_of_mem _ hz)]

/-- Duplicates of what is added may be dropped first. -/
theorem foldl_addDistinct_distinctBy (acc ys : List α) :
    (distinctBy key ys).foldl (addDistinct key) acc = ys.foldl (addDistinct key) acc := by
  induction ys using List.reverseRecOn with
  | nil => rfl
  | append_singleton ys y ih =>
    rw [List.foldl_append]
    by_cases hy : key y ∈ ys.map key
    · rw [distinctBy_concat_of_mem hy, ih]
      refine (addDistinct_of_mem ?_).symm
      obtain ⟨z, hz, hkey⟩ := List.mem_map.mp hy
      rw [← hkey]
      exact key_mem_foldl_addDistinct hz
    · rw [distinctBy_concat_of_not_mem hy, List.foldl_append, ih]

/-- Duplicates may be dropped on both sides before two lists are put together. -/
theorem distinctBy_append_distinctBy (xs ys : List α) :
    distinctBy key (distinctBy key xs ++ distinctBy key ys) = distinctBy key (xs ++ ys) := by
  rw [distinctBy_append, distinctBy_append, distinctBy_eq_self (nodup_map_distinctBy key xs),
    foldl_addDistinct_distinctBy]

/-- What a list is expanded to may be rid of duplicates piece by piece. -/
theorem distinctBy_flatMap_distinctBy {γ : Type} (f : γ → List α) (xs : List γ) :
    distinctBy key (xs.flatMap fun x => distinctBy key (f x)) = distinctBy key (xs.flatMap f) := by
  induction xs with
  | nil => rfl
  | cons x xs ih =>
    rw [List.flatMap_cons, List.flatMap_cons, ← distinctBy_append_distinctBy, ih,
      distinctBy_eq_self (nodup_map_distinctBy key (f x)), distinctBy_append_distinctBy]

/-- Only of nothing is nothing kept. -/
theorem distinctBy_eq_nil_iff {xs : List α} : distinctBy key xs = [] ↔ xs = [] := by
  constructor
  · intro h
    cases xs with
    | nil => rfl
    | cons x xs =>
      obtain ⟨y, hy, -⟩ : ∃ y ∈ distinctBy key (x :: xs), key y = key x := exists_mem_distinctBy List.mem_cons_self
      rw [h] at hy
      exact absurd hy List.not_mem_nil
  · rintro rfl
    rfl

/-- Where every key occurs once, an element is found by its key. -/
theorem find?_key_eq_some_iff {xs : List α} (h : (xs.map key).Nodup) {k : β} {x : α} :
    xs.find? (key · == k) = some x ↔ x ∈ xs ∧ key x = k := by
  constructor
  · intro hfind
    exact ⟨List.mem_of_find?_eq_some hfind, eq_of_beq (List.find?_some hfind :)⟩
  · rintro ⟨hmem, rfl⟩
    obtain ⟨before, after, rfl⟩ := List.append_of_mem hmem
    refine List.find?_eq_some_iff_append.mpr ⟨beq_self_eq_true _, before, after, rfl, fun other hother => ?_⟩
    rw [List.map_append, List.map_cons, List.nodup_append] at h
    have hne := h.2.2 _ (List.mem_map_of_mem hother) _ List.mem_cons_self
    simpa using hne

/-- Where every key occurs once, nothing else has the key of an element. -/
theorem filter_key_eq_singleton {xs : List α} (h : (xs.map key).Nodup) {x : α} (hx : x ∈ xs) :
    xs.filter (key · == key x) = [x] := by
  obtain ⟨before, after, rfl⟩ := List.append_of_mem hx
  rw [List.map_append, List.map_cons, List.nodup_append, List.nodup_cons] at h
  obtain ⟨-, ⟨hafter, -⟩, hbefore⟩ := h
  have hnone : before.filter (key · == key x) = [] := by
    rw [List.filter_eq_nil_iff]
    intro y hy hkey
    exact hbefore _ (List.mem_map_of_mem hy) _ List.mem_cons_self (eq_of_beq hkey)
  have hnone' : after.filter (key · == key x) = [] := by
    rw [List.filter_eq_nil_iff]
    intro y hy hkey
    exact hafter (eq_of_beq hkey ▸ List.mem_map_of_mem hy)
  rw [List.filter_append, List.filter_cons, if_pos (beq_self_eq_true (key x)), hnone, hnone', List.nil_append]

theorem find?_key_eq_none_iff {xs : List α} {k : β} : xs.find? (key · == k) = none ↔ k ∉ xs.map key := by
  rw [List.find?_eq_none, List.mem_map, not_exists]
  exact forall_congr' fun x => by rw [beq_iff_eq, not_and]

/-- The first element of a key is kept. -/
theorem find?_distinctBy (xs : List α) (k : β) : (distinctBy key xs).find? (key · == k) = xs.find? (key · == k) := by
  induction xs using List.reverseRecOn with
  | nil => rfl
  | append_singleton xs x ih =>
    by_cases hx : key x ∈ xs.map key
    · rw [distinctBy_concat_of_mem hx, ih, List.find?_append]
      by_cases hk : key x = k
      · obtain ⟨y, hy, hkey⟩ := List.mem_map.mp hx
        have hsome : (xs.find? (key · == k)).isSome :=
          List.find?_isSome.mpr ⟨y, hy, beq_iff_eq.mpr (hkey.trans hk)⟩
        rw [Option.or_of_isSome hsome]
      · simp [hk]
    · rw [distinctBy_concat_of_not_mem hx, List.find?_append, List.find?_append, ih]

/-! ## Elements that repeat an earlier one -/

/-- An element of a list whose key an element `before` it has. -/
def Repeats (key : α → β) (xs before : List α) (x : α) : Prop :=
  (∃ after, xs = before ++ x :: after) ∧ key x ∈ before.map key

omit [DecidableEq β] in
theorem repeats_concat_iff {xs before : List α} {last x : α} :
    Repeats key (xs ++ [last]) before x ↔
      Repeats key xs before x ∨ before = xs ∧ x = last ∧ key last ∈ xs.map key := by
  constructor
  · rintro ⟨⟨after, hsplit⟩, hkey⟩
    rcases List.eq_nil_or_concat after with rfl | ⟨middle, other, rfl⟩
    · obtain ⟨rfl, hlast⟩ := List.append_inj' hsplit rfl
      obtain rfl := List.cons.inj hlast |>.1
      exact .inr ⟨rfl, rfl, hkey⟩
    · have hsplit' : xs ++ [last] = (before ++ x :: middle) ++ [other] := by
        rw [hsplit]
        simp
      exact .inl ⟨⟨middle, (List.append_inj' hsplit' rfl).1⟩, hkey⟩
  · rintro (⟨⟨after, rfl⟩, hkey⟩ | ⟨rfl, rfl, hkey⟩)
    · exact ⟨⟨after ++ [last], by simp⟩, hkey⟩
    · exact ⟨⟨[], rfl⟩, hkey⟩

/-- Of the elements with the key of a repeated one, the one that is kept stands before it. -/
theorem Repeats.mem_before {xs before : List α} {x y : α} (h : Repeats key xs before x)
    (hy : y ∈ distinctBy key xs) (hkey : key y = key x) : y ∈ before := by
  obtain ⟨⟨after, rfl⟩, htaken⟩ := h
  obtain ⟨z, hz, hsame⟩ := List.mem_map.mp (mem_map_distinctBy.mpr htaken)
  have hkept : z ∈ distinctBy key (before ++ x :: after) := by
    rw [distinctBy_append]
    exact subset_foldl_addDistinct hz
  obtain rfl := List.inj_on_of_nodup_map (nodup_map_distinctBy key _) hy hkept (hkey.trans hsame.symm)
  exact mem_of_mem_distinctBy hz

section

variable {γ κ : Type} [DecidableEq κ] {f : α → List γ}

/-- **Without its duplicates a list is expanded to the same** exactly if what repeats an earlier element is
expanded to nothing. -/
theorem flatMap_distinctBy_eq_iff {xs : List α} :
    xs.flatMap f = (distinctBy key xs).flatMap f ↔ ∀ before x, Repeats key xs before x → f x = [] := by
  induction xs using List.reverseRecOn with
  | nil => exact iff_of_true rfl fun before x h => absurd h.1.choose_spec (by simp)
  | append_singleton xs last ih =>
    have hlonger := ((distinctBy_sublist key xs).flatMap f).length_le
    rw [List.flatMap_append, List.flatMap_singleton]
    by_cases hlast : key last ∈ xs.map key
    · rw [distinctBy_concat_of_mem hlast]
      constructor
      · intro h before x hx
        -- what is kept expands to no more than the list without its last element
        have hlength := congrArg List.length h
        rw [List.length_append] at hlength
        have hnone : f last = [] := List.eq_nil_of_length_eq_zero (by omega)
        rw [hnone, List.append_nil] at h
        rcases repeats_concat_iff.mp hx with hx | ⟨-, rfl, -⟩
        · exact ih.mp h before x hx
        · exact hnone
      · intro h
        rw [h xs last (repeats_concat_iff.mpr (.inr ⟨rfl, rfl, hlast⟩)), List.append_nil]
        exact ih.mpr fun before x hx => h before x (repeats_concat_iff.mpr (.inl hx))
    · rw [distinctBy_concat_of_not_mem hlast, List.flatMap_append, List.flatMap_singleton,
        List.append_left_inj, ih]
      refine forall₂_congr fun before x => ?_
      rw [repeats_concat_iff]
      simp [hlast]

/-- What is expanded from the kept elements has no key that is not there anyway. -/
theorem distinctBy_flatMap_of_repeats {k : γ → κ} {xs : List α}
    (h : ∀ before x, Repeats key xs before x → ∀ y ∈ f x, k y ∈ (before.flatMap f).map k) :
    distinctBy k (xs.flatMap f) = distinctBy k ((distinctBy key xs).flatMap f) := by
  induction xs using List.reverseRecOn with
  | nil => rfl
  | append_singleton xs last ih =>
    have hinit := ih fun before x hx => h before x (repeats_concat_iff.mpr (.inl hx))
    rw [List.flatMap_append, List.flatMap_singleton, distinctBy_append]
    by_cases hlast : key last ∈ xs.map key
    · rw [distinctBy_concat_of_mem hlast, ← hinit]
      refine foldl_addDistinct_of_subset fun y hy => mem_map_distinctBy.mpr ?_
      exact h xs last (repeats_concat_iff.mpr (.inr ⟨rfl, rfl, hlast⟩)) y hy
    · rw [distinctBy_concat_of_not_mem hlast, List.flatMap_append, List.flatMap_singleton, distinctBy_append,
        hinit]

theorem filter_foldl_addDistinct {k : γ → κ} {p : γ → Bool} {ys acc : List γ} (h : ∀ y ∈ ys, p y = false) :
    (ys.foldl (addDistinct k) acc).filter p = acc.filter p := by
  induction ys generalizing acc with
  | nil => rfl
  | cons y ys ih =>
    rw [List.foldl_cons, ih fun z hz => h z (List.mem_cons_of_mem y hz)]
    unfold addDistinct
    split
    · rfl
    · simp [h y List.mem_cons_self]

/-- Where every expansion tells what it comes from, the converse holds: if dropping the duplicates first makes
no difference, all that they are expanded to has keys that are there before. -/
theorem repeats_of_distinctBy_flatMap {k : γ → κ} {owner : γ → β} {xs : List α}
    (howner : ∀ x ∈ xs, ∀ y ∈ f x, owner y = key x)
    (h : distinctBy k (xs.flatMap f) = distinctBy k ((distinctBy key xs).flatMap f)) :
    ∀ before x, Repeats key xs before x → ∀ y ∈ f x, k y ∈ (before.flatMap f).map k := by
  induction xs using List.reverseRecOn with
  | nil => exact fun before x hx => absurd hx.1.choose_spec (by simp)
  | append_singleton xs last ih =>
    have hinit : ∀ x ∈ xs, ∀ y ∈ f x, owner y = key x := fun x hx => howner x (List.mem_append_left _ hx)
    have hlastOwner := howner last (List.mem_append_right _ List.mem_cons_self)
    have hkept : ∀ y ∈ (distinctBy key xs).flatMap f, y ∈ xs.flatMap f := by
      intro y hy
      obtain ⟨x, hx, hy⟩ := List.mem_flatMap.mp hy
      exact List.mem_flatMap.mpr ⟨x, mem_of_mem_distinctBy hx, hy⟩
    rw [List.flatMap_append, List.flatMap_singleton] at h
    by_cases hlast : key last ∈ xs.map key
    · -- the last element repeats a key: on the right it is dropped before it is expanded
      rw [distinctBy_concat_of_mem hlast] at h
      have hthere : ∀ y ∈ f last, k y ∈ (xs.flatMap f).map k := by
        intro y hy
        have hmem : k y ∈ (distinctBy k (xs.flatMap f ++ f last)).map k :=
          mem_map_distinctBy.mpr (List.mem_map_of_mem (List.mem_append_right _ hy))
        rw [h] at hmem
        obtain ⟨z, hz, hkey⟩ := List.mem_map.mp (mem_map_distinctBy.mp hmem)
        exact List.mem_map.mpr ⟨z, hkept z hz, hkey⟩
      rw [distinctBy_append, foldl_addDistinct_of_subset fun y hy => mem_map_distinctBy.mpr (hthere y hy)] at h
      intro before x hx
      rcases repeats_concat_iff.mp hx with hx | ⟨rfl, rfl, -⟩
      · exact ih hinit h before x hx
      · exact hthere
    · -- what the last element is expanded to is left out on both sides
      have hout : ∀ y ∈ f last, (decide (owner y ≠ key last)) = false := by
        intro y hy
        simpa using hlastOwner y hy
      have hin : ∀ ys : List γ, (∀ y ∈ ys, y ∈ xs.flatMap f) →
          (distinctBy k ys).filter (fun y => decide (owner y ≠ key last)) = distinctBy k ys := by
        intro ys hys
        refine List.filter_eq_self.mpr fun y hy => ?_
        obtain ⟨x, hx, hy⟩ := List.mem_flatMap.mp (hys y (mem_of_mem_distinctBy hy))
        rw [hinit x hx y hy]
        exact decide_eq_true fun heq => hlast (heq ▸ List.mem_map_of_mem hx)
      rw [distinctBy_concat_of_not_mem hlast, List.flatMap_append, List.flatMap_singleton, distinctBy_append,
        distinctBy_append] at h
      have hfilter := congrArg (List.filter fun y => decide (owner y ≠ key last)) h
      rw [filter_foldl_addDistinct hout, filter_foldl_addDistinct hout, hin _ fun y hy => hy, hin _ hkept]
        at hfilter
      intro before x hx
      rcases repeats_concat_iff.mp hx with hx | ⟨-, -, htaken⟩
      · exact ih hinit hfilter before x hx
      · exact absurd htaken hlast

end

/-- Dropping duplicates before every element is expanded makes no difference. -/
theorem distinctBy_flatMap [DecidableEq α] {κ : Type} [DecidableEq κ] (g : α → List κ) (xs : List α) :
    distinctBy id (xs.flatMap g) = distinctBy id ((distinctBy id xs).flatMap g) := by
  refine distinctBy_flatMap_of_repeats fun before x hx y hy => ?_
  obtain ⟨z, hz, rfl⟩ := List.mem_map.mp hx.2
  exact List.mem_map_of_mem (List.mem_flatMap.mpr ⟨z, hz, hy⟩)

/-! ## Elements under a map -/

section

variable {γ : Type} {f : γ → α}

theorem addDistinct_map (xs : List γ) (x : γ) :
    addDistinct key (xs.map f) (f x) = (addDistinct (key ∘ f) xs x).map f := by
  by_cases hmem : key (f x) ∈ xs.map (key ∘ f)
  · rw [addDistinct_of_mem (by rwa [List.map_map]), addDistinct_of_mem hmem]
  · rw [addDistinct_of_not_mem (by rwa [List.map_map]), addDistinct_of_not_mem hmem, List.map_append]
    rfl

/-- Keeping first occurrences commutes with a map, if the keys are those of the images. -/
theorem foldl_addDistinct_map (ys xs : List γ) :
    (ys.map f).foldl (addDistinct key) (xs.map f) = (ys.foldl (addDistinct (key ∘ f)) xs).map f := by
  induction ys generalizing xs with
  | nil => rfl
  | cons y ys ih => rw [List.map_cons, List.foldl_cons, List.foldl_cons, addDistinct_map, ih]

end

end JobClosure
