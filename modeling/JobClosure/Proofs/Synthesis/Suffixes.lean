import JobClosure.Synthesis
import Mathlib.Data.List.Nodup
import Mathlib.Data.List.Perm.Subperm
import Mathlib.Data.Nat.Find
import Mathlib.Logic.Function.Iterate

/-!
# The search for a free name

A member is called after a mangled spelling. While the name is taken, the suffixes `_2`, `_3` and so on are
tried (`Trial.step`). No name is tried twice, so the search is over after at most as many rounds as there are
names taken (`Trial.exists_endsIn`). The name it ends with is the one that `freshName` finds among a bounded
number of candidates (`Trial.EndsIn.name_eq`), and it is either the mangled spelling itself or the first free
one with a suffix (`chosen_freshName`).
-/

namespace JobClosure

namespace Synthesis

variable {used : List String} {base : String}

/-- A name with a number after it. -/
def suffixed (base : String) (suffix : Nat) : String := base ++ "_" ++ toString suffix

/-- The names that are tried, in their order. -/
def tried (base : String) : Nat → String
  | 0 => base
  | n + 1 => suffixed base (n + 2)

theorem toList_suffixed (base : String) (suffix : Nat) :
    (suffixed base suffix).toList = base.toList ++ '_' :: Nat.toDigits 10 suffix := by
  simp [suffixed, toString]

theorem suffixed_injective (base : String) : Function.Injective (suffixed base) := by
  intro m n h
  have hdigits : Nat.toDigits 10 m = Nat.toDigits 10 n := by
    have hlist := congrArg String.toList h
    rw [toList_suffixed, toList_suffixed] at hlist
    exact (List.cons.inj (List.append_cancel_left hlist)).2
  calc
    m = Nat.ofDigitChars 10 (Nat.toDigits 10 m) 0 := Nat.ofDigitChars_ten_toDigits.symm
    _ = Nat.ofDigitChars 10 (Nat.toDigits 10 n) 0 := by rw [hdigits]
    _ = n := Nat.ofDigitChars_ten_toDigits

theorem suffixed_ne (base : String) (suffix : Nat) : suffixed base suffix ≠ base := by
  intro h
  have hlength := congrArg (fun name => name.toList.length) h
  simp [toList_suffixed] at hlength

theorem tried_injective (base : String) : Function.Injective (tried base) := by
  intro m n h
  cases m with
  | zero =>
    cases n with
    | zero => rfl
    | succ n => exact absurd h.symm (suffixed_ne base (n + 2))
  | succ m =>
    cases n with
    | zero => exact absurd h (suffixed_ne base (m + 2))
    | succ n =>
      have := suffixed_injective base h
      omega

theorem candidateNames_eq (base : String) (count : Nat) :
    candidateNames base count = (List.range (count + 1)).map (tried base) := by
  rw [List.range_succ_eq_map, List.map_cons, List.map_map]
  rfl

/-! ## The first free name -/

/-- Of the names that are tried, the one with number `n` is the first that is free. -/
structure FirstFree (used : List String) (base : String) (n : Nat) : Prop where
  free : tried base n ∉ used
  taken : ∀ k < n, tried base k ∈ used

/-- One name more than are taken cannot be taken altogether. -/
theorem exists_tried_not_mem (used : List String) (base : String) : ∃ n ≤ used.length, tried base n ∉ used := by
  by_contra! hall
  -- the names that are tried differ, so there is one too many of them
  have hsubset : (List.range (used.length + 1)).map (tried base) ⊆ used := by
    intro name hname
    obtain ⟨n, hn, rfl⟩ := List.mem_map.mp hname
    exact hall n (Nat.le_of_lt_succ (List.mem_range.mp hn))
  have hnodup : ((List.range (used.length + 1)).map (tried base)).Nodup :=
    List.nodup_range.map (tried_injective base)
  have hlength := (hnodup.subperm hsubset).length_le
  rw [List.length_map, List.length_range] at hlength
  exact absurd hlength (Nat.not_succ_le_self _)

theorem exists_firstFree (used : List String) (base : String) : ∃ n ≤ used.length, FirstFree used base n := by
  obtain ⟨m, hm, hfree⟩ := exists_tried_not_mem used base
  have hex : ∃ n, tried base n ∉ used := ⟨m, hfree⟩
  refine ⟨Nat.find hex, Nat.le_trans (Nat.find_min' hex hfree) hm, Nat.find_spec hex, fun k hk => ?_⟩
  exact not_not.mp (Nat.find_min hex hk)

/-- **The bounded search comes to the first free name.** -/
theorem FirstFree.freshName_eq {n : Nat} (h : FirstFree used base n) (hn : n ≤ used.length) :
    freshName used base = tried base n := by
  have hfind : (List.range (used.length + 1)).find? (fun k => !used.contains (tried base k)) = some n := by
    rw [List.find?_range_eq_some]
    refine ⟨by simpa using h.free, List.mem_range.mpr (Nat.lt_succ_of_le hn), fun k hk => ?_⟩
    simpa using h.taken k hk
  unfold freshName
  rw [candidateNames_eq, List.find?_map]
  exact congrArg (fun found : Option Nat => (found.map (tried base)).getD base) hfind

/-- What a name is that is chosen for a member while others are taken: the mangled spelling, or the first free
name with a suffix. -/
def Chosen (used : List String) (base name : String) : Prop :=
  (base ∉ used ∧ name = base) ∨
    base ∈ used ∧ ∃ k, 2 ≤ k ∧ name = suffixed base k ∧ name ∉ used ∧ ∀ j, 2 ≤ j → j < k → suffixed base j ∈ used

theorem Chosen.not_mem {name : String} (h : Chosen used base name) : name ∉ used := by
  rcases h with ⟨hfree, rfl⟩ | ⟨-, k, -, -, hfree, -⟩
  · exact hfree
  · exact hfree

theorem FirstFree.chosen {n : Nat} (h : FirstFree used base n) : Chosen used base (tried base n) := by
  cases n with
  | zero => exact .inl ⟨h.free, rfl⟩
  | succ n =>
    refine .inr ⟨h.taken 0 (Nat.succ_pos n), n + 2, Nat.le_add_left 2 n, rfl, h.free, fun j htwo hj => ?_⟩
    obtain ⟨k, rfl⟩ := Nat.exists_eq_add_of_le htwo
    rw [Nat.add_comm] at hj ⊢
    exact h.taken (k + 1) (by omega)

/-- **The name of a member** is the mangled spelling, or the first free one with a suffix. -/
theorem chosen_freshName (used : List String) (base : String) : Chosen used base (freshName used base) := by
  obtain ⟨n, hn, hfirst⟩ := exists_firstFree used base
  rw [hfirst.freshName_eq hn]
  exact hfirst.chosen

/-! ## The search without a bound -/

/-- A state of the search: the name that is looked at, and the suffix that comes next. -/
structure Trial where
  name : String
  next : Nat

namespace Trial

def start (base : String) : Trial := ⟨base, 2⟩

/-- One round. The search stands still at a name that is free. -/
def step (used : List String) (base : String) (t : Trial) : Trial :=
  if t.name ∈ used then ⟨suffixed base t.next, t.next + 1⟩ else t

def after (used : List String) (base : String) (rounds : Nat) : Trial := (step used base)^[rounds] (start base)

/-- The search is over after some rounds, and not before. -/
structure EndsIn (used : List String) (base : String) (rounds : Nat) : Prop where
  free : (after used base rounds).name ∉ used
  taken : ∀ k < rounds, (after used base k).name ∈ used

/-- **One round** goes from a name that is taken to the next one that is tried. -/
theorem step_tried {n : Nat} (h : tried base n ∈ used) :
    step used base ⟨tried base n, n + 2⟩ = ⟨tried base (n + 1), n + 3⟩ :=
  if_pos h

/-- As long as all names are taken, every round tries one. -/
theorem after_eq {n : Nat} (h : ∀ k < n, tried base k ∈ used) : after used base n = ⟨tried base n, n + 2⟩ := by
  induction n with
  | zero => rfl
  | succ n ih =>
    have hbefore : after used base n = ⟨tried base n, n + 2⟩ := ih fun k hk => h k (Nat.lt_succ_of_lt hk)
    rw [after, Function.iterate_succ_apply', ← after, hbefore, step_tried (h n (Nat.lt_succ_self n))]

theorem endsIn_of_firstFree {n : Nat} (h : FirstFree used base n) : EndsIn used base n := by
  refine ⟨?_, fun k hk => ?_⟩
  · rw [after_eq h.taken]
    exact h.free
  · rw [after_eq fun j hj => h.taken j (Nat.lt_trans hj hk)]
    exact h.taken k hk

/-- **The search always ends**, whatever names are taken. -/
theorem exists_endsIn (used : List String) (base : String) : ∃ rounds ≤ used.length, EndsIn used base rounds := by
  obtain ⟨n, hn, hfirst⟩ := exists_firstFree used base
  exact ⟨n, hn, endsIn_of_firstFree hfirst⟩

theorem EndsIn.eq {m n : Nat} (hm : EndsIn used base m) (hn : EndsIn used base n) : m = n := by
  rcases Nat.lt_trichotomy m n with hlt | heq | hlt
  · exact absurd (hn.taken m hlt) hm.free
  · exact heq
  · exact absurd (hm.taken n hlt) hn.free

/-- **The search ends with the name that is found among the candidates.** -/
theorem EndsIn.name_eq {rounds : Nat} (h : EndsIn used base rounds) :
    (after used base rounds).name = freshName used base := by
  obtain ⟨n, hn, hfirst⟩ := exists_firstFree used base
  obtain rfl := h.eq (endsIn_of_firstFree hfirst)
  rw [after_eq hfirst.taken, hfirst.freshName_eq hn]

end Trial

/-! ## The names of all members -/

theorem length_memberNames (used : List String) (refs : List TypeRef) :
    (memberNames used refs).length = refs.length := by
  induction refs generalizing used with
  | nil => rfl
  | cons ref rest ih => rw [memberNames, List.length_cons, List.length_cons, ih]

/-- The first member is called by its mangled spelling. -/
theorem memberNames_cons (ref : TypeRef) (rest : List TypeRef) :
    memberNames [] (ref :: rest) = ref.mangle :: memberNames [ref.mangle] rest := by
  have hfirst : freshName [] ref.mangle = ref.mangle := by
    rcases chosen_freshName [] ref.mangle with ⟨-, hname⟩ | ⟨htaken, -⟩
    · exact hname
    · exact absurd htaken List.not_mem_nil
  rw [memberNames, hfirst, List.nil_append]

/-- Every member is called by what is free after the members before it. -/
theorem getElem_memberNames (used : List String) (refs : List TypeRef) {i : Nat} (hi : i < refs.length)
    (hi' : i < (memberNames used refs).length) :
    (memberNames used refs)[i] = freshName (used ++ (memberNames used refs).take i) refs[i].mangle := by
  induction refs generalizing used i with
  | nil => exact absurd hi (Nat.not_lt_zero i)
  | cons ref rest ih =>
    cases i with
    | zero => simp [memberNames]
    | succ i =>
      have hrest : i < (memberNames (used ++ [freshName used ref.mangle]) rest).length := by
        rw [length_memberNames]
        exact Nat.lt_of_succ_lt_succ hi
      -- for the rest of the references the name of the first one is taken as well
      simp only [memberNames, List.getElem_cons_succ, List.take_succ_cons]
      rw [ih _ (Nat.lt_of_succ_lt_succ hi) hrest, List.append_assoc, List.singleton_append]

/-- **No two members have one name**, and none has a name that was taken before. -/
theorem nodup_append_memberNames (hused : used.Nodup) (refs : List TypeRef) :
    (used ++ memberNames used refs).Nodup := by
  induction refs generalizing used with
  | nil => simpa [memberNames] using hused
  | cons ref rest ih =>
    have hfree := (chosen_freshName used ref.mangle).not_mem
    have hnext : (used ++ [freshName used ref.mangle]).Nodup := by
      rw [List.nodup_append]
      refine ⟨hused, List.nodup_singleton _, fun a ha b hb => ?_⟩
      rw [List.mem_singleton.mp hb]
      exact fun heq => hfree (heq ▸ ha)
    rw [memberNames, List.append_cons]
    exact ih hnext

theorem nodup_memberNames (refs : List TypeRef) : (memberNames [] refs).Nodup :=
  nodup_append_memberNames List.nodup_nil refs

end Synthesis

end JobClosure
