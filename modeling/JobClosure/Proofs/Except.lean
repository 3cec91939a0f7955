import Mathlib.Data.List.Forall2

/-!
# Computations that may fail

What a computation that succeeded says about the steps that it is made of. Readers of documents, spellings
and bodies are such computations, and facts about what they read are shown from the last step back.
-/

namespace JobClosure

variable {ε ε' α β : Type}

theorem bind_eq_ok {x : Except ε α} {f : α → Except ε β} {b : β} (h : x >>= f = .ok b) :
    ∃ a, x = .ok a ∧ f a = .ok b := by
  cases x with
  | error e => exact nomatch h
  | ok a => exact ⟨a, rfl, h⟩

theorem bind_eq_error {x : Except ε α} {f : α → Except ε β} {e : ε} (h : x >>= f = .error e) :
    x = .error e ∨ ∃ a, x = .ok a ∧ f a = .error e := by
  cases x with
  | error e' => exact .inl (congrArg Except.error (Except.error.inj h))
  | ok a => exact .inr ⟨a, rfl, h⟩

theorem map_eq_ok {x : Except ε α} {f : α → β} {b : β} (h : f <$> x = .ok b) :
    ∃ a, x = .ok a ∧ f a = b := by
  cases x with
  | error e => exact nomatch h
  | ok a => exact ⟨a, rfl, Except.ok.inj h⟩

theorem map_eq_error {x : Except ε α} {f : α → β} {e : ε} (h : x.map f = .error e) : x = .error e := by
  cases x with
  | error e' => exact congrArg Except.error (Except.error.inj h)
  | ok a => exact nomatch h

theorem mapError_eq_ok {x : Except ε α} {f : ε → ε'} {a : α} (h : x.mapError f = .ok a) : x = .ok a := by
  cases x with
  | error e => exact nomatch h
  | ok b => exact congrArg Except.ok (Except.ok.inj h)

theorem mapError_eq_error {x : Except ε α} {f : ε → ε'} {e : ε'} (h : x.mapError f = .error e) :
    ∃ cause, x = .error cause ∧ f cause = e := by
  cases x with
  | error cause => exact ⟨cause, rfl, Except.error.inj h⟩
  | ok a => exact nomatch h

/-- Every element of the result comes from one of the list. -/
theorem exists_mem_of_mem_mapM {f : α → Except ε β} {xs : List α} {ys : List β} (h : xs.mapM f = .ok ys) :
    ∀ y ∈ ys, ∃ x ∈ xs, f x = .ok y := by
  induction xs generalizing ys with
  | nil =>
    obtain rfl : [] = ys := Except.ok.inj h
    intro y hy
    exact absurd hy List.not_mem_nil
  | cons x xs ih =>
    rw [List.mapM_cons] at h
    obtain ⟨first, hfirst, h⟩ := bind_eq_ok h
    obtain ⟨rest, hrest, h⟩ := bind_eq_ok h
    obtain rfl : first :: rest = ys := Except.ok.inj h
    intro y hy
    rcases List.mem_cons.mp hy with rfl | hy
    · exact ⟨x, List.mem_cons_self, hfirst⟩
    · obtain ⟨x', hx', hok⟩ := ih hrest y hy
      exact ⟨x', List.mem_cons_of_mem x hx', hok⟩

/-- A list that cannot be worked through has an element that fails. -/
theorem exists_mem_of_mapM_eq_error {f : α → Except ε β} {xs : List α} {e : ε} (h : xs.mapM f = .error e) :
    ∃ x ∈ xs, f x = .error e := by
  induction xs with
  | nil => exact nomatch h
  | cons x xs ih =>
    rw [List.mapM_cons] at h
    rcases bind_eq_error h with h | ⟨first, -, h⟩
    · exact ⟨x, List.mem_cons_self, h⟩
    · rcases bind_eq_error h with h | ⟨rest, -, h⟩
      · obtain ⟨y, hy, hfails⟩ := ih h
        exact ⟨y, List.mem_cons_of_mem x hy, hfails⟩
      · exact nomatch h

/-- A computation that succeeds with `k x` on every `g x` succeeds on the whole list. -/
theorem mapM_map_eq_ok {γ : Type} {f : β → Except ε γ} {g : α → β} {k : α → γ} {xs : List α}
    (h : ∀ x ∈ xs, f (g x) = .ok (k x)) : (xs.map g).mapM f = .ok (xs.map k) := by
  induction xs with
  | nil => rfl
  | cons x xs ih =>
    rw [List.map_cons, List.mapM_cons, h x List.mem_cons_self, ih fun y hy => h y (List.mem_cons_of_mem x hy)]
    rfl

/-- Computations that succeed where others do, one by one and with the same result, do so on a whole list. -/
theorem mapM_eq_ok_of_forall₂ {γ : Type} {f : α → Except ε β} {g : γ → Except ε β} {xs : List α} {xs' : List γ}
    {ys : List β} (h : List.Forall₂ (fun x x' => ∀ y, f x = .ok y → g x' = .ok y) xs xs')
    (hf : xs.mapM f = .ok ys) : xs'.mapM g = .ok ys := by
  induction h generalizing ys with
  | nil => exact hf
  | cons hstep _ ih =>
    rw [List.mapM_cons] at hf ⊢
    obtain ⟨first, hfirst, hf⟩ := bind_eq_ok hf
    obtain ⟨rest, hrest, hf⟩ := bind_eq_ok hf
    rw [hstep first hfirst, ih hrest]
    exact hf

theorem mapM_eq_ok_of_imp {f g : α → Except ε β} {xs : List α} {ys : List β}
    (h : ∀ x ∈ xs, ∀ y, f x = .ok y → g x = .ok y) (hf : xs.mapM f = .ok ys) : xs.mapM g = .ok ys :=
  mapM_eq_ok_of_forall₂ (List.forall₂_same.mpr h) hf

/-- The items that are kept give the results that are kept, if a result says whether its item is kept. -/
theorem mapM_filter_eq_ok {f : α → Except ε β} {p : α → Bool} {q : β → Bool} {xs : List α} {ys : List β}
    (hkeep : ∀ x y, f x = .ok y → q y = p x) (h : xs.mapM f = .ok ys) :
    (xs.filter p).mapM f = .ok (ys.filter q) := by
  induction xs generalizing ys with
  | nil =>
    obtain rfl : [] = ys := Except.ok.inj h
    rfl
  | cons x xs ih =>
    rw [List.mapM_cons] at h
    obtain ⟨first, hfirst, h⟩ := bind_eq_ok h
    obtain ⟨rest, hrest, h⟩ := bind_eq_ok h
    obtain rfl : first :: rest = ys := Except.ok.inj h
    rw [List.filter_cons, List.filter_cons, hkeep x first hfirst]
    split
    · rw [List.mapM_cons, hfirst, ih hrest]
      rfl
    · exact ih hrest

/-- A computation on a list succeeds on the list in another order, with the results in another order. -/
theorem mapM_perm {f : α → Except ε β} {xs xs' : List α} {ys : List β} (hperm : xs.Perm xs')
    (h : xs.mapM f = .ok ys) : ∃ ys', xs'.mapM f = .ok ys' ∧ ys.Perm ys' := by
  induction hperm generalizing ys with
  | nil => exact ⟨ys, h, List.Perm.refl _⟩
  | @cons x xs xs' _ ih =>
    rw [List.mapM_cons] at h
    obtain ⟨first, hfirst, h⟩ := bind_eq_ok h
    obtain ⟨rest, hrest, h⟩ := bind_eq_ok h
    obtain rfl : first :: rest = ys := Except.ok.inj h
    obtain ⟨rest', hrest', hperm⟩ := ih hrest
    refine ⟨first :: rest', ?_, hperm.cons first⟩
    rw [List.mapM_cons, hfirst, hrest']
    rfl
  | swap x y xs =>
    rw [List.mapM_cons, List.mapM_cons] at h
    obtain ⟨first, hfirst, h⟩ := bind_eq_ok h
    obtain ⟨more, hmore, h⟩ := bind_eq_ok h
    obtain ⟨second, hsecond, hmore⟩ := bind_eq_ok hmore
    obtain ⟨rest, hrest, hmore⟩ := bind_eq_ok hmore
    obtain rfl : second :: rest = more := Except.ok.inj hmore
    obtain rfl : first :: second :: rest = ys := Except.ok.inj h
    refine ⟨second :: first :: rest, ?_, List.Perm.swap second first rest⟩
    rw [List.mapM_cons, List.mapM_cons, hfirst, hsecond, hrest]
    rfl
  | trans _ _ ih ih' =>
    obtain ⟨between, hbetween, hperm⟩ := ih h
    obtain ⟨ys', hys', hperm'⟩ := ih' hbetween
    exact ⟨ys', hys', hperm.trans hperm'⟩

/-- Lists whose elements give the same, one by one, give the same. -/
theorem mapM_congr_of_forall₂ {γ : Type} {f : α → Except ε β} {g : γ → Except ε β} {xs : List α} {ys : List γ}
    (h : List.Forall₂ (fun x y => f x = g y) xs ys) : xs.mapM f = ys.mapM g := by
  induction h with
  | nil => rfl
  | cons hfirst _ ih => rw [List.mapM_cons, List.mapM_cons, hfirst, ih]

theorem mapM_append_eq_ok {f : α → Except ε β} {xs xs' : List α} {ys ys' : List β} (h : xs.mapM f = .ok ys)
    (h' : xs'.mapM f = .ok ys') : (xs ++ xs').mapM f = .ok (ys ++ ys') := by
  rw [List.mapM_append, h, h']
  rfl

/-- A list cannot be worked through to its last element, or this element fails. -/
theorem mapM_concat_eq_error_iff {f : α → Except ε β} {xs : List α} {x : α} {error : ε} :
    (xs ++ [x]).mapM f = .error error ↔
      xs.mapM f = .error error ∨ (∃ ys, xs.mapM f = .ok ys) ∧ f x = .error error := by
  rw [List.mapM_append, List.mapM_cons, List.mapM_nil]
  cases xs.mapM f with
  | error other =>
    show (.error other : Except ε (List β)) = .error error ↔ _
    simp
  | ok ys =>
    cases f x with
    | error other =>
      show (.error other : Except ε (List β)) = .error error ↔ _
      simp
    | ok y =>
      show (.ok (ys ++ [y]) : Except ε (List β)) = .error error ↔ _
      simp

end JobClosure
