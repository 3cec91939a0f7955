import JobClosure.Cancellation
import JobClosure.Error

/-!
# Work that asks whether it has been cancelled

Work is told here by what it makes of the cancellation that it starts with. Its questions do not depend on the
cancellation, only how many of them are put: work **asks** `n` questions if it comes to its answer as soon as `n` are
answered with no, and is stopped if one of them is not (`Asks`).

When one work goes on from another the numbers add up (`Asks.andThen`). For work with a result and a state all that is
wanted is that there is such a number, and that the result has nothing to do with the cancellation (`Polls`); this goes
from the steps of a computation to the whole, through results that are used and errors that are handed on.
-/

namespace JobClosure

namespace Cancellation

/-- What is left of a cancellation after some questions, if all are answered with no. -/
def askAll? : Nat → Cancellation → Option Cancellation
  | 0, c => some c
  | n + 1, c => c.ask?.bind (askAll? n)

theorem askAll?_add (n m : Nat) (c : Cancellation) : askAll? (n + m) c = (askAll? n c).bind (askAll? m) := by
  induction n generalizing c with
  | zero => rw [Nat.zero_add]; rfl
  | succ n ih =>
    rw [Nat.succ_add, askAll?, askAll?]
    cases c.ask? with
    | none => rfl
    | some next => exact ih next

/-- Without a cancellation every question is answered with no. -/
theorem askAll?_never (n : Nat) : askAll? n .never = some .never := by
  induction n with
  | zero => rfl
  | succ n ih => exact ih

/-- A cancellation answers as many questions with no as it says. -/
theorem askAll?_after (n questions : Nat) :
    askAll? n (.after questions) = if n ≤ questions then some (.after (questions - n)) else none := by
  induction n generalizing questions with
  | zero => rw [if_pos (Nat.zero_le _)]; rfl
  | succ n ih =>
    cases questions with
    | zero => rw [if_neg (Nat.not_succ_le_zero n)]; rfl
    | succ questions =>
      show askAll? n (.after questions) = _
      rw [ih, Nat.add_sub_add_right]
      by_cases hle : n ≤ questions
      · rw [if_pos hle, if_pos (Nat.succ_le_succ hle)]
      · rw [if_neg hle, if_neg fun h => hle (Nat.le_of_succ_le_succ h)]

end Cancellation

open Cancellation (askAll?)

/-! ## Counted questions -/

/-- Work asks `n` questions and then has its answer. -/
structure Asks {β : Type} (stopped : β → Prop) (work : Cancellation → β) (n : Nat) (answer : Cancellation → β) :
    Prop where
  /-- If they are answered with no, the work ends in its answer with what is left of the cancellation. -/
  ends : ∀ {c left : Cancellation}, askAll? n c = some left → work c = answer left
  /-- Otherwise it is stopped. -/
  stops : ∀ {c : Cancellation}, askAll? n c = none → stopped (work c)
  /-- No answer is one of work that was stopped. -/
  goes : ∀ c, ¬ stopped (answer c)

namespace Asks

variable {β γ : Type} {stopped : β → Prop} {stopped' : γ → Prop} {work first answer : Cancellation → β} {n m : Nat}

/-- Work that asks nothing. -/
theorem nothing (h : ∀ c, ¬ stopped (answer c)) : Asks stopped answer 0 answer where
  ends hleft := by rw [Option.some.inj hleft]
  stops hnone := nomatch hnone
  goes := h

/-- **Work that asks once** before it goes on. -/
theorem once {next : Cancellation → β} (h : Asks stopped next n answer)
    (hgoes : ∀ c left, c.ask? = some left → work c = next left) (hstops : ∀ c, c.ask? = none → stopped (work c)) :
    Asks stopped work (n + 1) answer where
  ends := by
    intro c left hleft
    obtain ⟨middle, hmiddle, hleft⟩ := Option.bind_eq_some_iff.mp hleft
    rw [hgoes c middle hmiddle]
    exact h.ends hleft
  stops := by
    intro c hnone
    cases hmiddle : c.ask? with
    | none => exact hstops c hmiddle
    | some middle =>
      rw [hgoes c middle hmiddle]
      refine h.stops ?_
      rw [askAll?, hmiddle] at hnone
      exact hnone
  goes := h.goes

/-- **Work that goes on from other work** asks what both ask. -/
theorem andThen {next : β → γ} {answer' : Cancellation → γ} (h : Asks stopped first n answer)
    (hnext : Asks stopped' (fun c => next (answer c)) m answer') (hstops : ∀ out, stopped out → stopped' (next out)) :
    Asks stopped' (fun c => next (first c)) (n + m) answer' where
  ends := by
    intro c left hleft
    rw [Cancellation.askAll?_add] at hleft
    obtain ⟨middle, hmiddle, hleft⟩ := Option.bind_eq_some_iff.mp hleft
    rw [h.ends hmiddle]
    exact hnext.ends hleft
  stops := by
    intro c hnone
    rw [Cancellation.askAll?_add] at hnone
    cases hmiddle : askAll? n c with
    | none => exact hstops _ (h.stops hmiddle)
    | some middle =>
      rw [hmiddle] at hnone
      rw [h.ends hmiddle]
      exact hnext.stops hnone
  goes := hnext.goes

/-- What work does without a cancellation and with one says what it asks. -/
theorem of_runs (hnever : work .never = answer .never)
    (hafter : ∀ questions, n ≤ questions → work (.after questions) = answer (.after (questions - n)))
    (hstops : ∀ questions, questions < n → stopped (work (.after questions))) (hgoes : ∀ c, ¬ stopped (answer c)) :
    Asks stopped work n answer where
  ends := by
    intro c left hleft
    cases c with
    | never =>
      rw [Cancellation.askAll?_never] at hleft
      rwa [← Option.some.inj hleft]
    | after questions =>
      rw [Cancellation.askAll?_after] at hleft
      split at hleft
      · rename_i hle
        rw [← Option.some.inj hleft]
        exact hafter questions hle
      · exact nomatch hleft
  stops := by
    intro c hnone
    cases c with
    | never => exact nomatch (Cancellation.askAll?_never n).symm.trans hnone
    | after questions =>
      rw [Cancellation.askAll?_after] at hnone
      split at hnone
      · exact nomatch hnone
      · rename_i hlt
        exact hstops questions (Nat.not_le.mp hlt)
  goes := hgoes

/-- Without a cancellation work ends in its answer. -/
theorem never (h : Asks stopped work n answer) : work .never = answer .never :=
  h.ends (Cancellation.askAll?_never n)

/-- A cancellation that comes after the last question is not noticed. -/
theorem after_of_le {questions : Nat} (h : Asks stopped work n answer) (hle : n ≤ questions) :
    work (.after questions) = answer (.after (questions - n)) :=
  h.ends (by rw [Cancellation.askAll?_after, if_pos hle])

/-- One that comes before is. -/
theorem after_of_lt {questions : Nat} (h : Asks stopped work n answer) (hlt : questions < n) :
    stopped (work (.after questions)) :=
  h.stops (by rw [Cancellation.askAll?_after, if_neg (Nat.not_le.mpr hlt)])

end Asks

/-! ## Work with a result and a state -/

section

variable {α β σ τ ρ ρ' : Type}

/-- Work was stopped because it had been cancelled. -/
def Cancelled (out : Except Error α × σ) : Prop := out.1 = .error .cancelled

theorem Cancelled.exists_eq {out : Except Error α × σ} (h : Cancelled out) :
    ∃ state, out = (.error .cancelled, state) := ⟨out.2, Prod.ext h rfl⟩

theorem cancelled_error_iff {error : Error} {state : σ} :
    Cancelled ((.error error, state) : Except Error α × σ) ↔ error = .cancelled :=
  ⟨Except.error.inj, congrArg Except.error⟩

/-- An error that is handed on was cancelled where it came from. -/
theorem cancelled_error_congr {error : Error} {state : σ} {state' : τ} :
    Cancelled ((.error error, state) : Except Error α × σ) ↔ Cancelled ((.error error, state') : Except Error β × τ) :=
  cancelled_error_iff.trans cancelled_error_iff.symm

theorem cancelled_map_iff {out : Except Error α × σ} {f : α → β} {state : τ} :
    Cancelled (out.1.map f, state) ↔ Cancelled out := by
  rcases out with ⟨error | value, _⟩
  · exact cancelled_error_congr
  · exact iff_of_false nofun nofun

/-- Goes on from a result. An error is handed on with the state that it was met in. -/
def onResult (out : Except Error α × σ) (next : α → σ → Except Error β × σ) : Except Error β × σ :=
  match out with
  | (.error error, state) => (.error error, state)
  | (.ok value, state) => next value state

theorem Cancelled.onResult {out : Except Error α × σ} (h : Cancelled out) (next : α → σ → Except Error β × σ) :
    Cancelled (JobClosure.onResult out next) := by
  obtain ⟨state, rfl⟩ := h.exists_eq
  rfl

/-- Work asks a number of questions and then has a result that does not depend on the cancellation. Its state is
something that does not depend on it either, put together with what is left of it. -/
def Polls (put : ρ → Cancellation → σ) (work : Cancellation → Except Error α × σ) : Prop :=
  ∃ n result rest, Asks Cancelled work n fun c => (result, put rest c)

namespace Polls

variable {put : ρ → Cancellation → σ} {work next : Cancellation → Except Error α × σ}

theorem nothing {result : Except Error α} (rest : ρ) (h : result ≠ .error .cancelled) :
    Polls put fun c => (result, put rest c) := ⟨0, result, rest, .nothing fun _ => h⟩

theorem once (h : Polls put next) (hgoes : ∀ c left, c.ask? = some left → work c = next left)
    (hstops : ∀ c, c.ask? = none → Cancelled (work c)) : Polls put work := by
  obtain ⟨n, result, rest, hnext⟩ := h
  exact ⟨n + 1, result, rest, hnext.once hgoes hstops⟩

/-- Work that goes on without any more questions. -/
theorem thenNothing {put' : ρ' → Cancellation → τ} (h : Polls put work)
    (next : Except Error α × σ → Except Error β × τ) (hstops : ∀ out, Cancelled (next out) ↔ Cancelled out)
    (hnext : ∀ result rest, ∃ result' rest', ∀ c, next (result, put rest c) = (result', put' rest' c)) :
    Polls put' fun c => next (work c) := by
  obtain ⟨n, result, rest, hwork⟩ := h
  obtain ⟨result', rest', hsame⟩ := hnext result rest
  refine ⟨n, result', rest', ?_⟩
  rw [← funext hsame]
  exact hwork.andThen (.nothing fun c hc => hwork.goes c ((hstops _).mp hc)) fun out => (hstops out).mpr

theorem map (h : Polls put work) (f : α → β) : Polls put fun c => ((work c).1.map f, (work c).2) :=
  h.thenNothing (fun out => (out.1.map f, out.2)) (fun _ => cancelled_map_iff)
    fun result rest => ⟨result.map f, rest, fun _ => rfl⟩

/-- **Work that goes on from a result** polls if it does so from every result. -/
theorem onResult {next : α → σ → Except Error β × σ} (h : Polls put work)
    (hnext : ∀ value rest, Polls put fun c => next value (put rest c)) :
    Polls put fun c => JobClosure.onResult (work c) next := by
  obtain ⟨n, result, rest, hwork⟩ := h
  have hstops : ∀ out, Cancelled out → Cancelled (JobClosure.onResult out next) := fun _ hout => hout.onResult next
  cases result with
  | error error =>
    refine ⟨n, .error error, rest, hwork.andThen (.nothing fun c hc => ?_) hstops⟩
    exact hwork.goes c (cancelled_error_congr.mp hc)
  | ok value =>
    obtain ⟨m, result', rest', hgoes⟩ := hnext value rest
    exact ⟨n + m, result', rest', hwork.andThen hgoes hstops⟩

end Polls

end

end JobClosure
