import JobClosure.Proofs.Spelling.Parsed

/-!
# Spelling and reading in one scope

In a scope whose parameters are words of the grammar, spelling and reading are inverse to each other: an
argument with names of the grammar and parameters of the scope is read back from its spelling, and what a text
means in the scope is such an argument (`Scope.parse_spell_inverse`). So a spelling stands for one argument of
the scope, and reading puts every text into a normal form, the spelling of what it means. A position is
spelled as the name that is declared there. That name may be made of digits and look like another position,
but a name wins over a position, so it still means the same parameter.
-/

namespace JobClosure

/-- All declared parameters are words of the grammar. -/
def Scope.Worded (scope : Scope) : Prop :=
  ∀ name ∈ scope.typeParams ++ scope.methodParams, Spelling.isWord name = true

namespace Scope

variable {scope : Scope}

theorem Worded.isWord (h : scope.Worded) {p : Parameter} (hp : scope.Declares p) :
    Spelling.isWord p.name = true := by
  unfold Declares at hp
  split at hp
  · exact h p.name (List.mem_append_right _ hp.2)
  · exact h p.name (List.mem_append_left _ hp.2)

/-- Names of the grammar and parameters of the scope are all that a spelling needs. -/
theorem Worded.spellable (h : scope.Worded) {arg : TypeArg} (hnames : arg.Grammatical)
    (hwithin : arg.Within scope) : arg.Spellable :=
  (TypeArg.spellable_iff arg).mpr ⟨hnames, fun p hp => h.isWord (hwithin p hp)⟩

theorem Worded.parse_spell (h : scope.Worded) {arg : TypeArg} (hnames : arg.Grammatical)
    (hwithin : arg.Within scope) : scope.parse arg.spell = .ok arg :=
  Scope.parse_spell (h.spellable hnames hwithin) hwithin

end Scope

/-- Without a scope only parameters without an owner are read back. -/
theorem Spelling.parse_spell_of_unowned {arg : TypeArg} (h : arg.Spellable)
    (howner : ∀ p ∈ arg.occurrences, p.owner = "") : Spelling.parse arg.spell = .ok arg := by
  have hself : arg.replace TypeArg.unowned = arg := by
    refine TypeArg.replace_eq_self arg fun p hp => ?_
    rw [TypeArg.unowned, ← howner p hp]
  rw [Spelling.parse_spell h, hself]

namespace Scope

/-- **Spelling and reading are inverse to each other** in a scope that declares words: an argument of the
scope is read back from its spelling, so different arguments are spelled differently, and what any text means
is read back too. An argument without owners is read back where there is no scope. -/
theorem parse_spell_inverse {scope : Scope} (hwords : scope.Worded) :
    (∀ arg : TypeArg, arg.Grammatical → arg.Within scope → scope.parse arg.spell = .ok arg) ∧
    (∀ arg : TypeArg, arg.Spellable → (∀ p ∈ arg.occurrences, p.owner = "") →
      Spelling.parse arg.spell = .ok arg) ∧
    (∀ a b : TypeArg, a.Grammatical → a.Within scope → b.Grammatical → b.Within scope →
      a.spell = b.spell → a = b) ∧
    (∀ text arg, scope.parse text = .ok arg → scope.parse arg.spell = .ok arg) := by
  refine ⟨fun arg => hwords.parse_spell, fun arg => Spelling.parse_spell_of_unowned, ?_, ?_⟩
  · intro a b ha hawithin hb hbwithin hspell
    have hparse := hwords.parse_spell ha hawithin
    rw [hspell, hwords.parse_spell hb hbwithin] at hparse
    exact (Except.ok.inj hparse).symm
  · intro text arg h
    exact hwords.parse_spell (parse_grammatical h) (parse_within h)

/-- A type whose first parameter is called by the number of the second one, and a method. -/
def numbered : Scope := ⟨"Demo.Box", ["1", "T"], some "Demo.Box::Run", ["U", "0"]⟩

/-- What the positions mean in `numbered` is spelled by names, of which one looks like a position. -/
theorem numbered_read_back :
    numbered.Worded ∧ numbered.parse " Pair< !0,!!1 >" = .ok (.named "Pair"
      [.param ⟨"Demo.Box", "1", false⟩, .param ⟨"Demo.Box::Run", "0", true⟩]) ∧
    numbered.parse "Pair<!1, !!0>" = .ok (.named "Pair"
      [.param ⟨"Demo.Box", "1", false⟩, .param ⟨"Demo.Box::Run", "0", true⟩]) := by
  have hwords : numbered.Worded := List.forall_mem_append.mpr ⟨by decide, by decide⟩
  have hread : numbered.parse " Pair< !0,!!1 >" = .ok (.named "Pair"
      [.param ⟨"Demo.Box", "1", false⟩, .param ⟨"Demo.Box::Run", "0", true⟩]) := by decide +kernel
  have hspell : (TypeArg.named "Pair"
      [.param ⟨"Demo.Box", "1", false⟩, .param ⟨"Demo.Box::Run", "0", true⟩]).spell = "Pair<!1, !!0>" := by cbv
  have hagain := (parse_spell_inverse hwords).2.2.2 _ _ hread
  rw [hspell] at hagain
  exact ⟨hwords, hread, hagain⟩

end Scope

end JobClosure
