import JobClosure.Proofs.Spelling.Spelled

/-!
# What is parsed can be spelled

The names in an argument that is parsed are names of the grammar and its parameters are words of it, so a
parsed argument can be spelled again (`Spelling.parse_spellable`). Binding keeps the names
(`Scope.parse_grammatical`). It may replace a parameter by a declared one, which can have any name: in
the scope of a type that declares odd names a position is read, and what it stands for cannot be spelled.
-/

namespace JobClosure

namespace TypeArg

mutual

/-- An argument whose names are names of the grammar. Its parameters may be called anything. -/
def Grammatical : TypeArg → Prop
  | .param _ => True
  | .named name args => Spelling.isName name = true ∧ GrammaticalAll args

def GrammaticalAll : List TypeArg → Prop
  | [] => True
  | arg :: rest => Grammatical arg ∧ GrammaticalAll rest

end

mutual

/-- Besides the names only the parameters keep an argument from being spelled. -/
theorem spellable_iff : ∀ arg : TypeArg,
    arg.Spellable ↔ arg.Grammatical ∧ ∀ p ∈ arg.occurrences, Spelling.isWord p.name = true
  | .param p => by simp [Spellable, Grammatical, occurrences]
  | .named name args => by
    rw [Spellable, Grammatical, occurrences, spellableAll_iff args, and_assoc]

theorem spellableAll_iff : ∀ args : List TypeArg,
    SpellableAll args ↔ GrammaticalAll args ∧ ∀ p ∈ occurrencesAll args, Spelling.isWord p.name = true
  | [] => by simp [SpellableAll, GrammaticalAll, occurrencesAll]
  | arg :: rest => by
    rw [SpellableAll, GrammaticalAll, occurrencesAll, spellable_iff arg, spellableAll_iff rest,
      List.forall_mem_append]
    exact and_and_and_comm

end

theorem forall_spellable_iff {args : List TypeArg} : SpellableAll args ↔ ∀ arg ∈ args, arg.Spellable := by
  induction args with
  | nil => simp [SpellableAll]
  | cons arg rest ih => rw [SpellableAll, ih, List.forall_mem_cons]

end TypeArg

namespace Spelling

/-! ## Tokens -/

/-- A token whose content is a name or a word of the grammar. -/
def Token.Sound : Token → Prop
  | .name content => isName (String.ofList content) = true
  | .parameter _ word => isWord (String.ofList word) = true
  | _ => True

/-- What has been read of a name or a word is one already. -/
def Mode.Sound : Mode → Prop
  | .inName read => isName (String.ofList read.reverse) = true
  | .inWord _ read => isWord (String.ofList read.reverse) = true
  | _ => True

theorem isName_of_nameStart {c : Char} (h : isNameStart c = true) : isName (String.ofList [c]) = true := by
  simp [isName, h, isNameChar_of_isWordChar (isWordChar_of_isNameStart h)]

theorem isName_append {name more : String} (h : isName name = true) (hmore : more.toList.all isNameChar = true) :
    isName (name ++ more) = true := by
  simp only [isName, Bool.and_eq_true, String.toList_append, List.all_append] at h ⊢
  obtain ⟨hstart, hall⟩ := h
  refine ⟨?_, hall, hmore⟩
  cases hname : name.toList with
  | nil => simp [hname] at hstart
  | cons c rest => simpa [hname] using hstart

theorem isName_push {read : List Char} {c : Char} (h : isName (String.ofList read.reverse) = true)
    (hc : isNameChar c = true) : isName (String.ofList (c :: read).reverse) = true := by
  have happend : String.ofList (c :: read).reverse = String.ofList read.reverse ++ String.ofList [c] := by
    rw [List.reverse_cons, String.ofList_append]
  rw [happend]
  exact isName_append h (by simp [hc])

theorem isWord_push {ofMethod : Bool} {read : List Char} {c : Char} (h : (Mode.inWord ofMethod read).Sound)
    (hc : isWordChar c = true) : (Mode.inWord ofMethod (c :: read)).Sound := by
  simp only [Mode.Sound, isWord, Bool.and_eq_true, String.toList_ofList, List.all_reverse] at h ⊢
  simp [hc, h.2]

theorem sound_stepBetween {c : Char} {tokens : List Token} {next : Mode}
    (h : stepBetween c = some (tokens, next)) : (∀ token ∈ tokens, token.Sound) ∧ next.Sound := by
  have single : ∀ {token : Token} {next : Mode}, token.Sound → next.Sound →
      (∀ other ∈ [token], other.Sound) ∧ next.Sound := by
    intro token next htoken hnext
    exact ⟨fun other hother => List.mem_singleton.mp hother ▸ htoken, hnext⟩
  have none : ∀ {next : Mode}, next.Sound → (∀ token ∈ ([] : List Token), token.Sound) ∧ next.Sound :=
    fun hnext => ⟨fun _ hmem => absurd hmem List.not_mem_nil, hnext⟩
  unfold stepBetween at h
  split at h
  · cases h
    exact none trivial
  · split at h
    · cases h
      exact single trivial trivial
    · split at h
      · cases h
        exact single trivial trivial
      · split at h
        · cases h
          exact single trivial trivial
        · split at h
          · cases h
            exact none trivial
          · split at h
            · rename_i hstart
              cases h
              exact none (isName_of_nameStart hstart)
            · exact nomatch h

/-- **A step completes sound tokens only.** -/
theorem sound_step {mode next : Mode} {c : Char} {tokens : List Token} (hmode : mode.Sound)
    (h : step mode c = some (tokens, next)) : (∀ token ∈ tokens, token.Sound) ∧ next.Sound := by
  -- a token that is complete stands before what the character is by itself
  have after : ∀ {token : Token}, token.Sound →
      (stepBetween c).map (fun read => (token :: read.1, read.2)) = some (tokens, next) →
      (∀ token ∈ tokens, token.Sound) ∧ next.Sound := by
    intro token htoken h
    obtain ⟨⟨more, next'⟩, hstep, heq⟩ := Option.map_eq_some_iff.mp h
    obtain ⟨rfl, rfl⟩ := Prod.mk.inj heq
    obtain ⟨hmore, hnext⟩ := sound_stepBetween hstep
    exact ⟨List.forall_mem_cons.mpr ⟨htoken, hmore⟩, hnext⟩
  cases mode with
  | between => exact sound_stepBetween h
  | inName read =>
    rw [step.eq_def] at h
    dsimp only at h
    split at h
    · rename_i hc
      cases h
      exact ⟨fun _ hmem => absurd hmem List.not_mem_nil, isName_push hmode hc⟩
    · have htoken : (Token.name read.reverse).Sound := hmode
      exact after htoken h
  | afterMark ofMethod =>
    rw [step.eq_def] at h
    dsimp only at h
    split at h
    · rename_i hc
      cases h
      exact ⟨fun _ hmem => absurd hmem List.not_mem_nil, by simp [Mode.Sound, isWord, hc]⟩
    · split at h
      · cases h
        exact ⟨fun _ hmem => absurd hmem List.not_mem_nil, trivial⟩
      · cases h
  | inWord ofMethod read =>
    rw [step.eq_def] at h
    dsimp only at h
    split at h
    · rename_i hc
      cases h
      exact ⟨fun _ hmem => absurd hmem List.not_mem_nil, isWord_push hmode hc⟩
    · have htoken : (Token.parameter ofMethod read.reverse).Sound := hmode
      exact after htoken h

theorem sound_tokensFrom? {cs : List Char} {mode : Mode} {tokens : List Token} (hmode : mode.Sound)
    (h : tokensFrom? mode cs = some tokens) : ∀ token ∈ tokens, token.Sound := by
  induction cs generalizing mode tokens with
  | nil =>
    cases mode with
    | between =>
      obtain rfl : [] = tokens := Option.some.inj h
      exact fun _ hmem => absurd hmem List.not_mem_nil
    | inName read =>
      obtain rfl : [.name read.reverse] = tokens := Option.some.inj h
      exact fun token hmem => List.mem_singleton.mp hmem ▸ hmode
    | afterMark ofMethod => exact nomatch h
    | inWord ofMethod read =>
      obtain rfl : [.parameter ofMethod read.reverse] = tokens := Option.some.inj h
      exact fun token hmem => List.mem_singleton.mp hmem ▸ hmode
  | cons c rest ih =>
    rw [tokensFrom?] at h
    obtain ⟨⟨first, next⟩, hstep, h⟩ := Option.bind_eq_some_iff.mp h
    obtain ⟨more, hmore, h⟩ := Option.bind_eq_some_iff.mp h
    obtain rfl : first ++ more = tokens := Option.some.inj h
    obtain ⟨hfirst, hnext⟩ := sound_step hmode hstep
    exact List.forall_mem_append.mpr ⟨hfirst, ih hnext hmore⟩

/-! ## The parser -/

/-- An open reference that can be spelled as far as it goes. -/
structure OpenRef.Sound (ref : OpenRef) : Prop where
  name : isName ref.name = true
  args : ∀ arg ∈ ref.args, arg.Spellable

def Phase.Sound : Phase → Prop
  | .wanting => True
  | .named name => isName name = true
  | .complete arg => arg.Spellable

theorem Phase.Sound.arg? {phase : Phase} {arg : TypeArg} (h : phase.Sound) (harg : phase.arg? = some arg) :
    arg.Spellable := by
  cases phase with
  | wanting => exact nomatch harg
  | named name =>
    obtain rfl : TypeArg.named name [] = arg := Option.some.inj harg
    exact ⟨h, trivial⟩
  | complete found =>
    obtain rfl : found = arg := Option.some.inj harg
    exact h

/-- **Sound tokens keep the parser sound.** -/
theorem sound_advance {outer outer' : List OpenRef} {phase phase' : Phase} {token : Token}
    (houter : ∀ ref ∈ outer, ref.Sound) (hphase : phase.Sound) (htoken : token.Sound)
    (h : advance outer phase token = some (outer', phase')) :
    (∀ ref ∈ outer', ref.Sound) ∧ phase'.Sound := by
  unfold advance at h
  split at h
  · cases h
    exact ⟨houter, htoken⟩
  · cases h
    exact ⟨houter, htoken⟩
  · cases h
    exact ⟨List.forall_mem_cons.mpr ⟨⟨hphase, fun _ hmem => absurd hmem List.not_mem_nil⟩, houter⟩, trivial⟩
  · split at h
    · rename_i arg ref outer harg
      cases h
      obtain ⟨href, houter⟩ := List.forall_mem_cons.mp houter
      have hargs := List.forall_mem_cons.mpr ⟨hphase.arg? harg, href.args⟩
      exact ⟨List.forall_mem_cons.mpr ⟨⟨href.name, hargs⟩, houter⟩, trivial⟩
    · exact nomatch h
  · split at h
    · rename_i arg ref outer harg
      cases h
      obtain ⟨href, houter⟩ := List.forall_mem_cons.mp houter
      have hargs := List.forall_mem_cons.mpr ⟨hphase.arg? harg, href.args⟩
      refine ⟨houter, href.name, TypeArg.forall_spellable_iff.mpr fun found hfound => ?_⟩
      exact hargs found (List.mem_reverse.mp hfound)
    · exact nomatch h
  · exact nomatch h

theorem sound_parseTokens {tokens : List Token} {outer : List OpenRef} {phase : Phase} {arg : TypeArg}
    (htokens : ∀ token ∈ tokens, token.Sound) (houter : ∀ ref ∈ outer, ref.Sound) (hphase : phase.Sound)
    (h : parseTokens outer phase tokens = some arg) : arg.Spellable := by
  induction tokens generalizing outer phase with
  | nil =>
    rw [parseTokens] at h
    split at h
    · exact hphase.arg? h
    · cases h
  | cons token rest ih =>
    obtain ⟨htoken, hrest⟩ := List.forall_mem_cons.mp htokens
    rw [parseTokens] at h
    obtain ⟨⟨outer', phase'⟩, hadvance, h⟩ := Option.bind_eq_some_iff.mp h
    obtain ⟨houter', hphase'⟩ := sound_advance houter hphase htoken hadvance
    exact ih hrest houter' hphase' h

/-- **A parsed argument can be spelled.** -/
theorem parse_spellable {text : String} {arg : TypeArg} (h : parse text = .ok arg) : arg.Spellable := by
  unfold parse at h
  split at h
  · rename_i found hfound
    obtain rfl := Except.ok.inj h
    obtain ⟨tokens, htokens, hparse⟩ := Option.bind_eq_some_iff.mp hfound
    have hmode : Mode.between.Sound := trivial
    have hphase : Phase.wanting.Sound := trivial
    exact sound_parseTokens (sound_tokensFrom? hmode htokens) (fun _ hmem => absurd hmem List.not_mem_nil)
      hphase hparse
  · exact nomatch h

end Spelling

namespace Scope

mutual

/-- Binding keeps the names. -/
theorem bind_grammatical {scope : Scope} : ∀ (arg : TypeArg) {bound : TypeArg},
    scope.bind arg = .ok bound → arg.Grammatical → bound.Grammatical
  | .param p, bound, h, _ => by
    rw [bind] at h
    obtain ⟨q, -, h⟩ := bind_eq_ok h
    obtain rfl : .param q = bound := Except.ok.inj h
    trivial
  | .named name args, bound, h, hnames => by
    rw [bind] at h
    obtain ⟨bounds, hbounds, h⟩ := bind_eq_ok h
    obtain rfl : .named name bounds = bound := Except.ok.inj h
    exact ⟨hnames.1, bindAll_grammatical args hbounds hnames.2⟩

theorem bindAll_grammatical {scope : Scope} : ∀ (args : List TypeArg) {bounds : List TypeArg},
    scope.bindAll args = .ok bounds → TypeArg.GrammaticalAll args → TypeArg.GrammaticalAll bounds
  | [], bounds, h, _ => by
    rw [bindAll] at h
    obtain rfl : [] = bounds := Except.ok.inj h
    trivial
  | arg :: rest, bounds, h, hnames => by
    rw [bindAll] at h
    obtain ⟨first, hfirst, h⟩ := bind_eq_ok h
    obtain ⟨more, hmore, h⟩ := bind_eq_ok h
    obtain rfl : first :: more = bounds := Except.ok.inj h
    exact ⟨bind_grammatical arg hfirst hnames.1, bindAll_grammatical rest hmore hnames.2⟩

end

/-- **The names of what is read in a scope are names of the grammar.** -/
theorem parse_grammatical {scope : Scope} {text : String} {arg : TypeArg} (h : scope.parse text = .ok arg) :
    arg.Grammatical := by
  obtain ⟨unbound, hunbound, h⟩ := bind_eq_ok h
  have hspellable := Spelling.parse_spellable (mapError_eq_ok hunbound)
  exact bind_grammatical unbound h (TypeArg.spellable_iff unbound |>.mp hspellable).1

/-- A reference that is read names types by the grammar and takes its parameters from the scope. -/
theorem parseNamed_sound {scope : Scope} {text : String} {ref : TypeRef} (h : scope.parseNamed text = .ok ref) :
    ref.toArg.Grammatical ∧ ref.toArg.Within scope := by
  obtain ⟨arg, harg, h⟩ := bind_eq_ok h
  have hgrammatical := parse_grammatical harg
  have hwithin := parse_within harg
  cases arg with
  | param p => exact nomatch h
  | named name args =>
    obtain rfl : ⟨name, args⟩ = ref := Except.ok.inj h
    exact ⟨hgrammatical, hwithin⟩

end Scope

end JobClosure
