import JobClosure.Proofs.Spelling.Lexical

/-!
# The grammar of spellings

A reference is a parameter, or a name with an optional list of references between angle brackets, separated
by commas. `Derives` says which tokens make up which argument. The parser accepts exactly the texts whose
tokens derive an argument, and answers with that one (`parse_iff_derives`).

The parser does not follow the grammar: it keeps the references that are open and goes through the tokens
once. Two facts connect them. Derived tokens take the parser from where it wants an argument to where it has
one, whatever is open and whatever follows (`Derives.parses`). And what an accepting run still has to read
divides into derived tokens, one list of them for every reference that is open (`Closes`).
-/

namespace JobClosure.Spelling

mutual

/-- **The rule of a reference**: the tokens of an argument whose parameters have no owner. -/
inductive Derives : List Token → TypeArg → Prop where
  | name (content : List Char) : Derives [.name content] (.named (String.ofList content) [])
  | applied (content : List Char) {tokens more : List Token} {arg : TypeArg} {args : List TypeArg} :
      Derives tokens arg → DerivesMore more args →
      Derives (.name content :: .opening :: (tokens ++ more ++ [.closing]))
        (.named (String.ofList content) (arg :: args))
  | parameter (ofMethod : Bool) (word : List Char) :
      Derives [.parameter ofMethod word] (.param ⟨"", String.ofList word, ofMethod⟩)

/-- The tokens of the arguments after the first one, with a comma before each. -/
inductive DerivesMore : List Token → List TypeArg → Prop where
  | nil : DerivesMore [] []
  | cons {tokens more : List Token} {arg : TypeArg} {args : List TypeArg} :
      Derives tokens arg → DerivesMore more args → DerivesMore (.comma :: (tokens ++ more)) (arg :: args)

end

/-! ## Derived tokens are parsed -/

mutual

/-- **Derived tokens are parsed wherever an argument is wanted.** -/
theorem Derives.parses {tokens : List Token} {arg : TypeArg} : Derives tokens arg →
    ∃ phase : Phase, phase.arg? = some arg ∧ ∀ outer rest,
      parseTokens outer .wanting (tokens ++ rest) = parseTokens outer phase rest
  | .name content => ⟨.named (String.ofList content), rfl, fun _ rest => parseTokens_cons rfl rest⟩
  | .parameter ofMethod word =>
    ⟨.complete (.param ⟨"", String.ofList word, ofMethod⟩), rfl, fun _ rest => parseTokens_cons rfl rest⟩
  | @Derives.applied content tokens more arg args hfirst hmore => by
    refine ⟨.complete (.named (String.ofList content) (arg :: args)), rfl, fun outer rest => ?_⟩
    obtain ⟨phase, hphase, hparse⟩ := hfirst.parses
    have htokens : .name content :: .opening :: (tokens ++ more ++ [.closing]) ++ rest
        = .name content :: .opening :: (tokens ++ (more ++ .closing :: rest)) := by simp
    have hname : advance outer .wanting (.name content) = some (outer, .named (String.ofList content)) := rfl
    have hopening : advance outer (.named (String.ofList content)) .opening
        = some (⟨String.ofList content, []⟩ :: outer, .wanting) := rfl
    rw [htokens, parseTokens_cons hname, parseTokens_cons hopening, hparse, hmore.parses hphase]
    rfl

theorem DerivesMore.parses {more : List Token} {args : List TypeArg} : DerivesMore more args →
    ∀ {phase : Phase} {arg : TypeArg} {ref : OpenRef} {outer : List OpenRef} {rest : List Token},
      phase.arg? = some arg →
      parseTokens (ref :: outer) phase (more ++ .closing :: rest)
        = parseTokens outer (.complete (.named ref.name (ref.args.reverse ++ arg :: args))) rest
  | .nil, phase, arg, ref, outer, rest, h => by
    rw [List.nil_append, parseTokens_cons (advance_closing h ref outer), List.reverse_cons]
  | @DerivesMore.cons tokens more next args hnext hmore, phase, arg, ref, outer, rest, h => by
    obtain ⟨phase', hphase, hparse⟩ := hnext.parses
    rw [List.cons_append, parseTokens_cons (advance_comma h ref outer), List.append_assoc, hparse,
      hmore.parses hphase, List.reverse_cons, List.append_assoc, List.singleton_append]

end

/-- Tokens derive one argument at most. -/
theorem Derives.parseTokens {tokens : List Token} {arg : TypeArg} (h : Derives tokens arg) :
    parseTokens [] .wanting tokens = some arg := by
  obtain ⟨phase, hphase, hparse⟩ := h.parses
  have hparse := hparse [] []
  rw [List.append_nil] at hparse
  exact hparse.trans hphase

/-! ## Parsed tokens are derived -/

/-- Tokens that close all that is open after an argument: for every open reference the rest of its arguments
and its bracket. Nothing else is left, and `whole` is the outermost reference. -/
def Closes : List OpenRef → TypeArg → List Token → TypeArg → Prop
  | [], arg, tokens, whole => tokens = [] ∧ whole = arg
  | ref :: outer, arg, tokens, whole =>
    ∃ more args rest, tokens = more ++ .closing :: rest ∧ DerivesMore more args ∧
      Closes outer (.named ref.name (ref.args.reverse ++ arg :: args)) rest whole

/-- What an accepting run has to read after a phase. -/
def Remains (outer : List OpenRef) (phase : Phase) (tokens : List Token) (whole : TypeArg) : Prop :=
  match phase with
  | .wanting => ∃ first arg rest, tokens = first ++ rest ∧ Derives first arg ∧ Closes outer arg rest whole
  | .named name =>
    Closes outer (.named name []) tokens whole ∨
      ∃ first arg rest, tokens = .opening :: (first ++ rest) ∧ Derives first arg ∧
        Closes (⟨name, []⟩ :: outer) arg rest whole
  | .complete arg => Closes outer arg tokens whole

theorem remains_of_closes {outer : List OpenRef} {phase : Phase} {arg whole : TypeArg} {tokens : List Token}
    (hphase : phase.arg? = some arg) (h : Closes outer arg tokens whole) : Remains outer phase tokens whole := by
  cases phase with
  | wanting => exact nomatch hphase
  | named name =>
    obtain rfl := Option.some.inj hphase
    exact .inl h
  | complete found =>
    obtain rfl := Option.some.inj hphase
    exact h

/-- What is read at a comma belongs to the reference that was open before it. -/
theorem closes_comma {ref : OpenRef} {outer : List OpenRef} {arg whole : TypeArg} {tokens : List Token}
    (h : Remains ({ ref with args := arg :: ref.args } :: outer) .wanting tokens whole) :
    Closes (ref :: outer) arg (.comma :: tokens) whole := by
  obtain ⟨first, next, -, rfl, hfirst, more, args, rest, rfl, hmore, hcloses⟩ := h
  refine ⟨.comma :: (first ++ more), next :: args, rest, by simp, .cons hfirst hmore, ?_⟩
  rwa [List.reverse_cons, List.append_assoc, List.singleton_append] at hcloses

theorem closes_closing {ref : OpenRef} {outer : List OpenRef} {arg whole : TypeArg} {tokens : List Token}
    (h : Closes outer (.named ref.name (arg :: ref.args).reverse) tokens whole) :
    Closes (ref :: outer) arg (.closing :: tokens) whole := by
  rw [List.reverse_cons] at h
  exact ⟨[], [], tokens, rfl, .nil, h⟩

/-- Where a name was wanted, it may be all there is of the reference, or its arguments follow. -/
theorem remains_wanting_name {outer : List OpenRef} {content : List Char} {whole : TypeArg}
    {tokens : List Token} (h : Remains outer (.named (String.ofList content)) tokens whole) :
    Remains outer .wanting (.name content :: tokens) whole := by
  rcases h with h | ⟨first, arg, -, rfl, hfirst, more, args, rest, rfl, hmore, hcloses⟩
  · exact ⟨[.name content], _, tokens, rfl, .name content, h⟩
  · exact ⟨.name content :: .opening :: (first ++ more ++ [.closing]), _, rest, by simp,
      .applied content hfirst hmore, hcloses⟩

/-- **A step backwards**: what remains after a token and the token itself remain before it. -/
theorem Remains.cons {outer outer' : List OpenRef} {phase phase' : Phase} {token : Token} {whole : TypeArg}
    {rest : List Token} (hstep : advance outer phase token = some (outer', phase'))
    (h : Remains outer' phase' rest whole) : Remains outer phase (token :: rest) whole := by
  unfold advance at hstep
  split at hstep
  · obtain ⟨rfl, rfl⟩ := Prod.mk.inj (Option.some.inj hstep)
    exact remains_wanting_name h
  · obtain ⟨rfl, rfl⟩ := Prod.mk.inj (Option.some.inj hstep)
    exact ⟨[_], _, rest, rfl, .parameter _ _, h⟩
  · obtain ⟨rfl, rfl⟩ := Prod.mk.inj (Option.some.inj hstep)
    obtain ⟨first, arg, after, rfl, hfirst, hcloses⟩ := h
    exact .inr ⟨first, arg, after, rfl, hfirst, hcloses⟩
  · split at hstep
    · rename_i hphase
      obtain ⟨rfl, rfl⟩ := Prod.mk.inj (Option.some.inj hstep)
      exact remains_of_closes hphase (closes_comma h)
    · exact nomatch hstep
  · split at hstep
    · rename_i hphase
      obtain ⟨rfl, rfl⟩ := Prod.mk.inj (Option.some.inj hstep)
      exact remains_of_closes hphase (closes_closing h)
    · exact nomatch hstep
  · exact nomatch hstep

/-- **What an accepting run reads is what remained.** -/
theorem remains_of_parseTokens {tokens : List Token} {outer : List OpenRef} {phase : Phase} {whole : TypeArg}
    (h : parseTokens outer phase tokens = some whole) : Remains outer phase tokens whole := by
  induction tokens generalizing outer phase with
  | nil =>
    rw [Spelling.parseTokens] at h
    split at h
    · rename_i hempty
      obtain rfl := List.isEmpty_iff.mp hempty
      exact remains_of_closes h ⟨rfl, rfl⟩
    · cases h
  | cons token rest ih =>
    rw [Spelling.parseTokens] at h
    obtain ⟨⟨outer', phase'⟩, hstep, h⟩ := Option.bind_eq_some_iff.mp h
    exact (ih h).cons hstep

theorem parseTokens_eq_some_iff {tokens : List Token} {arg : TypeArg} :
    parseTokens [] .wanting tokens = some arg ↔ Derives tokens arg := by
  refine ⟨fun h => ?_, Derives.parseTokens⟩
  obtain ⟨first, found, -, rfl, hfirst, rfl, rfl⟩ := remains_of_parseTokens h
  rwa [List.append_nil]

theorem parse?_eq_some_iff {text : String} {arg : TypeArg} :
    parse? text = some arg ↔ ∃ tokens, Lexes text.toList tokens ∧ Derives tokens arg := by
  rw [parse?]
  constructor
  · intro h
    obtain ⟨tokens, htokens, h⟩ := Option.bind_eq_some_iff.mp h
    exact ⟨tokens, tokens?_eq_some_iff.mp htokens, parseTokens_eq_some_iff.mp h⟩
  · rintro ⟨tokens, hlexes, hderives⟩
    rw [tokens?_eq_some_iff.mpr hlexes]
    exact parseTokens_eq_some_iff.mpr hderives

theorem parse_eq_ok_iff {text : String} {arg : TypeArg} : parse text = .ok arg ↔ parse? text = some arg := by
  rw [parse]
  cases parse? text with
  | none => simp
  | some found => simp

theorem parse_eq_error_iff {text : String} {refusal : Refusal} :
    parse text = .error refusal ↔ parse? text = none ∧ refusal = .malformed text := by
  rw [parse]
  cases parse? text with
  | none => simp [eq_comm]
  | some found => simp

/-- **The parser accepts exactly the grammar.** Its answer is the argument that the tokens of the text derive,
of which there is one at most, as there is one way at most to divide the text into tokens. A text without
such tokens is refused as malformed, and for no other reason. -/
theorem parse_iff_derives (text : String) :
    (∀ arg, parse text = .ok arg ↔ ∃ tokens, Lexes text.toList tokens ∧ Derives tokens arg) ∧
    (∀ refusal, parse text = .error refusal ↔
      refusal = .malformed text ∧ ¬ ∃ tokens arg, Lexes text.toList tokens ∧ Derives tokens arg) ∧
    (∀ tokens tokens' arg arg', Lexes text.toList tokens → Derives tokens arg →
      Lexes text.toList tokens' → Derives tokens' arg' → tokens = tokens' ∧ arg = arg') := by
  refine ⟨fun arg => ?_, fun refusal => ?_, fun tokens tokens' arg arg' hlexes hderives hlexes' hderives' => ?_⟩
  · rw [parse_eq_ok_iff, parse?_eq_some_iff]
  · have hnone : parse? text = none ↔ ¬ ∃ tokens arg, Lexes text.toList tokens ∧ Derives tokens arg := by
      rw [Option.eq_none_iff_forall_ne_some, exists_comm]
      simp only [ne_eq, parse?_eq_some_iff, not_exists]
    rw [parse_eq_error_iff, hnone, and_comm]
  · obtain rfl := Option.some.inj (hlexes.tokens?.symm.trans hlexes'.tokens?)
    exact ⟨rfl, Option.some.inj (hderives.parseTokens.symm.trans hderives'.parseTokens)⟩

end JobClosure.Spelling
