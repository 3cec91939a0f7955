import JobClosure.Proofs.Spelling.Parsed

/-!
# The tokens of a spelling, by the rules of the grammar

The grammar says of a spelling that it is a sequence of tokens with blanks anywhere between them. A token is
the longest one that the text can begin with. `Lexes` says this of a text without saying how the tokens are
found. The tokenizer finds them one character at a time, and it finds exactly these
(`tokens?_eq_some_iff`).

No token begins with part of another one of a different kind, so of two tokens that a text can begin with
both are names or both are parameters of the same kind. The longest one is therefore the one that no further
character of its kind follows (`longest_iff`).
-/

namespace JobClosure.Spelling

/-- The text of a token. -/
def Token.text : Token → List Char
  | .name content => content
  | .parameter ofMethod word => marks ofMethod ++ word
  | .opening => ['<']
  | .comma => [',']
  | .closing => ['>']

/-- No token that the text can begin with is longer than this one. -/
def Token.Longest (token : Token) (text : List Char) : Prop :=
  ∀ other : Token, other.Sound → other.text <+: text → other.text.length ≤ token.text.length

/-- **The lexical rules**: a text is made of tokens, each as long as it can be, and of blanks between
them. -/
inductive Lexes : List Char → List Token → Prop where
  | nil : Lexes [] []
  | blank {c : Char} {rest : List Char} {tokens : List Token} :
      Text.isSpellingBlank c = true → Lexes rest tokens → Lexes (c :: rest) tokens
  | token {token : Token} {rest : List Char} {tokens : List Token} :
      token.Sound → token.Longest (token.text ++ rest) → Lexes rest tokens →
      Lexes (token.text ++ rest) (token :: tokens)

/-! ## The longest token -/

/-- No character follows that goes on with a token. -/
def Token.Ends : Token → List Char → Prop
  | .name _, rest => ∀ c ∈ rest.head?, isNameChar c = false
  | .parameter _ _, rest => ∀ c ∈ rest.head?, isWordChar c = false
  | _, _ => True

theorem exists_cons_of_sound_name {content : List Char} (h : (Token.name content).Sound) :
    ∃ c cs, content = c :: cs ∧ isNameStart c = true ∧ ∀ d ∈ cs, isNameChar d = true := by
  obtain ⟨c, cs, hlist, hstart, hmore⟩ := exists_cons_of_isName h
  rw [String.toList_ofList] at hlist
  exact ⟨c, cs, hlist, hstart, hmore⟩

theorem exists_cons_of_sound_parameter {ofMethod : Bool} {word : List Char}
    (h : (Token.parameter ofMethod word).Sound) :
    ∃ c cs, word = c :: cs ∧ isWordChar c = true ∧ ∀ d ∈ cs, isWordChar d = true := by
  obtain ⟨c, cs, hlist, hstart, hmore⟩ := exists_cons_of_isWord h
  rw [String.toList_ofList] at hlist
  exact ⟨c, cs, hlist, hstart, hmore⟩

theorem sound_name_of_cons {c : Char} {cs : List Char} (hc : isNameStart c = true)
    (hcs : ∀ d ∈ cs, isNameChar d = true) : (Token.name (c :: cs)).Sound := by
  have hfirst := isNameChar_of_isWordChar (isWordChar_of_isNameStart hc)
  simpa [Token.Sound, isName, hc, hfirst] using hcs

theorem sound_parameter_of_cons (ofMethod : Bool) {c : Char} {cs : List Char} (hc : isWordChar c = true)
    (hcs : ∀ d ∈ cs, isWordChar d = true) : (Token.parameter ofMethod (c :: cs)).Sound := by
  simpa [Token.Sound, isWord, hc] using hcs

/-- Characters of a kind that a text begins with do not go past the first character of another kind. -/
theorem length_le_of_prefix {p : Char → Bool} {xs ys rest : List Char} (hxs : ∀ c ∈ xs, p c = true)
    (hrest : ∀ c ∈ rest.head?, p c = false) (h : xs <+: ys ++ rest) : xs.length ≤ ys.length := by
  by_contra hlonger
  have hys : ys <+: xs := List.prefix_of_prefix_length_le (List.prefix_append ys rest) h (by omega)
  obtain ⟨more, rfl⟩ := hys
  cases more with
  | nil => exact hlonger (by simp)
  | cons c more =>
    have hmore : c :: more <+: rest := (List.prefix_append_right_inj ys).mp h
    obtain ⟨after, rfl⟩ := hmore
    have hc := hxs c (List.mem_append_right _ List.mem_cons_self)
    rw [hrest c rfl] at hc
    exact absurd hc Bool.false_ne_true

theorem marks_eq (ofMethod : Bool) : marks ofMethod = '!' :: if ofMethod then ['!'] else [] := by
  cases ofMethod <;> rfl

theorem isNameStart_mark : ∀ c, isNameStart c = true → c ≠ '!' ∧ c ≠ '<' ∧ c ≠ ',' ∧ c ≠ '>' := by
  intro c hc
  refine ⟨?_, ?_, ?_, ?_⟩ <;>
  · rintro rfl
    exact absurd hc (by decide)

theorem isWordChar_ne_mark {c : Char} (hc : isWordChar c = true) : c ≠ '!' := by
  rintro rfl
  exact absurd hc (by decide)

/-- A name is the longest token exactly where no character of names follows. -/
theorem longest_name_iff {content rest : List Char} (h : (Token.name content).Sound) :
    (Token.name content).Longest (content ++ rest) ↔ ∀ c ∈ rest.head?, isNameChar c = false := by
  obtain ⟨c, cs, rfl, hc, hcs⟩ := exists_cons_of_sound_name h
  constructor
  · intro hlongest d hd
    by_contra hname
    -- one more character would make a longer name
    have hlonger : (Token.name (c :: (cs ++ [d]))).Sound := by
      refine sound_name_of_cons hc fun e he => ?_
      rcases List.mem_append.mp he with he | he
      · exact hcs e he
      · exact List.mem_singleton.mp he ▸ eq_true_of_ne_false hname
    obtain ⟨after, rfl⟩ := List.head?_eq_some_iff.mp hd
    have hle := hlongest _ hlonger ⟨after, by simp [Token.text]⟩
    simp only [Token.text, List.length_cons, List.length_append, List.length_nil] at hle
    omega
  · intro hrest other hother hprefix
    cases other with
    | name content =>
      obtain ⟨d, ds, rfl, hd, hds⟩ := exists_cons_of_sound_name hother
      have hall : ∀ e ∈ d :: ds, isNameChar e = true :=
        List.forall_mem_cons.mpr ⟨isNameChar_of_isWordChar (isWordChar_of_isNameStart hd), hds⟩
      exact length_le_of_prefix hall hrest hprefix
    | parameter ofMethod word =>
      have hfirst : '!' = c := by
        rw [Token.text, marks_eq, List.cons_append] at hprefix
        exact (List.cons_prefix_cons.mp hprefix).1
      exact absurd hfirst.symm (isNameStart_mark c hc).1
    | opening | comma | closing => exact Nat.succ_le_succ (Nat.zero_le _)

/-- A parameter is the longest token exactly where no character of words follows. -/
theorem longest_parameter_iff {ofMethod : Bool} {word rest : List Char}
    (h : (Token.parameter ofMethod word).Sound) :
    (Token.parameter ofMethod word).Longest (marks ofMethod ++ (word ++ rest)) ↔
      ∀ c ∈ rest.head?, isWordChar c = false := by
  obtain ⟨c, cs, rfl, hc, hcs⟩ := exists_cons_of_sound_parameter h
  constructor
  · intro hlongest d hd
    by_contra hword
    -- one more character would make a longer word
    have hlonger : (Token.parameter ofMethod (c :: (cs ++ [d]))).Sound := by
      refine sound_parameter_of_cons ofMethod hc fun e he => ?_
      rcases List.mem_append.mp he with he | he
      · exact hcs e he
      · exact List.mem_singleton.mp he ▸ eq_true_of_ne_false hword
    obtain ⟨after, rfl⟩ := List.head?_eq_some_iff.mp hd
    have hle := hlongest _ hlonger ⟨after, by simp [Token.text]⟩
    simp only [Token.text, List.length_cons, List.length_append, List.length_nil] at hle
    omega
  · intro hrest other hother hprefix
    cases other with
    | name content =>
      obtain ⟨d, ds, rfl, hd, -⟩ := exists_cons_of_sound_name hother
      have hfirst : d = '!' := by
        rw [marks_eq, List.cons_append] at hprefix
        exact (List.cons_prefix_cons.mp hprefix).1
      exact absurd hfirst (isNameStart_mark d hd).1
    | parameter ofMethod' word =>
      obtain ⟨d, ds, rfl, hd, hds⟩ := exists_cons_of_sound_parameter hother
      have hall : ∀ e ∈ d :: ds, isWordChar e = true := List.forall_mem_cons.mpr ⟨hd, hds⟩
      -- with different marks the word of one would begin with the second mark of the other
      have hsame : ofMethod' = ofMethod := by
        cases ofMethod <;> cases ofMethod'
        · rfl
        · have htail := (List.cons_prefix_cons.mp hprefix).2
          exact absurd (List.cons_prefix_cons.mp htail).1.symm (isWordChar_ne_mark hc)
        · have htail := (List.cons_prefix_cons.mp hprefix).2
          exact absurd (List.cons_prefix_cons.mp htail).1 (isWordChar_ne_mark hd)
        · rfl
      subst hsame
      have hword := length_le_of_prefix hall hrest ((List.prefix_append_right_inj _).mp hprefix)
      rw [Token.text, Token.text, List.length_append, List.length_append]
      exact Nat.add_le_add_left hword _
    | opening | comma | closing =>
      rw [Token.text, Token.text, marks_eq]
      exact Nat.succ_le_succ (Nat.zero_le _)

/-- A bracket or a comma is the longest token wherever it stands. -/
theorem longest_sign {token : Token} {d : Char} (htoken : token.text = [d]) (hd : d ∈ ['<', ',', '>'])
    (rest : List Char) : token.Longest (d :: rest) := by
  intro other hother hprefix
  cases other with
  | name content =>
    obtain ⟨c, cs, rfl, hc, -⟩ := exists_cons_of_sound_name hother
    obtain rfl : c = d := (List.cons_prefix_cons.mp hprefix).1
    obtain ⟨-, hopening, hcomma, hclosing⟩ := isNameStart_mark c hc
    simp [hopening, hcomma, hclosing] at hd
  | parameter ofMethod word =>
    rw [Token.text, marks_eq, List.cons_append] at hprefix
    obtain rfl : '!' = d := (List.cons_prefix_cons.mp hprefix).1
    exact absurd hd (by decide)
  | opening | comma | closing =>
    rw [htoken]
    exact Nat.le_refl 1

/-- **Where a token is the longest one.** -/
theorem longest_iff {token : Token} {rest : List Char} (h : token.Sound) :
    token.Longest (token.text ++ rest) ↔ token.Ends rest := by
  cases token with
  | name content => exact longest_name_iff h
  | parameter ofMethod word =>
    rw [Token.text, List.append_assoc]
    exact longest_parameter_iff h
  | opening => exact iff_of_true (longest_sign rfl (by decide) rest) trivial
  | comma => exact iff_of_true (longest_sign rfl (by decide) rest) trivial
  | closing => exact iff_of_true (longest_sign rfl (by decide) rest) trivial

/-! ## The tokenizer -/

theorem tokensFrom?_sign {token : Token} {d : Char} (h : step .between d = some ([token], .between))
    (rest : List Char) : tokensFrom? .between (d :: rest) = (tokensFrom? .between rest).map (token :: ·) :=
  tokensFrom?_cons h rest

/-- A token at the start of a text is the first one that is found. -/
theorem tokensFrom?_token {token : Token} {rest : List Char} (h : token.Sound) (hends : token.Ends rest) :
    tokensFrom? .between (token.text ++ rest) = (tokensFrom? .between rest).map (token :: ·) := by
  cases token with
  | name content =>
    have hname := tokensFrom?_name h hends
    rwa [String.toList_ofList] at hname
  | parameter ofMethod word =>
    have hparameter := tokensFrom?_parameter h ofMethod hends
    rwa [String.toList_ofList, ← List.append_assoc] at hparameter
  | opening => exact tokensFrom?_sign rfl rest
  | comma => exact tokensFrom?_sign rfl rest
  | closing => exact tokensFrom?_sign rfl rest

theorem tokensFrom?_spellingBlank {c : Char} (h : Text.isSpellingBlank c = true) (rest : List Char) :
    tokensFrom? .between (c :: rest) = tokensFrom? .between rest := by
  have hstep : step .between c = some ([], .between) := by
    show stepBetween c = _
    rw [stepBetween, if_pos h]
  rw [tokensFrom?_cons hstep]
  cases tokensFrom? .between rest <;> rfl

/-- A text up to the first character that is not of a kind. -/
theorem exists_run (p : Char → Bool) (text : List Char) :
    ∃ run rest, text = run ++ rest ∧ (∀ c ∈ run, p c = true) ∧ ∀ c ∈ rest.head?, p c = false := by
  refine ⟨text.takeWhile p, text.dropWhile p, List.takeWhile_append_dropWhile.symm, ?_, ?_⟩
  · exact List.all_eq_true.mp List.all_takeWhile
  · intro c hc
    have hnot := List.head?_dropWhile_not p text
    rw [Option.mem_def.mp hc] at hnot
    simpa using hnot

/-- What a character by itself can be. -/
inductive Beginning (c : Char) : Prop where
  | blank (h : Text.isSpellingBlank c = true)
  | sign (token : Token) (h : token.text = [c]) (hsound : token.Sound) (hends : ∀ rest, token.Ends rest)
  | mark (h : c = '!')
  | nameStart (h : isNameStart c = true)

theorem beginning_of_stepBetween {c : Char} {found : List Token × Mode} (h : stepBetween c = some found) :
    Beginning c := by
  unfold stepBetween at h
  split at h
  · exact .blank ‹_›
  · split at h
    · exact .sign .opening (by simp_all [Token.text]) trivial fun _ => trivial
    · split at h
      · exact .sign .comma (by simp_all [Token.text]) trivial fun _ => trivial
      · split at h
        · exact .sign .closing (by simp_all [Token.text]) trivial fun _ => trivial
        · split at h
          · exact .mark (by simp_all)
          · split at h
            · exact .nameStart ‹_›
            · exact nomatch h

theorem exists_step_of_tokensFrom? {mode : Mode} {c : Char} {rest : List Char} {tokens : List Token}
    (h : tokensFrom? mode (c :: rest) = some tokens) :
    ∃ completed next more, step mode c = some (completed, next) ∧ tokensFrom? next rest = some more ∧
      tokens = completed ++ more := by
  rw [tokensFrom?] at h
  obtain ⟨⟨completed, next⟩, hstep, h⟩ := Option.bind_eq_some_iff.mp h
  obtain ⟨more, hmore, h⟩ := Option.bind_eq_some_iff.mp h
  exact ⟨completed, next, more, hstep, hmore, (Option.some.inj h).symm⟩

/-- After the mark of a parameter there is a word, behind a second mark if none was read before. -/
theorem exists_word_of_afterMark {ofMethod : Bool} {text : List Char} {tokens : List Token}
    (h : tokensFrom? (.afterMark ofMethod) text = some tokens) :
    (∃ c cs, text = c :: cs ∧ isWordChar c = true) ∨
      ofMethod = false ∧ ∃ cs, text = '!' :: cs ∧ tokensFrom? (.afterMark true) cs = some tokens := by
  cases text with
  | nil => cases h
  | cons c rest =>
    obtain ⟨completed, next, more, hstep, hmore, rfl⟩ := exists_step_of_tokensFrom? h
    rw [step] at hstep
    split at hstep
    · exact .inl ⟨c, rest, rfl, ‹_›⟩
    · split at hstep
      · rename_i hsecond
        obtain ⟨rfl, rfl⟩ := Prod.mk.inj (Option.some.inj hstep)
        rw [Bool.and_eq_true, beq_iff_eq, Bool.not_eq_true'] at hsecond
        obtain ⟨rfl, rfl⟩ := hsecond
        exact .inr ⟨rfl, rest, rfl, hmore⟩
      · cases hstep

/-- A word after its marks, up to its end. -/
theorem exists_parameter (ofMethod : Bool) {c : Char} (hc : isWordChar c = true) (cs : List Char) :
    ∃ (token : Token) (rest : List Char), token.Sound ∧ token.Ends rest ∧
      marks ofMethod ++ c :: cs = token.text ++ rest := by
  obtain ⟨word, rest, rfl, hword, hrest⟩ := exists_run isWordChar cs
  exact ⟨.parameter ofMethod (c :: word), rest, sound_parameter_of_cons ofMethod hc hword, hrest,
    by simp [Token.text]⟩

/-- **A text of tokens that does not begin with a blank begins with a token**, and the token ends there. -/
theorem exists_token {c : Char} {rest : List Char} {tokens : List Token}
    (h : tokensFrom? .between (c :: rest) = some tokens) (hc : Text.isSpellingBlank c = false) :
    ∃ (token : Token) (after : List Char), token.Sound ∧ token.Ends after ∧
      c :: rest = token.text ++ after := by
  obtain ⟨completed, next, more, hstep, -⟩ := exists_step_of_tokensFrom? h
  rcases beginning_of_stepBetween hstep with hblank | ⟨token, htext, hsound, hends⟩ | rfl | hstart
  · exact absurd (hblank.symm.trans hc) (Bool.false_ne_true ∘ Eq.symm)
  · exact ⟨token, rest, hsound, hends rest, by rw [htext, List.singleton_append]⟩
  · have hmark : tokensFrom? (.afterMark false) rest = some tokens := (tokensFrom?_marks false rest).symm.trans h
    rcases exists_word_of_afterMark hmark with ⟨d, ds, rfl, hd⟩ | ⟨-, cs, rfl, hsecond⟩
    · exact exists_parameter false hd ds
    · rcases exists_word_of_afterMark hsecond with ⟨d, ds, rfl, hd⟩ | ⟨hfalse, -⟩
      · exact exists_parameter true hd ds
      · cases hfalse
  · obtain ⟨content, after, rfl, hcontent, hafter⟩ := exists_run isNameChar rest
    exact ⟨.name (c :: content), after, sound_name_of_cons hstart hcontent, hafter, rfl⟩

theorem Token.text_ne_nil {token : Token} (h : token.Sound) : token.text ≠ [] := by
  cases token with
  | name content =>
    obtain ⟨c, cs, rfl, -⟩ := exists_cons_of_sound_name h
    exact List.cons_ne_nil _ _
  | parameter ofMethod word =>
    rw [Token.text, marks_eq]
    exact List.cons_ne_nil _ _
  | opening | comma | closing => exact List.cons_ne_nil _ _

theorem Lexes.tokens? {text : List Char} {tokens : List Token} (h : Lexes text tokens) :
    tokensFrom? .between text = some tokens := by
  induction h with
  | nil => rfl
  | blank hblank _ ih => rw [tokensFrom?_spellingBlank hblank, ih]
  | token hsound hlongest _ ih =>
    rw [tokensFrom?_token hsound ((longest_iff hsound).mp hlongest), ih]
    rfl

theorem lexes_of_tokensFrom? {text : List Char} {tokens : List Token}
    (h : tokensFrom? .between text = some tokens) : Lexes text tokens := by
  -- what follows the first token or blank is shorter
  induction hlength : text.length using Nat.strongRecOn generalizing text tokens with
  | ind n ih =>
    cases text with
    | nil =>
      obtain rfl := Option.some.inj h
      exact .nil
    | cons c rest =>
      cases hblank : Text.isSpellingBlank c with
      | true =>
        rw [tokensFrom?_spellingBlank hblank] at h
        exact .blank hblank (ih rest.length (by rw [← hlength]; exact Nat.lt_succ_self _) h rfl)
      | false =>
        obtain ⟨token, after, hsound, hends, htext⟩ := exists_token h hblank
        have hpositive := List.length_pos_iff.mpr (Token.text_ne_nil hsound)
        rw [htext] at h hlength ⊢
        rw [tokensFrom?_token hsound hends] at h
        obtain ⟨more, hmore, rfl⟩ := Option.map_eq_some_iff.mp h
        rw [List.length_append] at hlength
        exact .token hsound ((longest_iff hsound).mpr hends) (ih after.length (by omega) hmore rfl)

/-- **The tokenizer finds the tokens of the lexical rules.** -/
theorem tokens?_eq_some_iff {text : List Char} {tokens : List Token} :
    tokens? text = some tokens ↔ Lexes text tokens :=
  ⟨lexes_of_tokensFrom?, Lexes.tokens?⟩

end JobClosure.Spelling
