import JobClosure.Form.Reader
import JobClosure.Proofs.Except
import Mathlib.Tactic.SplitIfs

/-!
# Atoms and what stands around them

An atom ends before a blank, a bracket, a quote or a comment, so it reads the same wherever one of these
follows it (`tokensFrom_atom`). That is clear for an atom of plain characters. An atom with backslashes in
it may lose some of them, and the symbols that matter are those that lose none: a symbol whose name, read
as a document, is that symbol again (`tokens_of_read`). The reader takes such a name for a single atom that
has exactly the characters of the document. The proof goes by length: no token can make up for a character
that was skipped (`length_le_of_mem_tokensFrom`).
-/

namespace JobClosure.Form

/-- What may follow an atom: nothing, or a character that ends it. -/
def Delimited : List Char → Prop
  | [] => True
  | c :: _ => endsAtom c = true

theorem Delimited.of_ends {c : Char} {rest : List Char} (h : endsAtom c = true) : Delimited (c :: rest) := h

theorem Delimited.append {text rest : List Char} (h : Delimited text) (hrest : Delimited rest) :
    Delimited (text ++ rest) := by
  cases text with
  | nil => exact hrest
  | cons c text => exact h

theorem tokensFrom_cons (mode : Mode) (position : Nat) (c : Char) (rest : List Char) :
    tokensFrom mode position (c :: rest) =
      (step mode position c rest).1 ++ tokensFrom (step mode position c rest).2 (position + 1) rest :=
  rfl

/-- The characters that an unfinished atom was written with. -/
def Mode.written : Mode → List Char
  | .inAtom read => read.reverse
  | .escapeInAtom read => read.reverse ++ ['\\']
  | _ => []

/-! ## What one character does to an atom -/

theorem not_mem_stepBetween {position : Nat} {c : Char} {rest x : List Char} :
    Token.atom x ∉ (stepBetween position c rest).1 := by
  unfold stepBetween
  split_ifs
  · simp
  · simp
  · simp
  · simp
  · simp
  · split <;> simp

/-- Between tokens a character starts an atom, and is its first character, or nothing is written. -/
theorem written_stepBetween (position : Nat) (c : Char) (rest : List Char) :
    (stepBetween position c rest).2.written = [] ∨
    (∀ position' rest', stepBetween position' c rest' = ([], (stepBetween position c rest).2)) ∧
      (stepBetween position c rest).2.written = [c] ∧ endsAtom c = false := by
  unfold stepBetween
  split_ifs with hblank hquote hcomment hmark hslash
  · exact .inl rfl
  · exact .inl rfl
  · exact .inl rfl
  · exact .inl rfl
  · rw [beq_iff_eq.mp hslash]
    exact .inr ⟨fun _ _ => rfl, rfl, by decide⟩
  · split
    · exact .inl rfl
    · exact .inl rfl
    · rename_i hopened hclosed
      refine .inr ⟨fun _ _ => rfl, rfl, ?_⟩
      simp [endsAtom, hblank, hquote, hcomment, hopened, hclosed]

theorem step_inAtom_of_ends {read : List Char} {c : Char} (h : endsAtom c = true) (position : Nat)
    (rest : List Char) :
    step (.inAtom read) position c rest =
      (.atom read.reverse :: (stepBetween position c rest).1, (stepBetween position c rest).2) := by
  rw [step.eq_def]
  exact if_pos h

theorem step_inAtom {read : List Char} {c : Char} (h : endsAtom c = false) (position : Nat)
    (rest : List Char) :
    step (.inAtom read) position c rest =
      if c == '\\' then ([], .escapeInAtom read) else ([], .inAtom (c :: read)) := by
  rw [step.eq_def]
  exact if_neg (by simp [h])

/-- A step completes no atom longer than what was written of it. -/
theorem length_le_of_mem_step {mode : Mode} {position : Nat} {c : Char} {rest x : List Char}
    (h : Token.atom x ∈ (step mode position c rest).1) : x.length ≤ mode.written.length := by
  cases mode with
  | between => exact absurd h not_mem_stepBetween
  | comment => exact absurd h List.not_mem_nil
  | inText read =>
    rw [step.eq_def] at h
    split_ifs at h <;> simp at h
  | escapeInText read => exact absurd h List.not_mem_nil
  | escapeInAtom read => exact absurd h List.not_mem_nil
  | inAtom read =>
    cases hc : endsAtom c with
    | true =>
      rw [step_inAtom_of_ends hc] at h
      rcases List.mem_cons.mp h with h | h
      · rw [Token.atom.inj h]
        exact Nat.le_refl _
      · exact absurd h not_mem_stepBetween
    | false =>
      rw [step_inAtom hc] at h
      split_ifs at h <;> exact absurd h List.not_mem_nil

/-- What is written of an atom grows by the character that is read, or does not grow. -/
theorem written_step (mode : Mode) (position : Nat) (c : Char) (rest : List Char) :
    (step mode position c rest).2.written.length ≤ mode.written.length ∨
    (∀ position' rest', step mode position' c rest' = ([], (step mode position c rest).2)) ∧
      (step mode position c rest).2.written = mode.written ++ [c] := by
  cases mode with
  | between =>
    rcases written_stepBetween position c rest with hnone | ⟨hstep, hfirst, -⟩
    · exact .inl (Nat.le_of_eq (congrArg List.length hnone))
    · exact .inr ⟨hstep, hfirst⟩
  | comment =>
    refine .inl ?_
    rw [step.eq_def]
    split_ifs <;> exact Nat.zero_le _
  | inText read =>
    refine .inl ?_
    rw [step.eq_def]
    split_ifs <;> exact Nat.zero_le _
  | escapeInText read => exact .inl (Nat.zero_le _)
  | escapeInAtom read =>
    -- the backslash counted as written; it is lost or the character comes on top of it
    have hnext : (step (.escapeInAtom read) position c rest).2.written
        = read.reverse ++ (atomEscape c).reverse := by
      simp [step, Mode.written]
    rw [hnext]
    unfold atomEscape
    split_ifs
    · exact .inl (by simp [Mode.written])
    · exact .inr ⟨fun _ _ => rfl, by simp [Mode.written]⟩
  | inAtom read =>
    cases hc : endsAtom c with
    | true =>
      rw [step_inAtom_of_ends hc]
      rcases written_stepBetween position c rest with hnone | ⟨-, -, hnot⟩
      · exact .inl (by simp [hnone])
      · exact absurd hc (by simp [hnot])
    | false =>
      refine .inr ⟨fun _ _ => by rw [step_inAtom hc, step_inAtom hc]; split_ifs <;> rfl, ?_⟩
      rw [step_inAtom hc]
      split_ifs with hslash
      · rw [beq_iff_eq.mp hslash]
        rfl
      · simp [Mode.written]

/-! ## No atom is longer than its text -/

/-- **No atom is longer than the text it was read from.** -/
theorem length_le_of_mem_tokensFrom {mode : Mode} {position : Nat} {cs x : List Char}
    (h : Token.atom x ∈ tokensFrom mode position cs) : x.length ≤ mode.written.length + cs.length := by
  induction cs generalizing mode position with
  | nil =>
    cases mode with
    | inAtom read =>
      rw [Token.atom.inj (List.mem_singleton.mp h)]
      simp [Mode.written]
    | _ => simp [tokensFrom, atEnd] at h
  | cons c rest ih =>
    rw [tokensFrom_cons, List.mem_append] at h
    rw [List.length_cons]
    rcases h with h | h
    · have := length_le_of_mem_step h
      omega
    · have hlater := ih h
      rcases written_step mode position c rest with hkept | ⟨-, hgrown⟩
      · omega
      · rw [hgrown, List.length_append, List.length_singleton] at hlater
        omega

/-! ## An atom in front of something else -/

/-- An atom is complete where something follows that ends it. -/
theorem tokensFrom_inAtom_of_delimited {read rest : List Char} (position : Nat) (hrest : Delimited rest) :
    tokensFrom (.inAtom read) position rest = .atom read.reverse :: tokensFrom .between position rest := by
  cases rest with
  | nil => rfl
  | cons c rest =>
    rw [tokensFrom_cons, step_inAtom_of_ends hrest]
    rfl

/-- **An atom that keeps the characters it is written with does so in front of anything that ends it.** -/
theorem tokensFrom_written {mode : Mode} {start : Nat} {cs rest : List Char}
    (h : tokensFrom mode start cs = [.atom (mode.written ++ cs)]) (hrest : Delimited rest) (position : Nat) :
    tokensFrom mode position (cs ++ rest)
      = .atom (mode.written ++ cs) :: tokensFrom .between (position + cs.length) rest := by
  induction cs generalizing mode start position with
  | nil =>
    cases mode with
    | inAtom read =>
      rw [List.nil_append, tokensFrom_inAtom_of_delimited position hrest]
      simp [Mode.written]
    | _ => simp [tokensFrom, atEnd] at h
  | cons c cs ih =>
    have hmem : Token.atom (mode.written ++ c :: cs) ∈ tokensFrom mode start (c :: cs) := by
      rw [h]
      exact List.mem_singleton_self _
    rw [tokensFrom_cons, List.mem_append] at hmem
    rcases written_step mode start c cs with hkept | ⟨hstep, hgrown⟩
    · -- the character is lost, and no later one can make up for it
      exfalso
      rcases hmem with hmem | hmem
      · have hshort := length_le_of_mem_step hmem
        simp only [List.length_append, List.length_cons] at hshort
        omega
      · have hshort := length_le_of_mem_tokensFrom hmem
        simp only [List.length_append, List.length_cons] at hshort
        omega
    · have hnext : tokensFrom (step mode start c cs).2 (start + 1) cs
          = [.atom ((step mode start c cs).2.written ++ cs)] := by
        rw [tokensFrom_cons, hstep start cs] at h
        rw [hgrown, List.append_assoc]
        exact h
      rw [List.cons_append, tokensFrom_cons, hstep position (cs ++ rest), List.nil_append, ih hnext, hgrown,
        List.append_assoc, List.length_cons]
      congr 2
      omega

/-! ## Atoms of plain characters -/

/-- A character that is part of an atom wherever it stands in one. -/
def isPlain (c : Char) : Bool := !endsAtom c && c != '\\' && c != '\''

theorem stepBetween_plain {c : Char} (h : isPlain c = true) (position : Nat) (rest : List Char) :
    stepBetween position c rest = ([], .inAtom [c]) := by
  simp only [isPlain, endsAtom, Bool.and_eq_true, Bool.not_eq_true', Bool.or_eq_false_iff, bne_iff_ne, ne_eq,
    Option.isSome_eq_false_iff, Option.isNone_iff_eq_none] at h
  obtain ⟨⟨⟨⟨⟨⟨hblank, hquote⟩, hcomment⟩, hopened⟩, hclosed⟩, hslash⟩, hmark⟩ := h
  unfold stepBetween
  simp [hblank, hquote, hcomment, hmark, hslash, hopened, hclosed]

/-- An atom goes on as long as nothing ends it and nothing is escaped. -/
theorem tokensFrom_inAtom {cs : List Char} (h : ∀ c ∈ cs, endsAtom c = false ∧ c ≠ '\\') (read : List Char)
    (position : Nat) : tokensFrom (.inAtom read) position cs = [.atom (read.reverse ++ cs)] := by
  induction cs generalizing read position with
  | nil => simp [tokensFrom, atEnd]
  | cons c cs ih =>
    obtain ⟨hends, hslash⟩ := h c List.mem_cons_self
    rw [tokensFrom_cons, step_inAtom hends, if_neg (by simpa using hslash),
      ih (fun c hc => h c (List.mem_cons_of_mem _ hc))]
    simp

theorem tokensFrom_plain {cs : List Char} (hne : cs ≠ []) (h : ∀ c ∈ cs, isPlain c = true)
    (position : Nat) : tokensFrom .between position cs = [.atom cs] := by
  obtain ⟨c, cs, rfl⟩ := List.exists_cons_of_ne_nil hne
  have hgoesOn : ∀ d ∈ cs, endsAtom d = false ∧ d ≠ '\\' := by
    intro d hd
    have hplain := h d (List.mem_cons_of_mem _ hd)
    simp only [isPlain, Bool.and_eq_true, Bool.not_eq_true', bne_iff_ne, ne_eq] at hplain
    exact hplain.1
  rw [tokensFrom_cons]
  show (stepBetween position c cs).1 ++ tokensFrom (stepBetween position c cs).2 (position + 1) cs = _
  rw [stepBetween_plain (h c List.mem_cons_self), tokensFrom_inAtom hgoesOn]
  rfl

/-! ## Names that are read as themselves -/

/-- The forms that the outermost list holds so far. -/
def held (level : OpenList) : List (OpenList × Bracket) → List Form
  | [] => level.items.reverse
  | (parent, _) :: outer => held parent outer

/-- Forms of which the first one is no symbol. -/
def StartCompound (forms : List Form) : Prop := ∃ form rest, forms = form :: rest ∧ form.symbolName? = none

theorem StartCompound.ne_nil {forms : List Form} (h : StartCompound forms) : forms ≠ [] := by
  obtain ⟨form, rest, rfl, -⟩ := h
  exact List.cons_ne_nil form rest

theorem symbolName?_quoted {positions : List Nat} (form : Form) (h : positions ≠ []) :
    (positions.foldl (fun form _ => Form.quote form) form).symbolName? = none := by
  induction positions generalizing form with
  | nil => exact absurd rfl h
  | cons position positions ih =>
    cases positions with
    | nil => rfl
    | cons next positions => exact ih _ (List.cons_ne_nil next positions)

/-- A form that is added to an open list stays in what is read, quoted if an apostrophe waits for it. -/
theorem exists_more_of_push {level : OpenList} {outer : List (OpenList × Bracket)} {form : Form}
    {items more : List Form} (hitems : items = held (level.push form) outer ++ more)
    (hmore : outer ≠ [] → StartCompound more) :
    ∃ more, items = held level outer ++ more ∧ more ≠ [] ∧
      (form.symbolName? = none ∨ level.apostrophes ≠ [] ∨ outer ≠ [] → StartCompound more) := by
  cases outer with
  | nil =>
    refine ⟨level.apostrophes.foldl (fun form _ => .quote form) form :: more, ?_, List.cons_ne_nil _ _, ?_⟩
    · simpa [held, OpenList.push] using hitems
    · intro hcompound
      refine ⟨_, _, rfl, ?_⟩
      by_cases hmarks : level.apostrophes = []
      · simpa [hmarks] using hcompound
      · exact symbolName?_quoted form hmarks
  | cons parent outer =>
    have hmore := hmore (List.cons_ne_nil parent outer)
    exact ⟨more, hitems, hmore.ne_nil, fun _ => hmore⟩

/-- **The outermost list only grows.** If anything is still open when more tokens are read, the next form
that it gets is a list or a quoted form. -/
theorem exists_more {tokens : List Token} {level : OpenList} {outer : List (OpenList × Bracket)}
    {items : List Form} (h : readTokens level outer tokens = .ok items) :
    ∃ more, items = held level outer ++ more ∧ (tokens ≠ [] → more ≠ []) ∧
      (level.apostrophes ≠ [] ∨ outer ≠ [] → StartCompound more) := by
  induction tokens generalizing level outer with
  | nil =>
    obtain ⟨finished, hfinish, h⟩ := bind_eq_ok h
    unfold OpenList.finish at hfinish
    split at hfinish
    · rename_i hmarks
      obtain rfl := Except.ok.inj hfinish
      cases outer with
      | nil =>
        obtain rfl := Except.ok.inj h
        exact ⟨[], by simp [held], absurd rfl, by simp [hmarks]⟩
      | cons parent outer => exact nomatch h
    · exact nomatch hfinish
  | cons token tokens ih =>
    -- a text and an atom are added to the innermost list and leave open what was open
    have ofPush : ∀ form, readTokens (level.push form) outer tokens = .ok items →
        ∃ more, items = held level outer ++ more ∧ (token :: tokens ≠ [] → more ≠ []) ∧
          (level.apostrophes ≠ [] ∨ outer ≠ [] → StartCompound more) := by
      intro form h
      obtain ⟨more, hitems, -, hpending⟩ := ih h
      obtain ⟨more, hitems, hne, hcompound⟩ := exists_more_of_push hitems fun houter => hpending (.inr houter)
      exact ⟨more, hitems, fun _ => hne, fun hpending => hcompound (.inr hpending)⟩
    cases token with
    | opening bracket =>
      obtain ⟨more, hitems, -, hpending⟩ := ih h
      have hmore := hpending (.inr (List.cons_ne_nil _ _))
      exact ⟨more, hitems, fun _ => hmore.ne_nil, fun _ => hmore⟩
    | closing bracket remainder =>
      obtain ⟨finished, -, h⟩ := bind_eq_ok h
      cases outer with
      | nil => exact nomatch h
      | cons parent outer =>
        obtain ⟨parent, opened⟩ := parent
        dsimp only at h
        split at h
        · obtain ⟨more, hitems, -, hpending⟩ := ih h
          obtain ⟨more, hitems, hne, hcompound⟩ :=
            exists_more_of_push hitems fun houter => hpending (.inr houter)
          have hmore := hcompound (.inl (by cases bracket <;> rfl))
          exact ⟨more, hitems, fun _ => hne, fun _ => hmore⟩
        · exact nomatch h
    | apostrophe position =>
      obtain ⟨more, hitems, -, hpending⟩ := ih h
      have hmore := hpending (.inl (List.cons_ne_nil _ _))
      refine ⟨more, ?_, fun _ => hmore.ne_nil, fun _ => hmore⟩
      cases outer with
      | nil => exact hitems
      | cons parent outer => exact hitems
    | text content => exact ofPush _ h
    | atom content => exact ofPush _ h
    | broken fault => exact nomatch h

/-- A document that is read as one symbol consists of one atom. -/
theorem eq_atom_of_readTokens {tokens : List Token} {name : String}
    (h : readTokens {} [] tokens = .ok [.symbol name]) :
    ∃ content, tokens = [.atom content] ∧ ofAtom content = .symbol name := by
  -- what is still open becomes a list or a quoted form, and neither is a symbol
  have notPending : ∀ {level outer tokens}, (level.apostrophes ≠ [] ∨ outer ≠ []) → held level outer = [] →
      readTokens level outer tokens ≠ .ok [.symbol name] := by
    intro level outer tokens hpending hnone h
    obtain ⟨more, hitems, -, hcompound⟩ := exists_more h
    obtain ⟨form, rest, rfl, hform⟩ := hcompound hpending
    rw [hnone, List.nil_append, List.cons.injEq] at hitems
    exact nomatch hitems.1 ▸ hform
  cases tokens with
  | nil => exact nomatch h
  | cons token tokens =>
    cases token with
    | opening bracket =>
      have h : readTokens {} [({}, bracket)] tokens = .ok [.symbol name] := h
      exact absurd h (notPending (.inr (List.cons_ne_nil _ _)) rfl)
    | closing bracket remainder => exact nomatch h
    | apostrophe position =>
      have h : readTokens ⟨[], [position]⟩ [] tokens = .ok [.symbol name] := h
      exact absurd h (notPending (.inl (List.cons_ne_nil _ _)) rfl)
    | text content =>
      have h : readTokens ⟨[.text (String.ofList content)], []⟩ [] tokens = .ok [.symbol name] := h
      obtain ⟨more, hitems, -, -⟩ := exists_more h
      exact nomatch hitems
    | atom content =>
      have h : readTokens ⟨[ofAtom content], []⟩ [] tokens = .ok [.symbol name] := h
      obtain ⟨more, hitems, hne, -⟩ := exists_more h
      have hitems : .symbol name :: [] = ofAtom content :: more := hitems
      obtain ⟨hform, rfl⟩ := List.cons.inj hitems
      cases tokens with
      | nil => exact ⟨content, rfl, hform.symm⟩
      | cons token tokens => exact absurd rfl (hne (List.cons_ne_nil token tokens))
    | broken fault => exact nomatch h

theorem ofAtom_eq_symbol {content : List Char} {name : String} (h : ofAtom content = .symbol name) :
    name = String.ofList content := by
  unfold ofAtom at h
  split at h
  · exact nomatch h
  · split at h
    · exact nomatch h
    · exact (Form.symbol.inj h).symm

/-- **A symbol that is read as itself is written as one atom**, with all the characters of its name. -/
theorem tokens_of_read {name : String} (h : read name = .ok (.symbol name)) :
    tokens name.toList = [.atom name.toList] ∧ ofAtom name.toList = .symbol name := by
  obtain ⟨items, hitems, h⟩ := bind_eq_ok h
  split at h
  · obtain rfl := Except.ok.inj h
    obtain ⟨content, htokens, hatom⟩ := eq_atom_of_readTokens hitems
    obtain rfl : content = name.toList := by rw [ofAtom_eq_symbol hatom, String.toList_ofList]
    exact ⟨htokens, hatom⟩
  · exact nomatch h

end JobClosure.Form
