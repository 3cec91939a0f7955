import JobClosure.Proofs.Spelling.Grammar

/-!
# Names below a name

The full name of something that belongs to a group is the name of the group, a stroke and a word. As the
spelling of a reference this is read back if the name of the group is a name of the grammar, and it is refused
for nearly every other name: a stroke begins no token, so the last token is a name that goes on over the stroke,
and a spelling that ends in a name is nothing but that name. Only blanks may stand before it, and these are lost
(`parse_below`).
-/

namespace JobClosure.Spelling

/-- A text without the blanks that it begins with. -/
def withoutBlanks (text : String) : String := String.ofList (text.toList.dropWhile Text.isSpellingBlank)

theorem tokens?_dropWhile (text : List Char) : tokens? (text.dropWhile Text.isSpellingBlank) = tokens? text := by
  induction text with
  | nil => rfl
  | cons c rest ih =>
    cases hblank : Text.isSpellingBlank c with
    | true =>
      rw [List.dropWhile_cons_of_pos hblank, ih]
      exact (tokensFrom?_spellingBlank hblank rest).symm
    | false => rw [List.dropWhile_cons_of_neg (by simp [hblank])]

theorem parse?_withoutBlanks (text : String) : parse? (withoutBlanks text) = parse? text := by
  rw [parse?, parse?, withoutBlanks, String.toList_ofList, tokens?_dropWhile]

theorem toList_withoutBlanks (text : String) :
    (withoutBlanks text).toList = text.toList.dropWhile Text.isSpellingBlank := String.toList_ofList

/-- Before a stroke nothing but blanks of the group is left out. -/
theorem withoutBlanks_below (group member : String) :
    withoutBlanks (group ++ "/" ++ member) = withoutBlanks group ++ "/" ++ member := by
  have hstroke : ∀ cs : List Char, cs.dropWhile Text.isSpellingBlank ++ '/' :: member.toList
      = (cs ++ '/' :: member.toList).dropWhile Text.isSpellingBlank := by
    intro cs
    induction cs with
    | nil => rfl
    | cons c cs ih =>
      cases hblank : Text.isSpellingBlank c with
      | true => rw [List.dropWhile_cons_of_pos hblank, ih, List.cons_append, List.dropWhile_cons_of_pos hblank]
      | false =>
        rw [List.dropWhile_cons_of_neg (by simp [hblank]), List.cons_append,
          List.dropWhile_cons_of_neg (by simp [hblank])]
  apply String.toList_inj.mp
  simp only [toList_withoutBlanks, String.toList_append]
  simpa using (hstroke group.toList).symm

theorem withoutBlanks_eq_self {name : String} (h : isName name = true) : withoutBlanks name = name := by
  obtain ⟨c, cs, hname, hc, -⟩ := exists_cons_of_isName h
  have hblank : ¬ Text.isSpellingBlank c = true := fun h => by
    simp only [Text.isSpellingBlank, Bool.or_eq_true, beq_iff_eq] at h
    rcases h with (((rfl | rfl) | rfl) | rfl) | rfl <;> exact absurd hc (by decide)
  rw [withoutBlanks, hname, List.dropWhile_cons_of_neg hblank, ← hname, String.ofList_toList]

/-! ## The last token -/

/-- A token with a stroke in it is a name. -/
theorem Token.exists_name_of_stroke_mem {token : Token} (hsound : token.Sound) (h : '/' ∈ token.text) :
    ∃ content, token = .name content := by
  cases token with
  | name content => exact ⟨content, rfl⟩
  | parameter ofMethod word =>
    obtain ⟨c, cs, rfl, hc, hcs⟩ := exists_cons_of_sound_parameter hsound
    have hword : ∀ d ∈ c :: cs, isWordChar d = true := List.forall_mem_cons.mpr ⟨hc, hcs⟩
    rcases List.mem_append.mp h with h | h
    · exact absurd h (by cases ofMethod <;> decide)
    · exact absurd (hword _ h) (by decide)
  | opening | comma | closing => exact absurd h (by decide)

/-- **A text that ends in a stroke and characters of names ends in a name**, and if there is no other token, then
nothing but blanks stands before it. -/
theorem Lexes.ends_in_name {text : List Char} {tokens : List Token} (h : Lexes text tokens) {before rest : List Char}
    (htext : text = before ++ '/' :: rest) (hrest : ∀ c ∈ rest, isNameChar c = true) :
    ∃ initial content left, tokens = initial ++ [.name content] ∧ (Token.name content).Sound ∧ text = left ++ content ∧
      (initial = [] → ∀ c ∈ left, Text.isSpellingBlank c = true) := by
  induction h generalizing before with
  | nil => exact absurd htext (by simp)
  | @blank c text tokens hblank hlexes ih =>
    cases before with
    | nil =>
      obtain ⟨rfl, -⟩ := List.cons.inj htext
      exact absurd hblank (by decide)
    | cons d before =>
      obtain ⟨-, htext⟩ := List.cons.inj htext
      obtain ⟨initial, content, left, htokens, hsound, rfl, hblanks⟩ := ih htext
      exact ⟨initial, content, c :: left, htokens, hsound, rfl, fun hnil =>
        List.forall_mem_cons.mpr ⟨hblank, hblanks hnil⟩⟩
  | @token token text tokens hsound hlongest hlexes ih =>
    -- the stroke is in what follows the token, or in the token
    have hafter : ∀ later, text = later ++ '/' :: rest → ∃ initial content left,
        token :: tokens = initial ++ [.name content] ∧ (Token.name content).Sound ∧
          token.text ++ text = left ++ content ∧ (initial = [] → ∀ c ∈ left, Text.isSpellingBlank c = true) := by
      intro later htext
      obtain ⟨initial, content, left, rfl, hsound, rfl, -⟩ := ih htext
      exact ⟨token :: initial, content, token.text ++ left, rfl, hsound, (List.append_assoc ..).symm, fun hnil =>
        absurd hnil (List.cons_ne_nil _ _)⟩
    rcases List.append_eq_append_iff.mp htext with ⟨later, -, htext⟩ | ⟨inner, hinner, hsplit⟩
    · exact hafter later htext
    · cases inner with
      | nil => exact hafter [] hsplit.symm
      | cons c inner =>
        obtain ⟨rfl, rfl⟩ := List.cons.inj hsplit
        obtain ⟨content, rfl⟩ := Token.exists_name_of_stroke_mem hsound
          (hinner ▸ List.mem_append_right _ List.mem_cons_self)
        cases text with
        | nil =>
          have hnone : Spelling.tokens? [] = some [] := rfl
          obtain rfl : tokens = [] := Option.some.inj (hlexes.tokens?.symm.trans hnone)
          exact ⟨[], content, [], rfl, hsound, List.append_nil content, fun _ => List.forall_mem_nil _⟩
        | cons d text =>
          have hends := (longest_name_iff hsound).mp hlongest d rfl
          rw [hrest d (List.mem_append_right _ List.mem_cons_self)] at hends
          exact absurd hends (by decide)

/-- **A reference that ends in a name is that name.** -/
theorem Derives.eq_nil_of_name {initial : List Token} {content : List Char} {arg : TypeArg}
    (h : Derives (initial ++ [.name content]) arg) : initial = [] := by
  generalize htokens : initial ++ [.name content] = tokens at h
  cases h with
  | name other => simpa using congrArg List.length htokens
  | parameter ofMethod word => simpa using congrArg List.length htokens
  | @applied other first more arg args hfirst hmore =>
    have hlast : (initial ++ [Token.name content]).getLast?
        = (Token.name other :: .opening :: (first ++ more) ++ [Token.closing]).getLast? := congrArg List.getLast? htokens
    rw [List.getLast?_concat, List.getLast?_concat] at hlast
    exact Token.noConfusion (Option.some.inj hlast)

/-! ## What is read -/

theorem not_blank_of_head (group : String) {c : Char} (more : List Char) {rest : List Char}
    (h : (withoutBlanks group).toList ++ '/' :: more = c :: rest) : ¬ Text.isSpellingBlank c = true := by
  rw [toList_withoutBlanks] at h
  cases hleft : group.toList.dropWhile Text.isSpellingBlank with
  | nil =>
    rw [hleft] at h
    obtain ⟨rfl, -⟩ := List.cons.inj h
    decide
  | cons d left =>
    rw [hleft] at h
    obtain ⟨rfl, -⟩ := List.cons.inj h
    have hfirst := List.head?_dropWhile_not Text.isSpellingBlank group.toList
    rw [hleft] at hfirst
    simpa using hfirst

/-- What a name begins with before a stroke is a name. -/
theorem isName_of_stroke {name : String} {more content : List Char} (hcontent : name.toList ++ '/' :: more = content)
    (h : (Token.name content).Sound) : isName name = true := by
  obtain ⟨c, cs, rfl, hc, hcs⟩ := exists_cons_of_sound_name h
  cases hname : name.toList with
  | nil =>
    rw [hname] at hcontent
    obtain ⟨rfl, -⟩ := List.cons.inj hcontent
    exact absurd hc (by decide)
  | cons d ds =>
    rw [hname] at hcontent
    obtain ⟨rfl, rfl⟩ := List.cons.inj hcontent
    have hsound : (Token.name (d :: ds)).Sound :=
      sound_name_of_cons hc fun e he => hcs e (List.mem_append_left _ he)
    rw [← String.ofList_toList (s := name), hname]
    exact hsound

/-- **A name below a group is read if the group has a name of the grammar**, whatever blanks stand before it. -/
theorem parse_below (group : String) {member : String} (hmember : ∀ c ∈ member.toList, isNameChar c = true) :
    parse (group ++ "/" ++ member) =
      if isName (withoutBlanks group) then .ok (.named (withoutBlanks group ++ "/" ++ member) [])
      else .error (.malformed (group ++ "/" ++ member)) := by
  have hstart : parse? (withoutBlanks group ++ "/" ++ member) = parse? (group ++ "/" ++ member) := by
    rw [← withoutBlanks_below, parse?_withoutBlanks]
  split
  · rename_i hname
    have hbelow : isName (withoutBlanks group ++ "/" ++ member) = true :=
      isName_append (isName_append hname (by decide)) (List.all_eq_true.mpr hmember)
    have hspellable : (TypeArg.named (withoutBlanks group ++ "/" ++ member) []).Spellable := ⟨hbelow, trivial⟩
    have hparse := parse_spell hspellable
    rw [TypeArg.spell, TypeArg.replace, TypeArg.replaceAll] at hparse
    exact parse_eq_ok_iff.mpr (hstart.symm.trans (parse_eq_ok_iff.mp hparse))
  · rename_i hname
    refine parse_eq_error_iff.mpr ⟨hstart.symm.trans ?_, rfl⟩
    rw [Option.eq_none_iff_forall_ne_some]
    intro arg harg
    obtain ⟨tokens, hlexes, hderives⟩ := parse?_eq_some_iff.mp harg
    have htext : (withoutBlanks group ++ "/" ++ member).toList
        = (withoutBlanks group).toList ++ '/' :: member.toList := by
      simp [String.toList_append]
    obtain ⟨initial, content, left, rfl, hsound, hleft, hblanks⟩ := hlexes.ends_in_name htext hmember
    obtain rfl : left = [] := by
      cases left with
      | nil => rfl
      | cons c left =>
        have hc : Text.isSpellingBlank c = true :=
          hblanks hderives.eq_nil_of_name c List.mem_cons_self
        exact absurd hc (not_blank_of_head group member.toList (htext.symm.trans hleft))
    -- the whole text is a name, so the group is what it begins with
    rw [htext, List.nil_append] at hleft
    exact hname (isName_of_stroke hleft hsound)

end JobClosure.Spelling
