import JobClosure.Proofs.Numeral.Whole
import JobClosure.Proofs.Spelling.Parsed
import JobClosure.Instruction
import Mathlib

/-!
# Positions that are no numbers

A parameter may be given by its position. The parameters of a spelling are words of the grammar, so a position in it
consists of ASCII digits and writes a whole number. Only the number of its digits can keep it from being read
(`Instruction.tooLong_of_decode`): that is the one fault of a body that is no fault of the body.
-/

namespace JobClosure

namespace Spelling

/-- Of the characters of a word only the ASCII digits stand for digits. -/
theorem isDigit_of_isWordChar {c : Char} (hword : isWordChar c = true) (hdigit : Text.isDigitLike c = true) :
    c.isDigit = true := by
  have hsmall : c.toNat < 128 := by
    simp only [isWordChar, Char.isAlphanum, Char.isAlpha, Char.isUpper, Char.isLower, Char.isDigit, Bool.or_eq_true,
      Bool.and_eq_true, decide_eq_true_eq, beq_iff_eq] at hword
    rcases hword with ((hupper | hlower) | hnumber) | rfl
    · have := UInt32.le_iff_toNat_le.mp hupper.2
      exact Nat.lt_of_le_of_lt this (by decide)
    · have := UInt32.le_iff_toNat_le.mp hlower.2
      exact Nat.lt_of_le_of_lt this (by decide)
    · have := UInt32.le_iff_toNat_le.mp hnumber.2
      exact Nat.lt_of_le_of_lt this (by decide)
    · decide
  -- of the ranges of digits only that of the ASCII digits begins so early
  have hranges : ∀ r ∈ Text.decimalDigits ++ Text.digitSigns, r = (0x30, 0x39) ∨ 128 ≤ r.1 := by decide
  have hthere : ∃ r ∈ Text.decimalDigits ++ Text.digitSigns, r.1 ≤ c.toNat ∧ c.toNat ≤ r.2 := by
    rcases Bool.or_eq_true_iff.mp hdigit with hdecimal | hsign
    · obtain ⟨r, hr, hin⟩ := Text.Ranges.contains_iff.mp hdecimal
      exact ⟨r, List.mem_append_left _ hr, hin⟩
    · obtain ⟨r, hr, hin⟩ := Text.Ranges.contains_iff.mp hsign
      exact ⟨r, List.mem_append_right _ hr, hin⟩
  obtain ⟨r, hr, hlow, hhigh⟩ := hthere
  rcases hranges r hr with rfl | hbeyond
  · simp only [Char.isDigit, Bool.and_eq_true, decide_eq_true_eq, UInt32.le_iff_toNat_le, ge_iff_le]
    exact ⟨hlow, hhigh⟩
  · omega

end Spelling

theorem Text.isDigitLike_of_isDigit {c : Char} (h : c.isDigit = true) : isDigitLike c = true := by
  refine Bool.or_eq_true_iff.mpr (.inl (Ranges.contains_iff.mpr ⟨(0x30, 0x39), ?_, Numeral.bounds_of_isDigit h⟩))
  exact List.mem_cons_self

namespace Numeral

/-- A run of digits is a whole number unless it is too long. -/
theorem readWhole_digits {cs : List Char} (hne : cs ≠ []) (hdigits : ∀ c ∈ cs, c.isDigit = true) :
    readWhole cs = if digitLimit < cs.length then .error (.tooLong cs.length)
      else .ok (Int.ofNat (ofDigits (cs.map digitOf))) := by
  have hrun := digitRun_of_digits hne hdigits
  unfold readWhole
  rw [dropWhile_of_digits hdigits, sign_of_digits hdigits]
  dsimp only
  rw [hrun]
  dsimp only
  rw [List.length_map]
  rfl

end Numeral

/-- A number with more digits than a whole number may have. -/
def Numeral.Fault.IsTooLong (fault : Fault) : Prop := ∃ digits, fault = .tooLong digits ∧ digitLimit < digits

namespace Scope

variable {scope : Scope} {fault : Numeral.Fault}

theorem tooLong_of_declaredName {p : Parameter} {names : List String} (hword : Spelling.isWord p.name = true)
    (h : declaredName p names = .error (.position fault)) : fault.IsTooLong := by
  unfold declaredName at h
  split at h
  · cases h
  · split at h
    · rename_i hposition
      rcases bind_eq_error h with h | ⟨position, -, h⟩
      · obtain ⟨cause, hcause, hfault⟩ := mapError_eq_error h
        obtain rfl := BindFault.position.inj hfault
        simp only [Spelling.isWord, Bool.and_eq_true, Bool.not_eq_true', List.isEmpty_eq_false_iff,
          List.all_eq_true] at hword
        simp only [isPosition, Bool.and_eq_true, List.all_eq_true] at hposition
        have hdigits : ∀ c ∈ p.name.toList, c.isDigit = true := fun c hc =>
          Spelling.isDigit_of_isWordChar (hword.2 c hc) (hposition.2 c hc)
        unfold Numeral.wholeOfText Numeral.wholeOf at hcause
        rw [Numeral.readWhole_digits hword.1 hdigits] at hcause
        by_cases hlong : Numeral.digitLimit < p.name.toList.length
        · rw [if_pos hlong] at hcause
          exact ⟨_, (Except.error.inj hcause).symm, hlong⟩
        · rw [if_neg hlong] at hcause
          cases hcause
      · split at h
        · cases h
        · cases h
    · cases h

/-- A position that is too long is no name of a declared parameter. -/
theorem declaredName_of_tooLong {p : Parameter} {names : List String} (hname : p.name ∉ names)
    (hdigits : ∀ c ∈ p.name.toList, c.isDigit = true) (hlong : Numeral.digitLimit < p.name.toList.length) :
    declaredName p names = .error (.position (.tooLong p.name.toList.length)) := by
  have hne : p.name.toList ≠ [] := List.ne_nil_of_length_pos (Nat.zero_lt_of_lt hlong)
  have hposition : isPosition p.name = true := by
    rw [isPosition, Bool.and_eq_true, List.all_eq_true, Bool.not_eq_true', String.isEmpty_eq_false_iff]
    exact ⟨fun hempty => hne (congrArg String.toList hempty), fun c hc => Text.isDigitLike_of_isDigit (hdigits c hc)⟩
  have hread : Numeral.wholeOfText p.name = .error (.tooLong p.name.toList.length) := by
    rw [Numeral.wholeOfText, Numeral.wholeOf, Numeral.readWhole_digits hne hdigits, if_pos hlong]
  rw [declaredName, if_neg (by rwa [List.contains_iff_mem]), if_pos hposition, hread]
  rfl

theorem tooLong_of_bindParameter {p : Parameter} (hword : Spelling.isWord p.name = true)
    (h : scope.bindParameter p = .error (.position fault)) : fault.IsTooLong := by
  unfold bindParameter at h
  split at h
  · split at h
    · cases h
    · rcases bind_eq_error h with h | ⟨name, -, h⟩
      · exact tooLong_of_declaredName hword h
      · exact nomatch h
  · rcases bind_eq_error h with h | ⟨name, -, h⟩
    · exact tooLong_of_declaredName hword h
    · exact nomatch h

mutual

theorem tooLong_of_bind : ∀ (arg : TypeArg), (∀ p ∈ arg.occurrences, Spelling.isWord p.name = true) →
    scope.bind arg = .error (.position fault) → fault.IsTooLong
  | .param p, hwords, h => by
    rw [bind] at h
    rcases bind_eq_error h with h | ⟨q, -, h⟩
    · exact tooLong_of_bindParameter (hwords p (by simp [TypeArg.occurrences])) h
    · exact nomatch h
  | .named name args, hwords, h => by
    rw [bind] at h
    rcases bind_eq_error h with h | ⟨bounds, -, h⟩
    · exact tooLong_of_bindAll args (by simpa only [TypeArg.occurrences] using hwords) h
    · exact nomatch h

theorem tooLong_of_bindAll : ∀ (args : List TypeArg),
    (∀ p ∈ TypeArg.occurrencesAll args, Spelling.isWord p.name = true) →
    scope.bindAll args = .error (.position fault) → fault.IsTooLong
  | [], _, h => by
    rw [bindAll] at h
    exact nomatch h
  | arg :: rest, hwords, h => by
    rw [bindAll] at h
    rw [TypeArg.occurrencesAll, List.forall_mem_append] at hwords
    rcases bind_eq_error h with h | ⟨first, -, h⟩
    · exact tooLong_of_bind arg hwords.1 h
    · rcases bind_eq_error h with h | ⟨more, -, h⟩
      · exact tooLong_of_bindAll rest hwords.2 h
      · exact nomatch h

end

/-- **A spelling that is read in a scope** has a position that is no number only if the number is too long. -/
theorem tooLong_of_parse {text : String} (h : scope.parse text = .error (.position fault)) : fault.IsTooLong := by
  rcases bind_eq_error h with h | ⟨unbound, hunbound, h⟩
  · obtain ⟨refusal, -, hrefusal⟩ := mapError_eq_error h
    exact nomatch hrefusal
  · have hspellable := Spelling.parse_spellable (mapError_eq_ok hunbound)
    exact tooLong_of_bind unbound ((TypeArg.spellable_iff unbound).mp hspellable).2 h

end Scope

namespace Instruction

variable {scope : Scope} {fault : Numeral.Fault}

theorem tooLong_of_spelled {text : String} (h : spelled scope text = .error (.position fault)) :
    fault.IsTooLong := by
  obtain ⟨cause, hcause, hfault⟩ := mapError_eq_error h
  cases cause with
  | refused refusal => exact nomatch hfault
  | position other =>
    obtain rfl := InstructionFault.position.inj hfault
    exact Scope.tooLong_of_parse hcause

theorem tooLong_of_owner {form : Form} (h : owner scope form = .error (.position fault)) : fault.IsTooLong := by
  unfold owner at h
  split at h
  · cases h
  · rcases bind_eq_error h with h | ⟨arg, -, h⟩
    · exact tooLong_of_spelled h
    · split at h
      · exact nomatch h
      · cases h

/-- Lists of texts are read without any scope. -/
theorem textsIfAny_ne_position (use : TextList) (form : Option Form) :
    textsIfAny use form ≠ .error (.position fault) := by
  intro h
  cases form with
  | none => exact nomatch h
  | some form =>
    rcases bind_eq_error h with h | ⟨contents, -, h⟩
    · unfold texts at h
      split at h
      · split at h
        · exact nomatch h
        · cases h
      · cases h
    · exact nomatch h

theorem tooLong_of_construct {type : Form} {signature : Option Form}
    (h : decodeConstruction.construct scope type signature = .error (.position fault)) : fault.IsTooLong := by
  rcases bind_eq_error h with h | ⟨parameters, -, h⟩
  · exact absurd h (textsIfAny_ne_position _ _)
  · rcases bind_eq_error h with h | ⟨ref, -, h⟩
    · exact tooLong_of_owner h
    · exact nomatch h

theorem tooLong_of_call {opcode : String} {form type name : Form} {arguments signature : Option Form}
    (h : decodeCall.call scope opcode form type name arguments signature = .error (.position fault)) :
    fault.IsTooLong := by
  unfold decodeCall.call at h
  split at h
  · cases h
  · rcases bind_eq_error h with h | ⟨spellings, -, h⟩
    · exact absurd h (textsIfAny_ne_position _ _)
    · rcases bind_eq_error h with h | ⟨typeArguments, -, h⟩
      · obtain ⟨text, -, htext⟩ := exists_mem_of_mapM_eq_error h
        exact tooLong_of_spelled htext
      · rcases bind_eq_error h with h | ⟨parameters, -, h⟩
        · exact absurd h (textsIfAny_ne_position _ _)
        · rcases bind_eq_error h with h | ⟨ref, -, h⟩
          · exact tooLong_of_owner h
          · exact nomatch h

/-- **An instruction** has a position that is no number only if the number is too long. -/
theorem tooLong_of_decode {form : Form} (h : decode scope form = .error (.position fault)) : fault.IsTooLong := by
  unfold decode at h
  split at h
  · split at h
    · have h := map_eq_error h
      unfold decodeConstruction at h
      split at h
      · exact tooLong_of_construct h
      · exact tooLong_of_construct h
      · cases h
    · split at h
      · have h := map_eq_error h
        unfold decodeCall at h
        split at h
        · exact tooLong_of_call h
        · exact tooLong_of_call h
        · exact tooLong_of_call h
        · cases h
      · exact nomatch h
  · cases h

end Instruction

end JobClosure
