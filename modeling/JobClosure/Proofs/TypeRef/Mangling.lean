import JobClosure.Proofs.Spelling.Parsed
import JobClosure.TypeRef.Mangling

/-!
# The characters of spellings

A spelling is made of characters of names, marks, angle brackets and separators (`SpellingText`). Mangling
takes out everything that a name of the grammar cannot have, so a mangled spelling goes into a name
(`isNameChar_of_mem_mangle`).
-/

namespace JobClosure

open Spelling (isNameChar isName isWord)

/-- Texts with the characters of spellings. A comma has its space with it. -/
inductive SpellingText : List Char → Prop
  | nil : SpellingText []
  | char {c : Char} {cs : List Char} : isNameChar c = true ∨ c = '!' ∨ c = '<' ∨ c = '>' → SpellingText cs →
      SpellingText (c :: cs)
  | separator {cs : List Char} : SpellingText cs → SpellingText (',' :: ' ' :: cs)

namespace SpellingText

theorem append {cs ds : List Char} (h : SpellingText cs) (hds : SpellingText ds) : SpellingText (cs ++ ds) := by
  induction h with
  | nil => exact hds
  | char hc _ ih => exact .char hc ih
  | separator _ ih => exact .separator ih

theorem of_names {cs : List Char} (h : ∀ c ∈ cs, isNameChar c = true) : SpellingText cs := by
  induction cs with
  | nil => exact .nil
  | cons c cs ih =>
    obtain ⟨hc, hcs⟩ := List.forall_mem_cons.mp h
    exact .char (.inl hc) (ih hcs)

theorem intercalate {texts : List (List Char)} (h : ∀ text ∈ texts, SpellingText text) :
    SpellingText ([',', ' '].intercalate texts) := by
  induction texts with
  | nil => exact .nil
  | cons text texts ih =>
    obtain ⟨htext, htexts⟩ := List.forall_mem_cons.mp h
    cases texts with
    | nil => simpa using htext
    | cons next texts =>
      rw [List.intercalate_cons_cons]
      exact (htext.append (.separator .nil)).append (ih htexts)

/-- No spelling breaks a line. -/
theorem not_mem_return {cs : List Char} (h : SpellingText cs) : '\r' ∉ cs := by
  induction h with
  | nil => exact List.not_mem_nil
  | @char c cs hc _ ih =>
    have hne : '\r' ≠ c := by
      rintro rfl
      exact absurd hc (by decide)
    exact fun hmem => (List.mem_cons.mp hmem).elim hne ih
  | separator _ ih => simpa using ih

theorem foldSeparators_cons {c : Char} (h : c ≠ ',') (rest : List Char) :
    foldSeparators (c :: rest) =
      if c == '!' then foldSeparators rest
      else if c == '<' || c == ',' || c == '.' || c == '/' || c == '\x60' then '_' :: foldSeparators rest
      else c :: foldSeparators rest := by
  rw [foldSeparators]
  exact fun _ heq _ => absurd heq h

/-- **Mangling leaves characters of names only.** -/
theorem isNameChar_of_mem_fold {cs : List Char} (h : SpellingText cs) :
    ∀ c ∈ foldSeparators (cs.filter (· != '>')), isNameChar c = true := by
  induction h with
  | nil => exact fun c hc => absurd hc List.not_mem_nil
  | @char c cs hc _ ih =>
    have hunderscore : isNameChar '_' = true := by decide
    rw [List.filter_cons]
    split
    · rename_i hkept
      have hcomma : c ≠ ',' := by
        rintro rfl
        exact absurd hc (by decide)
      rw [foldSeparators_cons hcomma]
      -- an exclamation mark is dropped, a separator becomes an underscore, and the rest are characters of names
      split
      · exact ih
      · rename_i hmark
        split
        · exact List.forall_mem_cons.mpr ⟨hunderscore, ih⟩
        · rename_i hfolded
          refine List.forall_mem_cons.mpr ⟨?_, ih⟩
          rcases hc with hc | rfl | rfl | rfl
          · exact hc
          · exact absurd rfl hmark
          · exact absurd rfl hfolded
          · exact absurd hkept (by decide)
    · exact ih
  | separator _ ih =>
    have hkeep : ∀ cs : List Char, (',' :: ' ' :: cs).filter (· != '>') = ',' :: ' ' :: cs.filter (· != '>') :=
      fun _ => rfl
    rw [hkeep, foldSeparators]
    exact List.forall_mem_cons.mpr ⟨by decide, ih⟩

end SpellingText

theorem isNameChar_of_mem_name {name : String} (h : isName name = true) : ∀ c ∈ name.toList, isNameChar c = true := by
  rw [isName, Bool.and_eq_true, List.all_eq_true] at h
  exact h.2

theorem isNameChar_of_mem_word {word : String} (h : isWord word = true) :
    ∀ c ∈ word.toList, isNameChar c = true := by
  rw [isWord, Bool.and_eq_true, List.all_eq_true] at h
  exact fun c hc => Spelling.isNameChar_of_isWordChar (h.2 c hc)

mutual

theorem spellingText_spell : ∀ arg : TypeArg, arg.Spellable → SpellingText arg.spell.toList
  | .param p, h => by
    have hmark : SpellingText (if p.ofMethod then "!!" else "!").toList := by
      split
      · exact .char (.inr (.inl rfl)) (.char (.inr (.inl rfl)) .nil)
      · exact .char (.inr (.inl rfl)) .nil
    rw [TypeArg.spell, Parameter.spell, String.toList_append]
    exact hmark.append (.of_names (isNameChar_of_mem_word h))
  | .named name [], h => by
    rw [TypeArg.spell]
    exact .of_names (isNameChar_of_mem_name h.1)
  | .named name (arg :: rest), h => by
    rw [Spelling.toList_spell_named]
    have hargs := SpellingText.intercalate (spellingText_spellAll (arg :: rest) h.2)
    have hclosed := hargs.append (.char (.inr (.inr (.inr rfl))) .nil)
    exact (SpellingText.of_names (isNameChar_of_mem_name h.1)).append (.char (.inr (.inr (.inl rfl))) hclosed)

theorem spellingText_spellAll : ∀ args : List TypeArg, TypeArg.SpellableAll args →
    ∀ text ∈ (TypeArg.spellAll args).map String.toList, SpellingText text
  | [], _ => by
    rw [TypeArg.spellAll]
    exact fun text htext => absurd htext List.not_mem_nil
  | arg :: rest, h => by
    rw [TypeArg.spellAll, List.map_cons]
    exact List.forall_mem_cons.mpr ⟨spellingText_spell arg h.1, spellingText_spellAll rest h.2⟩

end

/-- **A mangled spelling can be a part of a name.** -/
theorem isNameChar_of_mem_mangle {ref : TypeRef} (h : ref.toArg.Spellable) :
    ∀ c ∈ ref.mangle.toList, isNameChar c = true := by
  rw [TypeRef.mangle, mangleText, String.toList_ofList]
  exact (spellingText_spell ref.toArg h).isNameChar_of_mem_fold

end JobClosure
