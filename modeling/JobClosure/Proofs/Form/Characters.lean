import JobClosure.Form.Layout
import JobClosure.Proofs.Form.Atom
import JobClosure.Proofs.Numeral.RoundTrip

/-!
# The characters of a layout

A layout is written with the characters of the form, its texts and its symbols, with brackets, quotes and
backslashes, with the blanks that separate parts, and with the characters of numbers, which are plain. So
a character that belongs to none of these can only come from the form (`holds_of_mem_layout`).
-/

namespace JobClosure

namespace Numeral

open Form (isPlain)

theorem isPlain_of_isDigit {c : Char} (h : c.isDigit = true) : isPlain c = true := by
  have hblank := isBlank_of_isDigit h
  have hnone : ['"', ';', '(', ')', '[', ']', '\\', '\''].any Char.isDigit = false := by decide
  have hother : ∀ d ∈ ['"', ';', '(', ')', '[', ']', '\\', '\''], c ≠ d := by
    rintro d hd rfl
    exact List.any_eq_false.mp hnone _ hd h
  simp only [List.forall_mem_cons] at hother
  simp [isPlain, Form.endsAtom, hblank, hother, Form.Bracket.opened?, Form.Bracket.closed?]

/-- A whole number is written with plain characters. -/
theorem isPlain_of_mem_toString {value : Int} {c : Char} (h : c ∈ (toString value).toList) :
    isPlain c = true := by
  cases value with
  | ofNat n =>
    rw [toList_toString_ofNat] at h
    exact isPlain_of_isDigit (isDigit_of_mem_toDigits h)
  | negSucc n =>
    rw [toList_toString_negSucc] at h
    rcases List.mem_cons.mp h with rfl | h
    · decide
    · exact isPlain_of_isDigit (isDigit_of_mem_toDigits h)

/-! ## Real numbers -/

theorem isPlain_of_isNumeralChar {c : Char} (h : isNumeralChar c = true) : isPlain c = true := by
  simp only [isNumeralChar, Bool.or_eq_true, beq_iff_eq] at h
  rcases h with (((h | rfl) | rfl) | rfl) | rfl
  · exact isPlain_of_isDigit h
  all_goals decide

/-- A real number is written with plain characters. -/
theorem isPlain_of_mem_text {value : Binary64} : ∀ c ∈ value.text.toList, isPlain c = true := by
  cases value with
  | notANumber => exact List.all_eq_true.mp (by decide)
  | infinite negative => cases negative <;> exact List.all_eq_true.mp (by decide)
  | finite negative mantissa exponent =>
    obtain ⟨written, power, hwrites, -⟩ := exists_writes_magnitudeText mantissa exponent
    rw [toList_text_finite]
    exact fun c hc => isPlain_of_isNumeralChar (isNumeralChar_signed negative hwrites.isNumeralChar c hc)

end Numeral

namespace Form

mutual

/-- A character occurs in a text or in a symbol of a form. -/
def Holds (c : Char) : Form → Prop
  | .symbol name => c ∈ name.toList
  | .text content => c ∈ content.toList
  | .whole _ => False
  | .real _ => False
  | .list items => HoldsAny c items
  | .brackets items => HoldsAny c items
  | .quote form => Holds c form

def HoldsAny (c : Char) : List Form → Prop
  | [] => False
  | form :: rest => Holds c form ∨ HoldsAny c rest

end

theorem holdsAny_iff {c : Char} {forms : List Form} : HoldsAny c forms ↔ ∃ form ∈ forms, form.Holds c := by
  induction forms with
  | nil => simp [HoldsAny]
  | cons form forms ih => simp [HoldsAny, ih]

/-- The characters that a layout is written with besides those of the form and of numbers. -/
def PageStyle.marks (style : PageStyle) : List Char := ['(', ')', '"', '\\', ' ', '\n'] ++ style.step

variable {style : PageStyle} {c : Char}

theorem mem_of_mem_intercalate {sep : List Char} {parts : List (List Char)} (h : c ∈ sep.intercalate parts) :
    c ∈ sep ∨ ∃ part ∈ parts, c ∈ part := by
  induction parts with
  | nil => simp at h
  | cons part parts ih =>
    cases parts with
    | nil => exact .inr ⟨part, List.mem_singleton_self _, by simpa using h⟩
    | cons next parts =>
      rw [List.intercalate_cons_cons, List.mem_append, List.mem_append] at h
      rcases h with (h | h) | h
      · exact .inr ⟨part, List.mem_cons_self, h⟩
      · exact .inl h
      · rcases ih h with h | ⟨found, hfound, h⟩
        · exact .inl h
        · exact .inr ⟨found, List.mem_cons_of_mem _ hfound, h⟩

theorem mem_of_mem_enclosed {depth : Int} {parts : List (List Char)} (h : c ∈ enclosed style depth parts) :
    c ∈ style.marks ∨ ∃ part ∈ parts, c ∈ part := by
  have hspace : c ∈ [' '] → c ∈ style.marks := fun h => by
    rw [List.mem_singleton.mp h]
    simp [PageStyle.marks]
  have hspaced : ∀ {some : List (List Char)}, some ⊆ parts → c ∈ spaced some →
      c ∈ style.marks ∨ ∃ part ∈ parts, c ∈ part := by
    intro some hsub h
    rcases mem_of_mem_intercalate h with h | ⟨part, hpart, h⟩
    · exact .inl (hspace h)
    · exact .inr ⟨part, hsub hpart, h⟩
  have hbracket : c = '(' ∨ c = ')' ∨ c = '\n' → c ∈ style.marks := by
    rintro (rfl | rfl | rfl) <;> simp [PageStyle.marks]
  unfold enclosed at h
  dsimp only at h
  -- all parts are on one line, or the later ones have a line each, with a line end and blanks before them
  split at h
  · rw [List.cons_append, List.mem_cons, List.mem_append, List.mem_singleton] at h
    rcases h with h | h | h
    · exact .inl (hbracket (.inl h))
    · exact hspaced (List.Subset.refl _) h
    · exact .inl (hbracket (.inr (.inl h)))
  · rw [List.cons_append, List.cons_append, List.mem_cons, List.mem_append, List.mem_append,
      List.mem_singleton] at h
    rcases h with h | (h | h) | h
    · exact .inl (hbracket (.inl h))
    · exact hspaced (List.take_subset _ _) h
    · obtain ⟨part, hpart, h⟩ := List.mem_flatMap.mp h
      rw [List.cons_append, List.mem_cons, List.mem_append] at h
      rcases h with h | h | h
      · exact .inl (hbracket (.inr (.inr h)))
      · obtain ⟨step, hstep, h⟩ := List.mem_flatten.mp h
        rw [List.eq_of_mem_replicate hstep] at h
        exact .inl (List.mem_append_right _ h)
      · exact .inr ⟨part, List.drop_subset _ _ hpart, h⟩
    · exact .inl (hbracket (.inr (.inl h)))

theorem mem_of_mem_quotedText {content : String} (h : c ∈ quotedText content) :
    c ∈ style.marks ∨ c ∈ content.toList := by
  have hmark : c = '"' ∨ c = '\\' → c ∈ style.marks := by
    rintro (rfl | rfl) <;> simp [PageStyle.marks]
  unfold quotedText at h
  rw [List.cons_append, List.mem_cons, List.mem_append, List.mem_singleton, List.mem_flatMap] at h
  rcases h with h | ⟨d, hd, h⟩ | h
  · exact .inl (hmark (.inl h))
  · split at h
    · rw [List.mem_cons, List.mem_singleton] at h
      rcases h with h | rfl
      · exact .inl (hmark (.inr h))
      · exact .inr hd
    · rw [List.mem_singleton.mp h]
      exact .inr hd
  · exact .inl (hmark (.inl h))

mutual

/-- **A character that is no part of the notation comes from the form.** -/
theorem holds_of_mem_layout (hplain : isPlain c = false) (hmark : c ∉ style.marks) :
    ∀ (form : Form) (depth : Int), c ∈ layout style depth form → form.Holds c
  | .symbol name, depth, h => by
    rw [layout] at h
    exact h
  | .text content, depth, h => by
    rw [layout] at h
    exact (mem_of_mem_quotedText h).resolve_left hmark
  | .whole value, depth, h => by
    rw [layout] at h
    rw [Numeral.isPlain_of_mem_toString h] at hplain
    exact nomatch hplain
  | .real value, depth, h => by
    rw [layout] at h
    rw [Numeral.isPlain_of_mem_text c h] at hplain
    exact nomatch hplain
  | .list items, depth, h => by
    rw [layout] at h
    obtain ⟨part, hpart, h⟩ := (mem_of_mem_enclosed h).resolve_left hmark
    exact holdsAny_of_mem_layoutAll hplain hmark items _ part hpart h
  | .brackets items, depth, h => by
    rw [layout] at h
    obtain ⟨inner, hinner, h⟩ := (mem_of_mem_enclosed h).resolve_left hmark
    rw [List.mem_singleton.mp hinner] at h
    obtain ⟨part, hpart, h⟩ := (mem_of_mem_enclosed h).resolve_left hmark
    exact holdsAny_of_mem_layoutAll hplain hmark items _ part hpart h
  | .quote form, depth, h => by
    rw [layout] at h
    obtain ⟨part, hpart, h⟩ := (mem_of_mem_enclosed h).resolve_left hmark
    rw [List.mem_singleton.mp hpart] at h
    exact holds_of_mem_layout hplain hmark form _ h

theorem holdsAny_of_mem_layoutAll (hplain : isPlain c = false) (hmark : c ∉ style.marks) :
    ∀ (forms : List Form) (depth : Int), ∀ part ∈ layoutAll style depth forms, c ∈ part → HoldsAny c forms
  | [], depth, part, hpart, _ => by
    rw [layoutAll] at hpart
    exact absurd hpart List.not_mem_nil
  | form :: rest, depth, part, hpart, h => by
    rw [layoutAll] at hpart
    rcases List.mem_cons.mp hpart with rfl | hpart
    · exact .inl (holds_of_mem_layout hplain hmark form depth h)
    · exact .inr (holdsAny_of_mem_layoutAll hplain hmark rest depth part hpart h)

end

/-- A document holds a carriage return only if its form does. -/
theorem holds_of_return_mem_document {form : Form} (h : '\r' ∈ form.document.toList) : form.Holds '\r' := by
  rw [document, String.toList_ofList, List.mem_append] at h
  rcases h with h | h
  · exact holds_of_mem_layout (by decide) (by decide) form 0 h
  · exact absurd h (by decide)

end Form

end JobClosure
