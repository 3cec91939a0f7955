import JobClosure.Metadata.Clause
import JobClosure.Proofs.Form.Layout
import JobClosure.Proofs.Form.Reading

/-!
# Numbers in a document

A form that was read is made of atoms, and the numbers among them are such as can be read: whole numbers
with at most as many digits as a whole number may have, and canonical real numbers (`inRange_of_read`). Such
numbers are read back from what is written for them. So a form that was read is legible if its symbols are
(`legible_iff_of_inRange`).
-/

namespace JobClosure.Form

open Numeral (digitCount digitLimit Binary64)

mutual

/-- A form with numbers that can be read. -/
def InRange : Form → Prop
  | .symbol _ => True
  | .text _ => True
  | .whole value => digitCount value ≤ digitLimit
  | .real value => value.Canonical
  | .list items => InRangeAll items
  | .brackets items => InRangeAll items
  | .quote form => InRange form

def InRangeAll : List Form → Prop
  | [] => True
  | form :: rest => InRange form ∧ InRangeAll rest

end

theorem inRangeAll_iff {forms : List Form} : InRangeAll forms ↔ ∀ form ∈ forms, form.InRange := by
  induction forms with
  | nil => simp [InRangeAll]
  | cons form forms ih => rw [InRangeAll, ih, List.forall_mem_cons]

/-- The operands of a clause are in range if the clause is. -/
theorem inRange_operands {clause : Form} (h : clause.InRange) : ∀ form ∈ clause.operands, form.InRange := by
  unfold operands
  split
  · exact fun form hform => inRangeAll_iff.mp h form (List.mem_cons_of_mem _ hform)
  · exact fun form hform => absurd hform List.not_mem_nil

/-! ## Numbers that were read -/

theorem inRange_ofAtom (content : List Char) : (ofAtom content).InRange := by
  unfold ofAtom
  split
  · rename_i value hvalue
    exact Numeral.digitCount_le_of_readWhole hvalue
  · split
    · rename_i value hvalue
      exact Numeral.canonical_of_readReal? hvalue
    · trivial

theorem ascends_inRange : Ascends InRange where
  text _ := trivial
  list _ hitems := inRangeAll_iff.mpr hitems
  brackets _ hitems := inRangeAll_iff.mpr hitems
  quote _ h := h

/-- **The numbers of a form that was read are in range.** -/
theorem inRange_of_read {document : String} {form : Form} (h : read document = .ok form) : form.InRange :=
  ascends_inRange.read (fun content _ => inRange_ofAtom content) h

/-! ## Numbers that are written -/

/-- **The text of a real number is an atom for that number.** -/
theorem ofAtom_text {value : Binary64} (h : value.Canonical) : ofAtom value.text.toList = .real value := by
  obtain ⟨fault, hwhole⟩ := Numeral.readWhole_text value
  rw [ofAtom, hwhole]
  dsimp only
  rw [Numeral.readReal?_text h]

mutual

/-- The names of the symbols of a form. -/
def symbols : Form → List String
  | .symbol name => [name]
  | .text _ => []
  | .whole _ => []
  | .real _ => []
  | .list items => symbolsAll items
  | .brackets items => symbolsAll items
  | .quote form => symbols form

def symbolsAll : List Form → List String
  | [] => []
  | form :: rest => symbols form ++ symbolsAll rest

end

mutual

/-- **A form with numbers in range is legible** if its symbols are read as themselves, and only then. -/
theorem legible_iff_of_inRange : ∀ {form : Form}, form.InRange →
    (form.Legible ↔ ∀ name ∈ form.symbols, read name = .ok (.symbol name))
  | .symbol _, _ => by simp [Legible, symbols]
  | .text _, _ => by simp [Legible, symbols]
  | .whole _, h => by simpa [Legible, symbols, InRange] using h
  | .real _, h => by simpa [Legible, symbols] using ofAtom_text h
  | .list items, h => by
    rw [Legible, symbols]
    exact legibleAll_iff_of_inRangeAll h
  | .brackets items, h => by
    rw [Legible, symbols]
    exact legibleAll_iff_of_inRangeAll h
  | .quote form, h => by
    rw [Legible, symbols]
    exact legible_iff_of_inRange h

theorem legibleAll_iff_of_inRangeAll : ∀ {forms : List Form}, InRangeAll forms →
    (LegibleAll forms ↔ ∀ name ∈ symbolsAll forms, read name = .ok (.symbol name))
  | [], _ => by simp [LegibleAll, symbolsAll]
  | form :: rest, h => by
    rw [LegibleAll, symbolsAll, List.forall_mem_append, legible_iff_of_inRange h.1, legibleAll_iff_of_inRangeAll h.2]

end

/-! ## Documents without escaped symbols -/

theorem ascends_legible : Ascends Legible where
  text _ := trivial
  list _ hitems := legibleAll_iff.mpr hitems
  brackets _ hitems := legibleAll_iff.mpr hitems
  quote _ h := h

theorem legible_ofAtom {content : List Char} (h : Unescaped content) : (ofAtom content).Legible := by
  unfold ofAtom
  split
  · rename_i value hvalue
    exact Numeral.digitCount_le_of_readWhole hvalue
  · rename_i hwhole
    split
    · rename_i value hvalue
      exact ofAtom_text (Numeral.canonical_of_readReal? hvalue)
    · rename_i hreal
      refine read_of_tokens ?_ ?_
      · rw [String.toList_ofList, tokens_of_unescaped h]
      · rw [String.toList_ofList, ofAtom, hwhole]
        dsimp only
        rw [hreal]

/-- **What is read from a document without escaped symbols is legible.** Its texts may have escapes. -/
theorem legible_of_read {document : String} {form : Form} (h : read document = .ok form)
    (hescapes : escapesAtom document.toList = false) : form.Legible := by
  have hstart : Mode.between.Unescaped := trivial
  exact ascends_legible.read (fun _ hmem => legible_ofAtom (unescaped_of_mem_tokensFrom hstart hescapes hmem)) h

end JobClosure.Form
