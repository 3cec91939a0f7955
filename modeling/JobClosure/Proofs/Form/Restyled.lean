import JobClosure.Proofs.Form.Layout

/-!
# Any layout is read as the same form

Documents are laid out in one style only, but the layout of a form does not depend on it for its meaning: whatever one
step of indentation is, as long as it is blank, however long a line may be and however far in the form stands, it is
read as the form that is written for it (`read_layout`). For a form without quoted forms and square brackets that is
the form itself (`read_layout_of_plain`).

The line breaks in a quoted text decide where a list is broken, and they stand in the middle of the lines that it is
broken into. They are read with the text that they belong to, never as blanks between forms.
-/

namespace JobClosure.Form

variable {form : Form}

/-- **In every style a form is read as it is written**, at any depth. -/
theorem read_layout {style : PageStyle} (hstyle : style.Blank) (h : form.Legible) (depth : Int) :
    read (String.ofList (layout style depth form)) = .ok form.asWritten := by
  have hgap : ∀ c ∈ ([] : List Char), Text.isBlank c = true := by simp
  have hread := read_of_reads (reads_layout hstyle form depth h) hgap
  rwa [List.append_nil] at hread

/--
**Layout never changes a form.**

Let a form be made of lists, texts, numbers and symbols, where symbols and numbers are read back from what is written
for them. Laid out with any blank indentation, for lines of any length and at any depth, it is read as it was.
-/
theorem read_layout_of_plain (hplain : form.Plain) (hlegible : form.Legible) {step : List Char}
    (hstep : ∀ c ∈ step, Text.isBlank c = true) (limit depth : Int) :
    read (String.ofList (layout ⟨step, limit⟩ depth form)) = .ok form := by
  have hstyle : PageStyle.Blank ⟨step, limit⟩ := hstep
  have hread := read_layout hstyle hlegible depth
  rwa [(asWritten_eq_self_iff form).mpr hplain] at hread

/-- The first operand holds a line break, so only the head stays on the opening line. -/
example : layout ⟨[' '], 80⟩ 0 (.list [.symbol "a", .text "b\nc", .list []]) = "(a\n \"b\nc\"\n ())".toList := by
  decide

namespace Ragged

/-- A list with empty lists in it, and with texts that hold line breaks, quotes and backslashes, one of them as the
operand that would stay on the opening line. -/
def body : Form :=
  .list [.symbol "body", .text "two\n  (lines) \\\"\\", .list [],
    .list [.symbol "ldc", .whole (-120), .list [.list [], .text ";\n"]], .list [.text "\n", .symbol "t"]]

theorem plain_body : body.Plain := by
  simp [body, Plain, PlainAll]

theorem legible_body : body.Legible :=
  ⟨rfl, trivial, trivial, ⟨rfl, show 3 ≤ 4300 by decide, ⟨trivial, trivial, trivial⟩, trivial⟩,
    ⟨trivial, rfl, trivial⟩, trivial⟩

/-- With tabs, no room on any line, and three steps in, it is broken wherever it can be and read as it was. -/
theorem body_read_back : body.Plain ∧ body.Legible ∧ (∀ c ∈ ['\t', ' '], Text.isBlank c = true) ∧
    read (String.ofList (layout ⟨['\t', ' '], 0⟩ 3 body)) = .ok body := by
  have hstep : ∀ c ∈ ['\t', ' '], Text.isBlank c = true := List.all_eq_true.mp (by decide)
  exact ⟨plain_body, legible_body, hstep, read_layout_of_plain plain_body legible_body hstep 0 3⟩

end Ragged

end JobClosure.Form
