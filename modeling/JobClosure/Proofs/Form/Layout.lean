import JobClosure.Form.Layout
import JobClosure.Proofs.Form.Characters
import Mathlib.Data.List.Forall2

/-!
# Reading what was laid out

However a form is broken into lines, it is read as the same form (`reads_layout`). The layout only decides
which blanks stand between the parts of a list, and the reader takes any blanks for the same thing. So
the proof never looks at widths: a text **reads as** a form when the reader, wherever it meets the text,
adds that form to the list it is in, and texts that read as forms can be put side by side with blanks
between them and enclosed in brackets.

What is read is not always what was laid out. A quoted form is written as a list of one item and a list
in square brackets as a list that holds one list; `asWritten` says so, and forms without either are
written as themselves (`asWritten_eq_self_iff`). Symbols are written without escapes, so only those are
read back whose name is an atom as it stands, and numbers must be read as they are written; such forms
are `Legible`.
-/

namespace JobClosure.Form

open Numeral (digitCount digitLimit)

/-! ## Forms that survive -/

mutual

/-- A form whose symbols and numbers are read back from what is written for them. -/
def Legible : Form → Prop
  | .symbol name => read name = .ok (.symbol name)
  | .text _ => True
  | .whole value => digitCount value ≤ digitLimit
  | .real value => ofAtom value.text.toList = .real value
  | .list items => LegibleAll items
  | .brackets items => LegibleAll items
  | .quote form => Legible form

def LegibleAll : List Form → Prop
  | [] => True
  | form :: rest => Legible form ∧ LegibleAll rest

end

mutual

/-- A form without quoted forms and without lists in square brackets. -/
def Plain : Form → Prop
  | .symbol _ => True
  | .text _ => True
  | .whole _ => True
  | .real _ => True
  | .list items => PlainAll items
  | .brackets _ => False
  | .quote _ => False

def PlainAll : List Form → Prop
  | [] => True
  | form :: rest => Plain form ∧ PlainAll rest

end

mutual

/-- The form that is written for a form. -/
def asWritten : Form → Form
  | .symbol name => .symbol name
  | .text content => .text content
  | .whole value => .whole value
  | .real value => .real value
  | .list items => .list (asWrittenAll items)
  | .brackets items => .list [.list (asWrittenAll items)]
  | .quote form => .list [asWritten form]

def asWrittenAll : List Form → List Form
  | [] => []
  | form :: rest => asWritten form :: asWrittenAll rest

end

mutual

/-- The forms that are written as themselves are the plain ones. -/
theorem asWritten_eq_self_iff : ∀ form : Form, form.asWritten = form ↔ form.Plain
  | .symbol _ => by simp [asWritten, Plain]
  | .text _ => by simp [asWritten, Plain]
  | .whole _ => by simp [asWritten, Plain]
  | .real _ => by simp [asWritten, Plain]
  | .list items => by rw [asWritten, Plain, Form.list.injEq, asWrittenAll_eq_self_iff items]
  | .brackets _ => by simp [asWritten, Plain]
  | .quote _ => by simp [asWritten, Plain]

theorem asWrittenAll_eq_self_iff : ∀ forms : List Form, asWrittenAll forms = forms ↔ PlainAll forms
  | [] => by simp [asWrittenAll, PlainAll]
  | form :: rest => by
    rw [asWrittenAll, PlainAll, List.cons.injEq, asWritten_eq_self_iff form, asWrittenAll_eq_self_iff rest]

end

theorem asWrittenAll_eq_map (forms : List Form) : asWrittenAll forms = forms.map asWritten := by
  induction forms with
  | nil => rfl
  | cons form forms ih => rw [asWrittenAll, ih, List.map_cons]

theorem plainAll_iff {forms : List Form} : PlainAll forms ↔ ∀ form ∈ forms, form.Plain := by
  induction forms with
  | nil => simp [PlainAll]
  | cons form forms ih => rw [PlainAll, ih, List.forall_mem_cons]

theorem legibleAll_iff {forms : List Form} : LegibleAll forms ↔ ∀ form ∈ forms, form.Legible := by
  induction forms with
  | nil => simp [LegibleAll]
  | cons form forms ih => rw [LegibleAll, ih, List.forall_mem_cons]

/-! What is written for a form is plain, and it is as legible as the form and holds the same characters. -/

mutual

theorem plain_asWritten : ∀ form : Form, form.asWritten.Plain
  | .symbol _ => trivial
  | .text _ => trivial
  | .whole _ => trivial
  | .real _ => trivial
  | .list items => plainAll_asWrittenAll items
  | .brackets items => ⟨plainAll_asWrittenAll items, trivial⟩
  | .quote form => ⟨plain_asWritten form, trivial⟩

theorem plainAll_asWrittenAll : ∀ forms : List Form, PlainAll (asWrittenAll forms)
  | [] => trivial
  | form :: rest => ⟨plain_asWritten form, plainAll_asWrittenAll rest⟩

end

theorem asWrittenAll_asWrittenAll (forms : List Form) : asWrittenAll (asWrittenAll forms) = asWrittenAll forms :=
  (asWrittenAll_eq_self_iff _).mpr (plainAll_asWrittenAll forms)

mutual

theorem legible_asWritten_iff : ∀ form : Form, form.asWritten.Legible ↔ form.Legible
  | .symbol _ => Iff.rfl
  | .text _ => Iff.rfl
  | .whole _ => Iff.rfl
  | .real _ => Iff.rfl
  | .list items => by rw [asWritten, Legible, Legible, legibleAll_asWrittenAll_iff items]
  | .brackets items => by
    rw [asWritten, Legible, LegibleAll, Legible, LegibleAll, Legible, legibleAll_asWrittenAll_iff items, and_true]
  | .quote form => by rw [asWritten, Legible, LegibleAll, LegibleAll, Legible, legible_asWritten_iff form, and_true]

theorem legibleAll_asWrittenAll_iff : ∀ forms : List Form, LegibleAll (asWrittenAll forms) ↔ LegibleAll forms
  | [] => Iff.rfl
  | form :: rest => by
    rw [asWrittenAll, LegibleAll, LegibleAll, legible_asWritten_iff form, legibleAll_asWrittenAll_iff rest]

end

mutual

theorem holds_asWritten_iff {c : Char} : ∀ form : Form, form.asWritten.Holds c ↔ form.Holds c
  | .symbol _ => Iff.rfl
  | .text _ => Iff.rfl
  | .whole _ => Iff.rfl
  | .real _ => Iff.rfl
  | .list items => by rw [asWritten, Holds, Holds, holdsAny_asWrittenAll_iff items]
  | .brackets items => by
    rw [asWritten, Holds, HoldsAny, HoldsAny, Holds, Holds, holdsAny_asWrittenAll_iff items, or_false]
  | .quote form => by rw [asWritten, Holds, HoldsAny, HoldsAny, Holds, holds_asWritten_iff form, or_false]

theorem holdsAny_asWrittenAll_iff {c : Char} : ∀ forms : List Form,
    HoldsAny c (asWrittenAll forms) ↔ HoldsAny c forms
  | [] => Iff.rfl
  | form :: rest => by
    rw [asWrittenAll, HoldsAny, HoldsAny, holds_asWritten_iff form, holdsAny_asWrittenAll_iff rest]

end

/-! ## Texts that read as forms -/

/-- A text that is read as one form wherever it stands. -/
def Reads (text : List Char) (form : Form) : Prop :=
  ∀ level outer position rest, Delimited rest →
    readTokens level outer (tokensFrom .between position (text ++ rest)) =
      readTokens (level.push form) outer (tokensFrom .between (position + text.length) rest)

/-- A text that is read as several forms wherever it stands. -/
def ReadsAll (text : List Char) (forms : List Form) : Prop :=
  ∀ level outer position rest, Delimited rest →
    readTokens level outer (tokensFrom .between position (text ++ rest)) =
      readTokens (forms.foldl OpenList.push level) outer (tokensFrom .between (position + text.length) rest)

theorem ReadsAll.nil : ReadsAll [] [] := fun _ _ _ _ _ => rfl

theorem ReadsAll.cons {text rest : List Char} {form : Form} {forms : List Form} (h : Reads text form)
    (hrest : ReadsAll rest forms) (hdelimited : Delimited rest) : ReadsAll (text ++ rest) (form :: forms) := by
  intro level outer position after hafter
  rw [List.append_assoc, h _ _ _ _ (hdelimited.append hafter), hrest _ _ _ _ hafter, List.foldl_cons,
    List.length_append, Nat.add_assoc]

theorem Reads.all {text : List Char} {form : Form} (h : Reads text form) : ReadsAll text [form] := by
  intro level outer position rest hrest
  exact h level outer position rest hrest

theorem tokensFrom_blank {c : Char} (h : Text.isBlank c = true) (position : Nat) (rest : List Char) :
    tokensFrom .between position (c :: rest) = tokensFrom .between (position + 1) rest := by
  rw [tokensFrom_cons]
  show (stepBetween position c rest).1 ++ tokensFrom (stepBetween position c rest).2 (position + 1) rest = _
  rw [stepBetween, if_pos h, List.nil_append]

/-- Blanks in front make no difference. -/
theorem ReadsAll.blanks {gap text : List Char} {forms : List Form} (hgap : ∀ c ∈ gap, Text.isBlank c = true)
    (h : ReadsAll text forms) : ReadsAll (gap ++ text) forms := by
  induction gap with
  | nil => exact h
  | cons c gap ih =>
    intro level outer position rest hrest
    rw [List.cons_append, List.cons_append, tokensFrom_blank (hgap c List.mem_cons_self),
      ih (fun c hc => hgap c (List.mem_cons_of_mem _ hc)) _ _ _ _ hrest, List.length_cons]
    congr 2
    omega

/-- Inside a list of its own, the forms of a text are the items. -/
theorem foldl_push_items (forms items : List Form) :
    forms.foldl OpenList.push ⟨items, []⟩ = ⟨forms.reverse ++ items, []⟩ := by
  induction forms generalizing items with
  | nil => rfl
  | cons form forms ih =>
    rw [List.foldl_cons]
    show forms.foldl OpenList.push ⟨form :: items, []⟩ = _
    rw [ih]
    simp

/-- Forms in round brackets are a list. -/
theorem ReadsAll.enclosed {text : List Char} {forms : List Form} (h : ReadsAll text forms) :
    Reads ('(' :: text ++ [')']) (.list forms) := by
  intro level outer position rest hrest
  have hclosed : Delimited (')' :: rest) := Delimited.of_ends rfl
  have hitems : forms.foldl OpenList.push {} = ⟨forms.reverse, []⟩ := by
    rw [foldl_push_items, List.append_nil]
  calc readTokens level outer (tokensFrom .between position ('(' :: text ++ [')'] ++ rest))
      = readTokens {} ((level, .round) :: outer) (tokensFrom .between (position + 1) (text ++ ')' :: rest)) := by
        rw [List.cons_append, List.cons_append, List.append_assoc]
        rfl
    _ = readTokens ⟨forms.reverse, []⟩ ((level, .round) :: outer)
          (tokensFrom .between (position + 1 + text.length) (')' :: rest)) := by
        rw [h _ _ _ _ hclosed, hitems]
    _ = readTokens (level.push (.list forms.reverse.reverse)) outer
          (tokensFrom .between (position + 1 + text.length + 1) rest) := rfl
    _ = readTokens (level.push (.list forms)) outer
          (tokensFrom .between (position + ('(' :: text ++ [')']).length) rest) := by
        rw [List.reverse_reverse, List.length_append, List.length_cons, List.length_singleton]
        congr 2
        omega

/-! ## Atoms and texts -/

/-- A text that is read as one atom, which stands for a form. -/
def IsAtom (text : List Char) (form : Form) : Prop := tokens text = [.atom text] ∧ ofAtom text = form

theorem Reads.atom {text : List Char} {form : Form} (h : IsAtom text form) : Reads text form := by
  intro level outer position rest hrest
  have htokens : tokensFrom .between position (text ++ rest)
      = .atom text :: tokensFrom .between (position + text.length) rest :=
    tokensFrom_written h.1 hrest position
  rw [htokens, ← h.2]
  rfl

theorem toString_ne_nil (value : Int) : (toString value).toList ≠ [] := by
  cases value with
  | ofNat n =>
    rw [Numeral.toList_toString_ofNat]
    exact Nat.toDigits_ne_nil
  | negSucc n =>
    rw [Numeral.toList_toString_negSucc]
    exact List.cons_ne_nil _ _

theorem isAtom_whole {value : Int} (h : digitCount value ≤ digitLimit) :
    IsAtom (toString value).toList (.whole value) := by
  refine ⟨tokensFrom_plain (toString_ne_nil value) (fun c => Numeral.isPlain_of_mem_toString) 0, ?_⟩
  rw [ofAtom, Numeral.readWhole_toString h]

theorem isAtom_real {value : Numeral.Binary64} (h : ofAtom value.text.toList = .real value) :
    IsAtom value.text.toList (.real value) := by
  refine ⟨tokensFrom_plain ?_ Numeral.isPlain_of_mem_text 0, h⟩
  intro hnil
  rw [hnil] at h
  exact nomatch h

/-- The characters of a text with their escapes. -/
def escapedText (cs : List Char) : List Char :=
  cs.flatMap fun c => if c == '\\' || c == '"' then ['\\', c] else [c]

theorem tokensFrom_escapedText (cs read rest : List Char) (position : Nat) :
    tokensFrom (.inText read) position (escapedText cs ++ '"' :: rest)
      = .text (read.reverse ++ cs) :: tokensFrom .between (position + (escapedText cs).length + 1) rest := by
  induction cs generalizing read position with
  | nil =>
    rw [List.append_nil]
    rfl
  | cons c cs ih =>
    have hread : read.reverse ++ c :: cs = (c :: read).reverse ++ cs := by simp
    rw [hread]
    -- a character that is escaped takes two steps, any other takes one
    by_cases hc : (c == '\\' || c == '"') = true
    · have hcons : escapedText (c :: cs) = '\\' :: c :: escapedText cs := by
        simp only [escapedText, List.flatMap_cons, if_pos hc, List.cons_append, List.nil_append]
      have hescape : textEscape c = [c] := by
        rw [textEscape, if_pos (by rwa [Bool.or_comm])]
      rw [hcons, List.cons_append, List.cons_append, tokensFrom_cons, tokensFrom_cons]
      show tokensFrom (.inText (textEscape c ++ read)) (position + 1 + 1) _ = _
      rw [hescape, List.singleton_append, ih, List.length_cons, List.length_cons]
      congr 2
      omega
    · have hcons : escapedText (c :: cs) = c :: escapedText cs := by
        simp only [escapedText, List.flatMap_cons, if_neg hc, List.singleton_append]
      have hstep : ∀ rest, step (.inText read) position c rest = ([], .inText (c :: read)) := by
        intro rest
        simp only [Bool.or_eq_true, not_or] at hc
        rw [step.eq_def]
        simp [hc]
      rw [hcons, List.cons_append, tokensFrom_cons, hstep, List.nil_append, ih, List.length_cons]
      congr 2
      omega

theorem Reads.quotedText (content : String) : Reads (quotedText content) (.text content) := by
  intro level outer position rest _
  have htext : Form.quotedText content ++ rest = '"' :: (escapedText content.toList ++ '"' :: rest) := by
    simp [Form.quotedText, escapedText]
  have hlength : (Form.quotedText content).length = (escapedText content.toList).length + 2 := by
    simp [Form.quotedText, escapedText]
  have htokens : tokensFrom .between position (Form.quotedText content ++ rest)
      = .text content.toList :: tokensFrom .between (position + (Form.quotedText content).length) rest := by
    rw [htext, hlength, tokensFrom_cons]
    show tokensFrom (.inText []) (position + 1) _ = _
    rw [tokensFrom_escapedText]
    congr 2
    omega
  rw [htokens]
  show readTokens (level.push (.text (String.ofList content.toList))) outer _ = _
  rw [String.ofList_toList]

/-! ## Lists -/

/-- Parts on one line, and what stands on the lines after it. -/
theorem readsAll_spaced {parts : List (List Char)} {forms : List Form} (h : List.Forall₂ Reads parts forms)
    {rest : List Char} {more : List Form} (hrest : ReadsAll rest more) (hdelimited : Delimited rest) :
    ReadsAll (spaced parts ++ rest) (forms ++ more) := by
  induction h with
  | nil => exact hrest
  | @cons part form parts forms hpart hparts ih =>
    cases hparts with
    | nil =>
      have hone : spaced [part] ++ rest = part ++ rest := by simp [spaced]
      rw [hone]
      exact ReadsAll.cons hpart hrest hdelimited
    | @cons next _ parts _ _ _ =>
      have hmore : spaced (part :: next :: parts) ++ rest = part ++ ([' '] ++ (spaced (next :: parts) ++ rest)) := by
        simp only [spaced, List.intercalate_cons_cons, List.append_assoc]
      rw [hmore]
      refine ReadsAll.cons hpart (ReadsAll.blanks ?_ ih) ?_
      · exact List.all_eq_true.mp (by decide)
      · exact Delimited.of_ends rfl

/-- Parts on lines of their own. -/
theorem readsAll_lines {indentation : List Char} (hblank : ∀ c ∈ indentation, Text.isBlank c = true)
    {parts : List (List Char)} {forms : List Form} (h : List.Forall₂ Reads parts forms) :
    ReadsAll (parts.flatMap fun part => '\n' :: indentation ++ part) forms ∧
      Delimited (parts.flatMap fun part => '\n' :: indentation ++ part) := by
  induction h with
  | nil => exact ⟨ReadsAll.nil, trivial⟩
  | @cons part form parts forms hpart _ ih =>
    obtain ⟨hall, hdelimited⟩ := ih
    refine ⟨?_, Delimited.of_ends rfl⟩
    rw [List.flatMap_cons, List.append_assoc]
    refine ReadsAll.blanks ?_ (ReadsAll.cons hpart hall hdelimited)
    intro c hc
    rcases List.mem_cons.mp hc with rfl | hc
    · rfl
    · exact hblank c hc

/-- A style that indents with blanks only. -/
def PageStyle.Blank (style : PageStyle) : Prop := ∀ c ∈ style.step, Text.isBlank c = true

theorem PageStyle.Blank.indentation {style : PageStyle} (h : style.Blank) (depth : Int) :
    ∀ c ∈ style.indentation depth, Text.isBlank c = true := by
  intro c hc
  obtain ⟨step, hstep, hc⟩ := List.mem_flatten.mp hc
  rw [List.eq_of_mem_replicate hstep] at hc
  exact h c hc

/-- The parts of a list in brackets: so many on the opening line, the others on lines of their own. -/
def spread (style : PageStyle) (depth : Int) (count : Nat) (parts : List (List Char)) : List Char :=
  '(' :: (spaced (parts.take count)
    ++ (parts.drop count).flatMap fun part => '\n' :: style.indentation (depth + 1) ++ part) ++ [')']

theorem exists_enclosed_eq_spread (style : PageStyle) (depth : Int) (parts : List (List Char)) :
    ∃ count, enclosed style depth parts = spread style depth count parts := by
  unfold enclosed
  dsimp only
  split
  · refine ⟨parts.length, ?_⟩
    rw [spread, List.take_length, List.drop_length, List.flatMap_nil, List.append_nil]
  · exact ⟨headCount parts, by simp only [spread, List.cons_append, List.append_assoc]⟩

/-- However the parts of a list are spread over lines, they are its items. -/
theorem reads_spread {style : PageStyle} (hstyle : style.Blank) (depth : Int) (count : Nat)
    {parts : List (List Char)} {forms : List Form} (h : List.Forall₂ Reads parts forms) :
    Reads (spread style depth count parts) (.list forms) := by
  obtain ⟨hlines, hdelimited⟩ := readsAll_lines (hstyle.indentation (depth + 1)) (List.forall₂_drop count h)
  have hall := readsAll_spaced (List.forall₂_take count h) hlines hdelimited
  rw [List.take_append_drop] at hall
  exact hall.enclosed

theorem reads_enclosed {style : PageStyle} (hstyle : style.Blank) (depth : Int) {parts : List (List Char)}
    {forms : List Form} (h : List.Forall₂ Reads parts forms) : Reads (enclosed style depth parts) (.list forms) := by
  obtain ⟨count, heq⟩ := exists_enclosed_eq_spread style depth parts
  rw [heq]
  exact reads_spread hstyle depth count h

/-! ## Forms -/

mutual

/-- **A form that is laid out is read as it was written**, at any depth and in any style. -/
theorem reads_layout {style : PageStyle} (hstyle : style.Blank) :
    ∀ (form : Form) (depth : Int), form.Legible → Reads (layout style depth form) form.asWritten
  | .symbol name, depth, h => by
    rw [layout, asWritten]
    exact Reads.atom (tokens_of_read h)
  | .text content, depth, _ => by
    rw [layout, asWritten]
    exact Reads.quotedText content
  | .whole value, depth, h => by
    rw [layout, asWritten]
    exact Reads.atom (isAtom_whole h)
  | .real value, depth, h => by
    rw [layout, asWritten]
    exact Reads.atom (isAtom_real h)
  | .list items, depth, h => by
    rw [layout, asWritten]
    exact reads_enclosed hstyle depth (reads_layoutAll hstyle items (depth + 1) h)
  | .brackets items, depth, h => by
    rw [layout, asWritten]
    have hinner := reads_enclosed hstyle (depth + 1) (reads_layoutAll hstyle items (depth + 2) h)
    exact reads_enclosed hstyle depth (.cons hinner .nil)
  | .quote form, depth, h => by
    rw [layout, asWritten]
    exact reads_enclosed hstyle depth (.cons (reads_layout hstyle form (depth + 1) h) .nil)

theorem reads_layoutAll {style : PageStyle} (hstyle : style.Blank) :
    ∀ (forms : List Form) (depth : Int), LegibleAll forms →
      List.Forall₂ Reads (layoutAll style depth forms) (asWrittenAll forms)
  | [], depth, _ => by
    rw [layoutAll, asWrittenAll]
    exact .nil
  | form :: rest, depth, h => by
    rw [layoutAll, asWrittenAll]
    exact .cons (reads_layout hstyle form depth h.1) (reads_layoutAll hstyle rest depth h.2)

end

theorem blank_documentStyle : documentStyle.Blank := by
  unfold PageStyle.Blank documentStyle
  exact List.all_eq_true.mp (by decide)

/-- A text that is read as a form wherever it stands is read as this form alone, also with blanks after it. -/
theorem read_of_reads {text gap : List Char} {form : Form} (h : Reads text form)
    (hgap : ∀ c ∈ gap, Text.isBlank c = true) : read (String.ofList (text ++ gap)) = .ok form := by
  have hdelimited : Delimited gap := by
    cases gap with
    | nil => trivial
    | cons c gap =>
      refine Delimited.of_ends ?_
      simp [endsAtom, hgap c List.mem_cons_self]
  have htokens : ∀ position, tokensFrom .between position gap = [] := by
    clear hdelimited
    induction gap with
    | nil => exact fun _ => rfl
    | cons c gap ih =>
      intro position
      rw [tokensFrom_blank (hgap c List.mem_cons_self)]
      exact ih (fun c hc => hgap c (List.mem_cons_of_mem _ hc)) _
  have hall : readAll (String.ofList (text ++ gap)) = .ok [form] := by
    rw [readAll, String.toList_ofList, tokens, h _ _ _ _ hdelimited, htokens]
    rfl
  rw [read, hall]
  rfl

/-- **A written document is read as the form that was written.** -/
theorem read_document {form : Form} (h : form.Legible) : read form.document = .ok form.asWritten :=
  read_of_reads (reads_layout blank_documentStyle form 0 h) (List.forall_mem_singleton.mpr rfl)

end JobClosure.Form
