import JobClosure.Proofs.Form.Layout
import JobClosure.Proofs.Text.LineEnds

/-!
# Forms that went through a file

Texts are written with their line ends as they are, and a file does not keep carriage returns. So what is
read from the file of a document is the form with unified line ends (`read_unified_document`), which is the
form itself only if there is no carriage return in it (`unified_eq_self_iff`). A line end is unified within a
text: the layout puts a quote, a bracket or a blank after every part, and no part ends with a carriage return.
That takes symbols without one, which cannot be quoted.
-/

namespace JobClosure.Form

open Text (unifyLineEnds)

mutual

/-- The form with unified line ends. -/
def unified : Form → Form
  | .symbol name => .symbol (Text.unified name)
  | .text content => .text (Text.unified content)
  | .whole value => .whole value
  | .real value => .real value
  | .list items => .list (unifiedAll items)
  | .brackets items => .brackets (unifiedAll items)
  | .quote form => .quote (unified form)

def unifiedAll : List Form → List Form
  | [] => []
  | form :: rest => unified form :: unifiedAll rest

end

theorem unifiedAll_eq_map (forms : List Form) : unifiedAll forms = forms.map unified := by
  induction forms with
  | nil => rfl
  | cons form forms ih => rw [unifiedAll, ih, List.map_cons]

mutual

/-- **A form without carriage returns stays as it is**, and only such a form. -/
theorem unified_eq_self_iff : ∀ form : Form, form.unified = form ↔ ¬ form.Holds '\r'
  | .symbol name => by rw [unified, Form.symbol.injEq, Holds, Text.unified_eq_self]
  | .text content => by rw [unified, Form.text.injEq, Holds, Text.unified_eq_self]
  | .whole _ => by simp [unified, Holds]
  | .real _ => by simp [unified, Holds]
  | .list items => by rw [unified, Form.list.injEq, Holds, unifiedAll_eq_self_iff items]
  | .brackets items => by rw [unified, Form.brackets.injEq, Holds, unifiedAll_eq_self_iff items]
  | .quote form => by rw [unified, Form.quote.injEq, Holds, unified_eq_self_iff form]

theorem unifiedAll_eq_self_iff : ∀ forms : List Form, unifiedAll forms = forms ↔ ¬ HoldsAny '\r' forms
  | [] => by simp [unifiedAll, HoldsAny]
  | form :: rest => by
    rw [unifiedAll, HoldsAny, List.cons.injEq, unified_eq_self_iff form, unifiedAll_eq_self_iff rest, not_or]

end

mutual

/-- A form whose symbols have no carriage return. -/
def Unbroken : Form → Prop
  | .symbol name => '\r' ∉ name.toList
  | .text _ => True
  | .whole _ => True
  | .real _ => True
  | .list items => UnbrokenAll items
  | .brackets items => UnbrokenAll items
  | .quote form => Unbroken form

def UnbrokenAll : List Form → Prop
  | [] => True
  | form :: rest => Unbroken form ∧ UnbrokenAll rest

end

theorem unbrokenAll_iff {forms : List Form} : UnbrokenAll forms ↔ ∀ form ∈ forms, form.Unbroken := by
  induction forms with
  | nil => simp [UnbrokenAll]
  | cons form forms ih => rw [UnbrokenAll, ih, List.forall_mem_cons]

/-! ## Texts -/

theorem escapedText_cons (c : Char) (cs : List Char) :
    escapedText (c :: cs) = (if c == '\\' || c == '"' then ['\\', c] else [c]) ++ escapedText cs :=
  List.flatMap_cons

/-- No line end is made or taken apart by escapes. -/
theorem unifyLineEnds_escapedText (cs : List Char) :
    unifyLineEnds (escapedText cs) = escapedText (unifyLineEnds cs) := by
  fun_induction unifyLineEnds cs with
  | case1 rest ih =>
    show unifyLineEnds ('\r' :: '\n' :: escapedText rest) = '\n' :: escapedText (unifyLineEnds rest)
    rw [Text.unifyLineEnds_return_feed, ih]
  | case2 rest hnot ih =>
    -- an escape begins with a backslash, so it puts no line feed after the carriage return
    have hafter : ∀ after, escapedText rest ≠ '\n' :: after := by
      intro after heq
      cases rest with
      | nil => exact absurd heq.symm (List.cons_ne_nil '\n' after)
      | cons c rest =>
        rw [escapedText_cons] at heq
        split at heq
        · exact absurd (List.cons.inj heq).1 (by decide)
        · exact hnot rest (by rw [(List.cons.inj heq).1])
    show unifyLineEnds ('\r' :: escapedText rest) = '\n' :: escapedText (unifyLineEnds rest)
    rw [Text.unifyLineEnds_return hafter, ih]
  | case3 c rest _ hnot ih =>
    rw [escapedText_cons, escapedText_cons]
    split
    · show unifyLineEnds ('\\' :: c :: escapedText rest) = '\\' :: c :: escapedText (unifyLineEnds rest)
      rw [Text.unifyLineEnds_cons (by decide), Text.unifyLineEnds_cons hnot, ih]
    · show unifyLineEnds (c :: escapedText rest) = c :: escapedText (unifyLineEnds rest)
      rw [Text.unifyLineEnds_cons hnot, ih]
  | case4 => rfl

theorem quotedText_eq (content : String) : quotedText content = '"' :: (escapedText content.toList ++ ['"']) := rfl

theorem unifyLineEnds_quotedText (content : String) :
    unifyLineEnds (quotedText content) = quotedText (Text.unified content) := by
  rw [quotedText_eq, quotedText_eq, Text.unifyLineEnds_cons (by decide),
    Text.unifyLineEnds_append_cons (by decide) (by decide), unifyLineEnds_escapedText, Text.toList_unified]
  rfl

/-! ## Lists -/

theorem unifyLineEnds_spaced (parts : List (List Char)) :
    unifyLineEnds (spaced parts) = spaced (parts.map unifyLineEnds) := by
  induction parts with
  | nil => rfl
  | cons part parts ih =>
    cases parts with
    | nil => simp [spaced]
    | cons next parts =>
      have hmore : ∀ first : List Char, ∀ second : List Char, ∀ later : List (List Char),
          spaced (first :: second :: later) = first ++ ' ' :: spaced (second :: later) := by
        intro first second later
        simp only [spaced, List.intercalate_cons_cons, List.append_assoc, List.singleton_append]
      rw [List.map_cons, List.map_cons, hmore, hmore, Text.unifyLineEnds_append_cons (by decide) (by decide), ih,
        List.map_cons]

theorem getLast?_spaced {parts : List (List Char)} (h : ∀ part ∈ parts, part.getLast? ≠ some '\r') :
    (spaced parts).getLast? ≠ some '\r' := by
  induction parts with
  | nil => exact Option.some_ne_none '\r' ∘ Eq.symm
  | cons part parts ih =>
    obtain ⟨hpart, hparts⟩ := List.forall_mem_cons.mp h
    cases parts with
    | nil => simpa [spaced] using hpart
    | cons next parts =>
      rw [spaced, List.intercalate_cons_cons]
      refine Text.getLast?_append_ne (Text.getLast?_append_ne hpart (by decide)) (ih hparts)

theorem not_mem_indentation {style : PageStyle} (h : '\r' ∉ style.step) (depth : Int) :
    '\r' ∉ style.indentation depth := by
  intro hmem
  obtain ⟨step, hstep, hmem⟩ := List.mem_flatten.mp hmem
  rw [List.eq_of_mem_replicate hstep] at hmem
  exact h hmem

/-- Lines are unified one by one. -/
theorem unifyLineEnds_lines {indentation : List Char} (hindentation : '\r' ∉ indentation)
    {parts : List (List Char)} (h : ∀ part ∈ parts, part.getLast? ≠ some '\r') :
    unifyLineEnds (parts.flatMap fun part => '\n' :: indentation ++ part)
      = (parts.map unifyLineEnds).flatMap fun part => '\n' :: indentation ++ part := by
  have hstart : '\r' ∉ '\n' :: indentation := by simpa using hindentation
  induction parts with
  | nil => rfl
  | cons part parts ih =>
    obtain ⟨hpart, hparts⟩ := List.forall_mem_cons.mp h
    have hline := Text.getLast?_append_ne (Text.getLast?_ne_of_not_mem hstart) hpart
    rw [List.flatMap_cons, Text.unifyLineEnds_append hline, ih hparts,
      Text.unifyLineEnds_append (Text.getLast?_ne_of_not_mem hstart), Text.unifyLineEnds_eq_self.mpr hstart,
      List.map_cons, List.flatMap_cons]

theorem unifyLineEnds_spread {style : PageStyle} (hstep : '\r' ∉ style.step) (depth : Int) (count : Nat)
    {parts : List (List Char)} (h : ∀ part ∈ parts, part.getLast? ≠ some '\r') :
    unifyLineEnds (spread style depth count parts) = spread style depth count (parts.map unifyLineEnds) := by
  have hhead : ∀ part ∈ parts.take count, part.getLast? ≠ some '\r' :=
    fun part hpart => h part (List.mem_of_mem_take hpart)
  have htail : ∀ part ∈ parts.drop count, part.getLast? ≠ some '\r' :=
    fun part hpart => h part (List.mem_of_mem_drop hpart)
  rw [spread, spread, List.cons_append, List.cons_append, Text.unifyLineEnds_cons (by decide),
    Text.unifyLineEnds_append_cons (by decide) (by decide), Text.unifyLineEnds_append (getLast?_spaced hhead),
    unifyLineEnds_spaced, unifyLineEnds_lines (not_mem_indentation hstep _) htail, List.map_take, List.map_drop]
  rfl

/-! ## Layouts -/

theorem getLast?_enclosed (style : PageStyle) (depth : Int) (parts : List (List Char)) :
    (enclosed style depth parts).getLast? ≠ some '\r' := by
  obtain ⟨count, heq⟩ := exists_enclosed_eq_spread style depth parts
  rw [heq, spread, List.getLast?_concat]
  decide

theorem not_mem_of_isPlain {cs : List Char} (h : ∀ c ∈ cs, isPlain c = true) : '\r' ∉ cs :=
  fun hmem => absurd (h _ hmem) (by decide)

theorem getLast?_layout (style : PageStyle) (depth : Int) {form : Form} (h : form.Unbroken) :
    (layout style depth form).getLast? ≠ some '\r' := by
  cases form with
  | symbol name => exact Text.getLast?_ne_of_not_mem h
  | text content =>
    rw [layout, quotedText, List.getLast?_concat]
    decide
  | whole value =>
    rw [layout]
    exact Text.getLast?_ne_of_not_mem (not_mem_of_isPlain fun _ => Numeral.isPlain_of_mem_toString)
  | real value =>
    rw [layout]
    exact Text.getLast?_ne_of_not_mem (not_mem_of_isPlain Numeral.isPlain_of_mem_text)
  | list items =>
    rw [layout]
    exact getLast?_enclosed _ _ _
  | brackets items =>
    rw [layout]
    exact getLast?_enclosed _ _ _
  | quote form =>
    rw [layout]
    exact getLast?_enclosed _ _ _

/-- Parts of a list that are read as forms once their line ends are unified. -/
theorem reads_unified_enclosed {style : PageStyle} (hstyle : style.Blank) (hstep : '\r' ∉ style.step) (depth : Int)
    {parts : List (List Char)} {forms : List Form} (hlast : ∀ part ∈ parts, part.getLast? ≠ some '\r')
    (h : List.Forall₂ Reads (parts.map unifyLineEnds) forms) :
    Reads (unifyLineEnds (enclosed style depth parts)) (.list forms) := by
  obtain ⟨count, heq⟩ := exists_enclosed_eq_spread style depth parts
  rw [heq, unifyLineEnds_spread hstep depth count hlast]
  exact reads_spread hstyle depth count h

theorem getLast?_layoutAll (style : PageStyle) (depth : Int) {forms : List Form} (h : UnbrokenAll forms) :
    ∀ part ∈ layoutAll style depth forms, part.getLast? ≠ some '\r' := by
  induction forms with
  | nil => exact fun part hpart => by simp [layoutAll] at hpart
  | cons form forms ih =>
    rw [layoutAll, List.forall_mem_cons]
    exact ⟨getLast?_layout style depth h.1, ih h.2⟩

mutual

/-- **A form that is laid out and unified is read as the unified form.** -/
theorem reads_unified_layout {style : PageStyle} (hstyle : style.Blank) (hstep : '\r' ∉ style.step) :
    ∀ (form : Form) (depth : Int), form.Legible → form.Unbroken →
      Reads (unifyLineEnds (layout style depth form)) form.asWritten.unified
  | .symbol name, depth, h, hunbroken => by
    rw [layout, asWritten, unified, Text.unifyLineEnds_eq_self.mpr hunbroken, Text.unified_eq_self.mpr hunbroken]
    exact Reads.atom (tokens_of_read h)
  | .text content, depth, _, _ => by
    rw [layout, asWritten, unified, unifyLineEnds_quotedText]
    exact Reads.quotedText (Text.unified content)
  | .whole value, depth, h, _ => by
    have hplain : '\r' ∉ (toString value).toList := not_mem_of_isPlain fun _ => Numeral.isPlain_of_mem_toString
    rw [layout, asWritten, unified, Text.unifyLineEnds_eq_self.mpr hplain]
    exact Reads.atom (isAtom_whole h)
  | .real value, depth, h, _ => by
    have hplain : '\r' ∉ value.text.toList := not_mem_of_isPlain Numeral.isPlain_of_mem_text
    rw [layout, asWritten, unified, Text.unifyLineEnds_eq_self.mpr hplain]
    exact Reads.atom (isAtom_real h)
  | .list items, depth, h, hunbroken => by
    rw [layout, asWritten, unified]
    exact reads_unified_enclosed hstyle hstep depth (getLast?_layoutAll style _ hunbroken)
      (reads_unified_layoutAll hstyle hstep items (depth + 1) h hunbroken)
  | .brackets items, depth, h, hunbroken => by
    rw [layout, asWritten, unified, unifiedAll, unifiedAll, unified]
    have hinner := reads_unified_enclosed hstyle hstep (depth + 1) (getLast?_layoutAll style _ hunbroken)
      (reads_unified_layoutAll hstyle hstep items (depth + 2) h hunbroken)
    refine reads_unified_enclosed hstyle hstep depth ?_ (.cons hinner .nil)
    exact List.forall_mem_singleton.mpr (getLast?_enclosed _ _ _)
  | .quote form, depth, h, hunbroken => by
    rw [layout, asWritten, unified, unifiedAll, unifiedAll]
    refine reads_unified_enclosed hstyle hstep depth ?_
      (.cons (reads_unified_layout hstyle hstep form (depth + 1) h hunbroken) .nil)
    exact List.forall_mem_singleton.mpr (getLast?_layout _ _ hunbroken)

theorem reads_unified_layoutAll {style : PageStyle} (hstyle : style.Blank) (hstep : '\r' ∉ style.step) :
    ∀ (forms : List Form) (depth : Int), LegibleAll forms → UnbrokenAll forms →
      List.Forall₂ Reads ((layoutAll style depth forms).map unifyLineEnds) (unifiedAll (asWrittenAll forms))
  | [], depth, _, _ => by
    rw [layoutAll, asWrittenAll, unifiedAll]
    exact .nil
  | form :: rest, depth, h, hunbroken => by
    rw [layoutAll, asWrittenAll, unifiedAll]
    exact .cons (reads_unified_layout hstyle hstep form depth h.1 hunbroken.1)
      (reads_unified_layoutAll hstyle hstep rest depth h.2 hunbroken.2)

end

/-- **A document that went through a file is read as the unified form.** -/
theorem read_unified_document {form : Form} (h : form.Legible) (hunbroken : form.Unbroken) :
    read (Text.unified form.document) = .ok form.asWritten.unified := by
  have hlast := getLast?_layout documentStyle 0 hunbroken
  have hreads := reads_unified_layout blank_documentStyle (by decide) form 0 h hunbroken
  have hall : readAll (Text.unified form.document) = .ok [form.asWritten.unified] := by
    rw [readAll, Text.toList_unified, document, String.toList_ofList, Text.unifyLineEnds_append hlast]
    show readTokens {} [] (tokensFrom .between 0 (unifyLineEnds (layout documentStyle 0 form) ++ ['\n'])) = _
    rw [hreads _ _ _ _ (Delimited.of_ends rfl), tokensFrom_blank rfl]
    rfl
  rw [read, hall]
  rfl

end JobClosure.Form
