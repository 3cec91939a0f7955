import JobClosure.Text.Encoding

/-!
# Text through a file

A text is written in UTF-8 and decoded to the same text (`decode_toUTF8`). Reading then makes every line
end a single line feed (`unified`), so a text comes back unchanged if it has no carriage return
(`unifyLineEnds_eq_self`) and only then. Pieces of a text can be taken one by one, except that a carriage
return at the end of a piece may belong to a line feed after it (`unifyLineEnds_append`).
-/

namespace JobClosure.Text

theorem decode_toUTF8 (text : String) : decode text.toUTF8 = .ok text := by
  have hdecoded : String.fromUTF8? text.toUTF8 = some text := by
    unfold String.fromUTF8?
    rw [String.toUTF8_eq_toByteArray, dif_pos text.isValidUTF8]
    rfl
  rw [decode, hdecoded]

theorem unifyLineEnds_cons {c : Char} (h : c ≠ '\r') (rest : List Char) :
    unifyLineEnds (c :: rest) = c :: unifyLineEnds rest :=
  unifyLineEnds.eq_3 c rest (fun _ heq _ => h heq) h

theorem unifyLineEnds_return_feed (rest : List Char) :
    unifyLineEnds ('\r' :: '\n' :: rest) = '\n' :: unifyLineEnds rest := unifyLineEnds.eq_1 rest

theorem unifyLineEnds_return {rest : List Char} (h : ∀ after, rest ≠ '\n' :: after) :
    unifyLineEnds ('\r' :: rest) = '\n' :: unifyLineEnds rest := unifyLineEnds.eq_2 rest h

theorem not_mem_unifyLineEnds (cs : List Char) : '\r' ∉ unifyLineEnds cs := by
  fun_induction unifyLineEnds cs with
  | case1 rest ih => simpa using ih
  | case2 rest hnot ih => simpa using ih
  | case3 c rest hnot hnot' ih =>
    intro hmem
    rcases List.mem_cons.mp hmem with heq | hmem
    · exact hnot' heq.symm
    · exact ih hmem
  | case4 => exact List.not_mem_nil

/-- **A text comes back from a file if it has no carriage return**, and only then. -/
theorem unifyLineEnds_eq_self {cs : List Char} : unifyLineEnds cs = cs ↔ '\r' ∉ cs := by
  constructor
  · intro heq
    rw [← heq]
    exact not_mem_unifyLineEnds cs
  · intro hnot
    fun_induction unifyLineEnds cs with
    | case1 rest ih => exact absurd List.mem_cons_self hnot
    | case2 rest _ ih => exact absurd List.mem_cons_self hnot
    | case3 c rest _ _ ih => rw [ih fun hmem => hnot (List.mem_cons_of_mem c hmem)]
    | case4 => rfl

/-! ## Piece by piece -/

/-- A character that is no part of a line end stands between what can be unified on both sides. -/
theorem unifyLineEnds_append_cons {c : Char} (hreturn : c ≠ '\r') (hfeed : c ≠ '\n') (cs ds : List Char) :
    unifyLineEnds (cs ++ c :: ds) = unifyLineEnds cs ++ c :: unifyLineEnds ds := by
  fun_induction unifyLineEnds cs with
  | case1 rest ih => rw [List.cons_append, List.cons_append, unifyLineEnds_return_feed, ih, List.cons_append]
  | case2 rest hnot ih =>
    have hafter : ∀ after, rest ++ c :: ds ≠ '\n' :: after := by
      intro after heq
      cases rest with
      | nil => exact hfeed (List.cons.inj heq).1
      | cons d rest => exact hnot rest (by rw [(List.cons.inj heq).1])
    rw [List.cons_append, unifyLineEnds_return hafter, ih, List.cons_append]
  | case3 d rest _ hnot ih => rw [List.cons_append, unifyLineEnds_cons hnot, ih, List.cons_append]
  | case4 => rw [List.nil_append, unifyLineEnds_cons hreturn, List.nil_append]

theorem getLast?_ne_of_not_mem {cs : List Char} (h : '\r' ∉ cs) : cs.getLast? ≠ some '\r' :=
  fun hlast => h (List.mem_of_getLast? hlast)

theorem getLast?_append_ne {cs ds : List Char} (h : cs.getLast? ≠ some '\r') (hds : ds.getLast? ≠ some '\r') :
    (cs ++ ds).getLast? ≠ some '\r' := by
  rw [List.getLast?_append]
  cases hlast : ds.getLast? with
  | none => simpa [hlast] using h
  | some last => simpa [hlast] using hds

theorem getLast?_ne_of_cons {c d : Char} {cs : List Char} (h : (c :: cs).getLast? ≠ some d) :
    cs.getLast? ≠ some d := by
  cases cs with
  | nil => exact Option.some_ne_none d ∘ Eq.symm
  | cons next cs => rwa [List.getLast?_cons_cons] at h

/-- What does not end with a carriage return can be unified on its own. -/
theorem unifyLineEnds_append {cs : List Char} (h : cs.getLast? ≠ some '\r') (ds : List Char) :
    unifyLineEnds (cs ++ ds) = unifyLineEnds cs ++ unifyLineEnds ds := by
  fun_induction unifyLineEnds cs with
  | case1 rest ih =>
    have hrest := getLast?_ne_of_cons (getLast?_ne_of_cons h)
    rw [List.cons_append, List.cons_append, unifyLineEnds_return_feed, ih hrest, List.cons_append]
  | case2 rest hnot ih =>
    cases rest with
    | nil => exact absurd rfl h
    | cons next rest =>
      have hafter : ∀ after, next :: rest ++ ds ≠ '\n' :: after :=
        fun after heq => hnot rest (by rw [(List.cons.inj heq).1])
      rw [List.cons_append, unifyLineEnds_return hafter, ih (getLast?_ne_of_cons h), List.cons_append]
  | case3 c rest _ hnot ih =>
    rw [List.cons_append, unifyLineEnds_cons hnot, ih (getLast?_ne_of_cons h), List.cons_append]
  | case4 => rfl

/-- The text with unified line ends. -/
def unified (text : String) : String := String.ofList (unifyLineEnds text.toList)

@[simp] theorem toList_unified (text : String) : (unified text).toList = unifyLineEnds text.toList :=
  String.toList_ofList

theorem unified_eq_self {text : String} : unified text = text ↔ '\r' ∉ text.toList := by
  rw [← unifyLineEnds_eq_self, ← String.toList_inj, toList_unified]

theorem unified_unified (text : String) : unified (unified text) = unified text := by
  rw [unified_eq_self, toList_unified]
  exact not_mem_unifyLineEnds text.toList

end JobClosure.Text
