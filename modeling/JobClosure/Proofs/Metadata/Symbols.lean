import JobClosure.Metadata.Symbols
import JobClosure.Proofs.Form.Layout
import JobClosure.Proofs.Form.Range
import Mathlib.Data.List.Nodup

/-!
# Symbol documents are read back

A table of symbols has every member once (`Distinct`), so it is a mapping and the order of its entries says
nothing. It is written in ascending order and read back in that order (`ofDocument_document`): the same
mapping (`lookup_sorted`). Lines and columns must be numbers that can be written. Those of a table that was
read are, whichever way they were given (`sound_of_ofDocument`).
-/

namespace JobClosure.Symbols

open Numeral (digitCount digitLimit)

/-- Every member has one entry. -/
def Distinct (symbols : Symbols) : Prop := (symbols.map (·.1)).Nodup

/-- Lines and columns are numbers that can be written and read. -/
def Countable (symbols : Symbols) : Prop :=
  ∀ entry ∈ symbols, digitCount entry.2.line ≤ digitLimit ∧ digitCount entry.2.column ≤ digitLimit

/-! ## Tables -/

theorem map_fst_setKey {α : Type} {entries : List (String × α)} {key : String} {value : α}
    (h : key ∈ entries.map (·.1)) : (setKey entries key value).map (·.1) = entries.map (·.1) := by
  have hany : (entries.any (·.1 == key)) = true := by
    obtain ⟨entry, hentry, hkey⟩ := List.mem_map.mp h
    exact List.any_eq_true.mpr ⟨entry, hentry, by simpa using hkey⟩
  rw [setKey, if_pos hany, List.map_map]
  refine List.map_congr_left fun entry _ => ?_
  show (if entry.1 == key then (key, value) else entry).1 = entry.1
  split
  · rename_i heq
    exact (eq_of_beq heq).symm
  · rfl

theorem setKey_of_not_mem {α : Type} {entries : List (String × α)} {key : String} {value : α}
    (h : key ∉ entries.map (·.1)) : setKey entries key value = entries ++ [(key, value)] := by
  rw [setKey, if_neg]
  intro hany
  obtain ⟨entry, hentry, hkey⟩ := List.any_eq_true.mp hany
  exact h (List.mem_map.mpr ⟨entry, hentry, eq_of_beq hkey⟩)

theorem nodup_setKey {α : Type} {entries : List (String × α)} {key : String} {value : α}
    (h : (entries.map (·.1)).Nodup) : ((setKey entries key value).map (·.1)).Nodup := by
  by_cases hkey : key ∈ entries.map (·.1)
  · rw [map_fst_setKey hkey]
    exact h
  · rw [setKey_of_not_mem hkey, List.map_append]
    refine List.nodup_append.mpr ⟨h, List.nodup_singleton _, ?_⟩
    intro a ha b hb
    obtain rfl := List.mem_singleton.mp hb
    rintro rfl
    exact hkey ha

/-- A table has every member once, however often it is given. -/
theorem distinct_ofEntries (entries : List (String × SourceLocation)) : (ofEntries entries).Distinct := by
  have hfold : ∀ table : Symbols, table.Distinct →
      Distinct (entries.foldl (fun table entry => setKey table entry.1 entry.2) table) := by
    induction entries with
    | nil => exact fun _ h => h
    | cons entry entries ih => exact fun table h => ih _ (nodup_setKey h)
  exact hfold [] List.nodup_nil

/-- A table of entries that are distinct already is the list of these entries. -/
theorem ofEntries_of_distinct {entries : Symbols} (h : entries.Distinct) : ofEntries entries = entries := by
  have hfold : ∀ table : Symbols, (table ++ entries).Distinct →
      entries.foldl (fun table entry => setKey table entry.1 entry.2) table = table ++ entries := by
    clear h
    induction entries with
    | nil => exact fun table _ => (List.append_nil table).symm
    | cons entry entries ih =>
      intro table h
      have hnew : entry.1 ∉ table.map (·.1) := by
        rw [Distinct, List.map_append, List.nodup_append] at h
        exact fun hmem => h.2.2 _ hmem _ List.mem_cons_self rfl
      rw [List.foldl_cons, setKey_of_not_mem hnew, ih _ (by simpa using h)]
      simp
  exact hfold [] h

/-! ## Ascending order -/

theorem sorted_perm (symbols : Symbols) : symbols.sorted.Perm symbols := List.mergeSort_perm _ _

theorem sorted_sorted (symbols : Symbols) : symbols.sorted.sorted = symbols.sorted := by
  refine List.mergeSort_of_pairwise (List.pairwise_mergeSort (fun a b c hab hbc => ?_) (fun a b => ?_) symbols)
  · exact decide_eq_true (String.le_trans (of_decide_eq_true hab) (of_decide_eq_true hbc))
  · simpa using String.le_total a.1 b.1

theorem Distinct.perm {symbols other : Symbols} (h : symbols.Distinct) (hperm : other.Perm symbols) :
    other.Distinct :=
  (hperm.map _).nodup_iff.mpr h

/-- A table with distinct members says of a member what its entry says. -/
theorem lookup_eq_some_iff {symbols : Symbols} (h : symbols.Distinct) {member : String}
    {location : SourceLocation} : symbols.lookup member = some location ↔ (member, location) ∈ symbols := by
  rw [List.lookup_eq_some_iff]
  constructor
  · rintro ⟨before, after, rfl, -⟩
    exact List.mem_append_right _ List.mem_cons_self
  · intro hmem
    obtain ⟨before, after, rfl⟩ := List.append_of_mem hmem
    refine ⟨before, after, rfl, fun entry hentry => ?_⟩
    rw [Distinct, List.map_append, List.map_cons, List.nodup_append] at h
    exact bne_iff_ne.mpr (Ne.symm (h.2.2 _ (List.mem_map_of_mem hentry) _ List.mem_cons_self))

/-- Of a table with distinct members the order does not matter. -/
theorem lookup_perm {symbols other : Symbols} (hperm : other.Perm symbols) (h : symbols.Distinct)
    (member : String) : other.lookup member = symbols.lookup member := by
  ext location
  rw [lookup_eq_some_iff (h.perm hperm), lookup_eq_some_iff h, hperm.mem_iff]

/-- The entries in ascending order are the same mapping. -/
theorem lookup_sorted {symbols : Symbols} (h : symbols.Distinct) (member : String) :
    symbols.sorted.lookup member = symbols.lookup member :=
  lookup_perm symbols.sorted_perm h member

/-! ## The document -/

theorem readEntry_entryForm (entry : String × SourceLocation) : readEntry (entryForm entry) = .ok entry := rfl

theorem legible_toForm {symbols : Symbols} (h : symbols.Countable) : symbols.toForm.Legible := by
  rw [toForm, Form.Legible, Form.legibleAll_iff, List.forall_mem_cons]
  refine ⟨rfl, fun form hform => ?_⟩
  obtain ⟨entry, hentry, rfl⟩ := List.mem_map.mp hform
  obtain ⟨hline, hcolumn⟩ := h entry (symbols.sorted_perm.mem_iff.mp hentry)
  exact ⟨rfl, trivial, trivial, hline, hcolumn, trivial⟩

theorem plain_toForm (symbols : Symbols) : symbols.toForm.Plain := by
  rw [toForm, Form.Plain, Form.plainAll_iff, List.forall_mem_cons]
  refine ⟨trivial, fun form hform => ?_⟩
  obtain ⟨entry, -, rfl⟩ := List.mem_map.mp hform
  exact ⟨trivial, trivial, trivial, trivial, trivial, trivial⟩

/-- **A written symbol document is read back**, in ascending order. -/
theorem ofDocument_document {symbols : Symbols} (hdistinct : symbols.Distinct) (h : symbols.Countable) :
    ofDocument symbols.document = .ok symbols.sorted := by
  have hread : Form.read symbols.document = .ok symbols.toForm := by
    rw [document, Form.read_document (legible_toForm h), (Form.asWritten_eq_self_iff _).mpr (plain_toForm symbols)]
  have hentries : (symbols.sorted.map entryForm).mapM readEntry = .ok (symbols.sorted.map id) :=
    mapM_map_eq_ok fun entry _ => readEntry_entryForm entry
  rw [List.map_id] at hentries
  rw [ofDocument, hread]
  show ((symbols.sorted.map entryForm).mapM readEntry >>= fun entries => Except.ok (ofEntries entries)) = _
  rw [hentries]
  exact congrArg Except.ok (ofEntries_of_distinct (hdistinct.perm symbols.sorted_perm))

/-! ## Tables that were read -/

theorem mem_setKey {α : Type} {entries : List (String × α)} {key : String} {value : α} {entry : String × α}
    (h : entry ∈ setKey entries key value) : entry ∈ entries ∨ entry = (key, value) := by
  unfold setKey at h
  split at h
  · obtain ⟨old, hold, heq⟩ := List.mem_map.mp h
    split at heq
    · exact .inr heq.symm
    · exact .inl (heq ▸ hold)
  · exact (List.mem_append.mp h).imp_right List.mem_singleton.mp

/-- A table holds what it was made of. -/
theorem mem_of_mem_ofEntries {entries : List (String × SourceLocation)} :
    ∀ entry ∈ ofEntries entries, entry ∈ entries := by
  have hfold : ∀ table : Symbols, ∀ entry ∈ entries.foldl (fun table entry => setKey table entry.1 entry.2) table,
      entry ∈ table ∨ entry ∈ entries := by
    induction entries with
    | nil => exact fun _ _ h => .inl h
    | cons first rest ih =>
      intro table entry hentry
      rcases ih _ entry hentry with hentry | hentry
      · rcases mem_setKey hentry with hentry | rfl
        · exact .inl hentry
        · exact .inr List.mem_cons_self
      · exact .inr (List.mem_cons_of_mem _ hentry)
  intro entry hentry
  exact (hfold [] entry hentry).resolve_left List.not_mem_nil

theorem digitCount_le_of_wholeOperand {form : Form} {value : Int} (hform : form.InRange)
    (h : wholeOperand form = .ok value) : digitCount value ≤ digitLimit := by
  cases form with
  | whole found =>
    obtain rfl : found = value := Except.ok.inj h
    exact hform
  | real found => exact Numeral.digitCount_le_of_wholeOfReal hform (mapError_eq_ok h)
  | text content => exact Numeral.digitCount_le_of_wholeOf (mapError_eq_ok h)
  | symbol name => exact Numeral.digitCount_le_of_wholeOf (mapError_eq_ok h)
  | list items => exact nomatch h
  | brackets items => exact nomatch h
  | quote form => exact nomatch h

/-- The line and the column of an entry that was read. -/
theorem countable_of_readEntry {form : Form} {entry : String × SourceLocation} (hform : form.InRange)
    (h : readEntry form = .ok entry) :
    digitCount entry.2.line ≤ digitLimit ∧ digitCount entry.2.column ≤ digitLimit := by
  have hoperand := Form.inRange_operands hform
  unfold readEntry at h
  split at h
  · exact nomatch h
  · obtain ⟨file, -, h⟩ := bind_eq_ok h
    obtain ⟨lineForm, hlineForm, h⟩ := bind_eq_ok h
    obtain ⟨line, hline, h⟩ := bind_eq_ok h
    obtain ⟨column, hcolumn, h⟩ := bind_eq_ok h
    obtain ⟨member, -, h⟩ := bind_eq_ok h
    obtain rfl := Except.ok.inj h
    refine ⟨digitCount_le_of_wholeOperand ?_ hline, digitCount_le_of_wholeOperand ?_ hcolumn⟩
    · have hlineForm := mapError_eq_ok hlineForm
      unfold Form.operand at hlineForm
      split at hlineForm
      · rename_i found hfound
        obtain rfl := Except.ok.inj hlineForm
        exact hoperand found (List.mem_of_getElem? hfound)
      · exact nomatch hlineForm
    · cases hfourth : form.operands[3]? with
      | none => exact show digitCount 0 ≤ digitLimit by decide
      | some found => exact hoperand found (List.mem_of_getElem? hfourth)

/-- **A table that was read** has distinct members, and lines and columns that can be written. -/
theorem sound_of_ofDocument {document : String} {symbols : Symbols} (h : ofDocument document = .ok symbols) :
    symbols.Distinct ∧ symbols.Countable := by
  obtain ⟨form, hform, h⟩ := bind_eq_ok h
  have hform := Form.inRange_operands (Form.inRange_of_read (mapError_eq_ok hform))
  split at h
  · exact nomatch h
  · obtain ⟨entries, hentries, h⟩ := bind_eq_ok h
    obtain rfl := Except.ok.inj h
    refine ⟨distinct_ofEntries entries, fun entry hentry => ?_⟩
    obtain ⟨entryForm, hmem, hread⟩ := exists_mem_of_mem_mapM hentries entry (mem_of_mem_ofEntries entry hentry)
    exact countable_of_readEntry (hform entryForm hmem) hread

end JobClosure.Symbols
