import JobClosure.Proofs.Metadata.Symbols
import Mathlib

/-!
# Symbol documents are canonical

A text that is read as a table of symbols gives every member the location that its last entry says
(`lookup_ofEntries`); an entry without a column says column zero (`column_of_readEntry`). The table is written
in one way only: its entries are written in ascending order of the members, and these are told by the mapping
(`sorted_eq_of_lookup`). So texts of one mapping, whatever their order, their layout and their repetitions, are
rewritten to one text, and that text is read as the same mapping (`document_canonical`).
-/

namespace JobClosure

/-- A clause with a head is the list of its head and its operands. -/
theorem Form.eq_list_of_head? {form : Form} {name : String} (h : form.head? = some name) :
    form = .list (.symbol name :: form.operands) := by
  unfold Form.head? at h
  split at h
  · rename_i first rest
    cases first with
    | symbol found =>
      obtain rfl := Option.some.inj h
      rfl
    | text _ | whole _ | real _ | list _ | brackets _ | quote _ => exact nomatch h
  · exact nomatch h

namespace Symbols

/-! ## What a text says of a member -/

variable {α : Type}

theorem lookup_cons_eq (entry : String × α) (entries : List (String × α)) (member : String) :
    (entry :: entries).lookup member = if member = entry.1 then some entry.2 else entries.lookup member := by
  rw [List.lookup_cons]
  by_cases h : member = entry.1
  · rw [if_pos h, beq_iff_eq.mpr h]
  · rw [if_neg h, beq_eq_false_iff_ne.mpr h]

theorem lookup_eq_none_of_not_mem {entries : List (String × α)} {key : String} (h : key ∉ entries.map (·.1)) :
    entries.lookup key = none := by
  refine List.lookup_eq_none_iff.mpr fun entry hentry => bne_iff_ne.mpr ?_
  rintro rfl
  exact h (List.mem_map_of_mem hentry)

theorem exists_lookup_of_mem {entries : List (String × α)} {key : String} (h : key ∈ entries.map (·.1)) :
    ∃ value, entries.lookup key = some value := by
  obtain ⟨entry, hentry, rfl⟩ := List.mem_map.mp h
  exact Option.isSome_iff_exists.mp (List.lookup_isSome_iff.mpr ⟨entry, hentry, beq_self_eq_true entry.1⟩)

theorem lookup_replaced (entries : List (String × α)) (key : String) (value : α) (member : String) :
    (entries.map fun entry => if entry.1 == key then (key, value) else entry).lookup member
      = (entries.lookup member).map fun found => if member = key then value else found := by
  induction entries with
  | nil => rfl
  | cons entry rest ih =>
    rw [List.map_cons, lookup_cons_eq, lookup_cons_eq, ih]
    by_cases hname : entry.1 = key
    · rw [if_pos (beq_iff_eq.mpr hname), hname]
      by_cases hmember : member = key
      · simp [hmember]
      · simp [hmember]
    · have hkeep : ¬ (entry.1 == key) = true := by simpa using hname
      rw [if_neg hkeep]
      by_cases hmember : member = entry.1
      · simp [hmember, hname]
      · simp [hmember]

/-- Setting a member changes what is said of it and of nothing else. -/
theorem lookup_setKey (entries : List (String × α)) (key : String) (value : α) (member : String) :
    (setKey entries key value).lookup member = if member = key then some value else entries.lookup member := by
  by_cases hkey : key ∈ entries.map (·.1)
  · obtain ⟨old, hold⟩ := exists_lookup_of_mem hkey
    have hany : entries.any (·.1 == key) = true := by
      obtain ⟨entry, hentry, hname⟩ := List.mem_map.mp hkey
      exact List.any_eq_true.mpr ⟨entry, hentry, beq_iff_eq.mpr hname⟩
    rw [setKey, if_pos hany, lookup_replaced]
    by_cases hmember : member = key
    · simp [hmember, hold]
    · simp [hmember]
  · rw [setKey_of_not_mem hkey, List.lookup_append, lookup_cons_eq]
    by_cases hmember : member = key
    · rw [if_pos hmember, hmember, lookup_eq_none_of_not_mem hkey]
      simp
    · simp [hmember]

/-- **The last entry of a member counts.** -/
theorem lookup_ofEntries (entries : List (String × SourceLocation)) (member : String) :
    (ofEntries entries).lookup member = entries.reverse.lookup member := by
  -- entries are set one after the other, so what is said of a table holds from any table on
  have hfold : ∀ table : Symbols,
      (entries.foldl (fun table entry => setKey table entry.1 entry.2) table).lookup member
        = (entries.reverse.lookup member).or (table.lookup member) := by
    induction entries with
    | nil => exact fun _ => rfl
    | cons entry rest ih =>
      intro table
      rw [List.foldl_cons, ih, List.reverse_cons, List.lookup_append, Option.or_assoc, lookup_setKey, lookup_cons_eq]
      by_cases hmember : member = entry.1
      · simp [hmember]
      · simp [hmember]
  rw [ofEntries, hfold []]
  exact Option.or_none

/-- An entry without a column says column zero. -/
theorem column_of_readEntry {clause : Form} {entry : String × SourceLocation} (h : readEntry clause = .ok entry)
    (hshort : clause.operands.length ≤ 3) : entry.2.column = 0 := by
  unfold readEntry at h
  split at h
  · exact nomatch h
  · obtain ⟨file, -, h⟩ := bind_eq_ok h
    obtain ⟨lineForm, -, h⟩ := bind_eq_ok h
    obtain ⟨line, -, h⟩ := bind_eq_ok h
    obtain ⟨column, hcolumn, h⟩ := bind_eq_ok h
    obtain ⟨member, -, h⟩ := bind_eq_ok h
    obtain rfl := Except.ok.inj h
    rw [List.getElem?_eq_none hshort] at hcolumn
    exact (Except.ok.inj hcolumn).symm

/-- A text that is read is a list of clauses, each with an entry of the table. -/
theorem exists_clauses_of_ofDocument {document : String} {symbols : Symbols} (h : ofDocument document = .ok symbols) :
    ∃ clauses entries, Form.read document = .ok (.list (.symbol "symbols" :: clauses))
      ∧ clauses.mapM readEntry = .ok entries ∧ symbols = ofEntries entries := by
  obtain ⟨form, hform, h⟩ := bind_eq_ok h
  split at h
  · exact nomatch h
  · rename_i hhead
    obtain ⟨entries, hentries, h⟩ := bind_eq_ok h
    rw [Form.eq_list_of_head? (not_not.mp hhead)] at hform
    exact ⟨form.operands, entries, mapError_eq_ok hform, hentries, (Except.ok.inj h).symm⟩

/-! ## One text for one mapping -/

variable {symbols other : Symbols}

/-- The entries that are written ascend strictly. -/
theorem Distinct.ascending (h : symbols.Distinct) : symbols.sorted.Pairwise (fun a b => a.1 < b.1) := by
  have hsorted : symbols.sorted.Pairwise fun a b => decide (a.1 ≤ b.1) = true := by
    refine List.pairwise_mergeSort (fun a b c hab hbc => ?_) (fun a b => ?_) symbols
    · exact decide_eq_true (String.le_trans (of_decide_eq_true hab) (of_decide_eq_true hbc))
    · simpa using String.le_total a.1 b.1
  have hdistinct : symbols.sorted.Pairwise fun a b => a.1 ≠ b.1 :=
    List.pairwise_map.mp (h.perm symbols.sorted_perm)
  refine (hsorted.and hdistinct).imp fun {a b} hab => ?_
  exact String.not_le.mp fun hba => hab.2 (String.le_antisymm (of_decide_eq_true hab.1) hba)

/-- **The entries that are written are told by the mapping.** -/
theorem sorted_eq_of_lookup (h : symbols.Distinct) (h' : other.Distinct)
    (hsame : ∀ member, symbols.lookup member = other.lookup member) : symbols.sorted = other.sorted := by
  have hmem : ∀ entry, entry ∈ symbols ↔ entry ∈ other := by
    intro entry
    rw [← lookup_eq_some_iff h, ← lookup_eq_some_iff h', hsame]
  have hperm : symbols.Perm other :=
    (List.perm_ext_iff_of_nodup (List.Nodup.of_map _ h) (List.Nodup.of_map _ h')).mpr hmem
  -- two strictly ascending lists of the same entries are one list
  have hwritten : symbols.sorted.Perm other.sorted :=
    (symbols.sorted_perm.trans hperm).trans other.sorted_perm.symm
  exact hwritten.eq_of_pairwise (fun a b _ _ hab hba => absurd hba (String.lt_asymm hab)) h.ascending h'.ascending

theorem read_document (h : symbols.Countable) :
    Form.read symbols.document = .ok (.list (.symbol "symbols" :: symbols.sorted.map entryForm)) := by
  rw [document, Form.read_document (legible_toForm h), (Form.asWritten_eq_self_iff _).mpr (plain_toForm symbols)]
  rfl

/-- The text that is written is told by the mapping, and it tells the mapping. -/
theorem document_eq_iff (h : symbols.Distinct) (hcount : symbols.Countable) (h' : other.Distinct)
    (hcount' : other.Countable) :
    symbols.document = other.document ↔ ∀ member, symbols.lookup member = other.lookup member := by
  constructor
  · intro hsame member
    have hread := ofDocument_document h hcount
    rw [hsame, ofDocument_document h' hcount'] at hread
    rw [← lookup_sorted h, ← lookup_sorted h', Except.ok.inj hread]
  · intro hsame
    rw [document, document, toForm, toForm, sorted_eq_of_lookup h h' hsame]

/--
**Symbol documents are canonical.**

Let a text be read as a table of symbols. The table says of every member what its last entry in the text says,
with column zero where the entry has none. Its lines and columns are numbers that can be written, and it is
written as a text that is read again, as the same mapping, and that is rewritten to itself. Another text that is
read is rewritten to the same text exactly if it gives the same mapping. What is written is one entry for every
member, in ascending order of the members, code point by code point.
-/
theorem document_canonical {text : String} {symbols : Symbols} (h : ofDocument text = .ok symbols) :
    (∃ clauses entries, Form.read text = .ok (.list (.symbol "symbols" :: clauses))
      ∧ clauses.mapM readEntry = .ok entries
      ∧ (∀ member, symbols.lookup member = entries.reverse.lookup member)
      ∧ ∀ clause ∈ clauses, ∀ entry, readEntry clause = .ok entry → clause.operands.length ≤ 3 →
        entry.2.column = 0) ∧
    (symbols.Countable ∧ ∃ again, ofDocument symbols.document = .ok again ∧ again.document = symbols.document
      ∧ ∀ member, again.lookup member = symbols.lookup member) ∧
    (∀ text' other, ofDocument text' = .ok other →
      (other.document = symbols.document ↔ ∀ member, other.lookup member = symbols.lookup member)) ∧
    ∃ entries : Symbols, Form.read symbols.document = .ok (.list (.symbol "symbols" :: entries.map entryForm))
      ∧ entries.Pairwise (fun a b => a.1 < b.1) ∧ ∀ member, entries.lookup member = symbols.lookup member := by
  obtain ⟨hdistinct, hcount⟩ := sound_of_ofDocument h
  refine ⟨?_, ?_, fun text' other hother => ?_, ?_⟩
  · obtain ⟨clauses, entries, hread, hentries, rfl⟩ := exists_clauses_of_ofDocument h
    exact ⟨clauses, entries, hread, hentries, lookup_ofEntries entries,
      fun _ _ _ hentry hshort => column_of_readEntry hentry hshort⟩
  · refine ⟨hcount, symbols.sorted, ofDocument_document hdistinct hcount, ?_, lookup_sorted hdistinct⟩
    rw [document, document, toForm, toForm, sorted_sorted]
  · obtain ⟨hdistinct', hcount'⟩ := sound_of_ofDocument hother
    exact document_eq_iff hdistinct' hcount' hdistinct hcount
  · exact ⟨symbols.sorted, read_document hcount, hdistinct.ascending, lookup_sorted hdistinct⟩

/-! ## Two texts of one mapping

The first has a member twice, a line in quotes, a negative line, a file with a line break and a quote in its name, and
no columns. -/

namespace Repeated

def loose : String :=
  "(symbols (member \"B\" \"x\" 1 2)\n  (member \"A\" \"a\n\\\"\" \"7\") (member \"B\" \"b\" -3))"

def tidy : String := "(symbols\n  (member \"A\" \"a\n\\\"\" 7 0)\n  (member \"B\" \"b\" -3 0))\n"

def ofA : String × SourceLocation := ("A", ⟨"a\n\"", 7, 0⟩)

def ofB : String × SourceLocation := ("B", ⟨"b", -3, 0⟩)

theorem ofDocument_loose : ofDocument loose = .ok [ofB, ofA] := by
  have hcharacters : loose.toList = _ := String.toList_ofList
  rw [ofDocument, Form.read_of_toList hcharacters]
  cbv

theorem ofDocument_tidy : ofDocument tidy = .ok [ofA, ofB] := by
  have hcharacters : tidy.toList = _ := String.toList_ofList
  rw [ofDocument, Form.read_of_toList hcharacters]
  cbv

/-- They are rewritten to one text. -/
theorem loose_rewritten : ofDocument loose = .ok [ofB, ofA] ∧ ofDocument tidy = .ok [ofA, ofB] ∧
    document [ofB, ofA] = document [ofA, ofB] := by
  obtain ⟨-, -, hsame, -⟩ := document_canonical ofDocument_tidy
  refine ⟨ofDocument_loose, ofDocument_tidy, (hsame loose _ ofDocument_loose).mpr fun member => ?_⟩
  exact lookup_perm (List.Perm.swap ofA ofB []) (by unfold Distinct; decide) member

end Repeated

end Symbols

end JobClosure
