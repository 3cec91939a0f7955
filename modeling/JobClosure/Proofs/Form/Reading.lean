import JobClosure.Proofs.Form.Atom

/-!
# What is read comes from atoms

A property of forms that goes from the parts of a form to the form holds of whatever is read, if it holds of
what the atoms of the document stand for (`Ascends.read`).

An atom of the document is a name that is read as itself, unless it was written with an escape. Whether a
document escapes anything outside its texts and comments can be computed (`escapesAtom`); if it does not, every
atom is read as itself (`tokens_of_unescaped`).
-/

namespace JobClosure.Form

/-! ## Reading characters -/

/-- The only form that some characters are read as. -/
def ofCharacters (cs : List Char) : Except ReadFault Form := do
  match ← readTokens {} [] (tokens cs) with
  | [form] => .ok form
  | _ => .error .notOneForm

/-- A document is read from its characters. Where these are known, reading it can be computed from them. -/
theorem read_of_toList {document : String} {cs : List Char} (h : document.toList = cs) :
    read document = ofCharacters cs := by
  rw [← h]
  rfl

/-! ## From atoms to forms -/

/-- A property that texts have, and lists, brackets and quotes of forms that have it. -/
structure Ascends (P : Form → Prop) : Prop where
  text : ∀ content, P (.text content)
  list : ∀ items, (∀ item ∈ items, P item) → P (.list items)
  brackets : ∀ items, (∀ item ∈ items, P item) → P (.brackets items)
  quote : ∀ form, P form → P (.quote form)

namespace Ascends

variable {P : Form → Prop} (hP : Ascends P)
include hP

theorem quoted {positions : List Nat} {form : Form} (h : P form) :
    P (positions.foldl (fun form _ => Form.quote form) form) := by
  induction positions generalizing form with
  | nil => exact h
  | cons position positions ih => exact ih (hP.quote form h)

theorem push {level : OpenList} {form : Form} (hlevel : ∀ item ∈ level.items, P item) (h : P form) :
    ∀ item ∈ (level.push form).items, P item :=
  List.forall_mem_cons.mpr ⟨hP.quoted h, hlevel⟩

omit hP in
theorem finish {level : OpenList} {items : List Form} (hlevel : ∀ item ∈ level.items, P item)
    (h : level.finish = .ok items) : ∀ item ∈ items, P item := by
  unfold OpenList.finish at h
  split at h
  · obtain rfl := Except.ok.inj h
    exact fun item hitem => hlevel item (List.mem_reverse.mp hitem)
  · exact nomatch h

/-- The lists that are open keep the property, whatever token is read into them. -/
theorem readTokens {tokens : List Token} {level : OpenList} {outer : List (OpenList × Bracket)}
    {items : List Form} (hatoms : ∀ content, .atom content ∈ tokens → P (ofAtom content))
    (hlevel : ∀ item ∈ level.items, P item) (houter : ∀ parent ∈ outer, ∀ item ∈ parent.1.items, P item)
    (h : readTokens level outer tokens = .ok items) : ∀ item ∈ items, P item := by
  induction tokens generalizing level outer with
  | nil =>
    obtain ⟨finished, hfinish, h⟩ := bind_eq_ok h
    cases outer with
    | nil =>
      obtain rfl : finished = items := Except.ok.inj h
      exact finish hlevel hfinish
    | cons parent outer => exact nomatch h
  | cons token tokens ih =>
    have hrest : ∀ content, .atom content ∈ tokens → P (ofAtom content) := fun content hcontent =>
      hatoms content (List.mem_cons_of_mem _ hcontent)
    cases token with
    | opening bracket =>
      exact ih hrest (fun item hitem => absurd hitem List.not_mem_nil)
        (List.forall_mem_cons.mpr ⟨hlevel, houter⟩) h
    | closing bracket remainder =>
      -- the list is complete, and goes up to the one that it was opened in
      obtain ⟨finished, hfinish, h⟩ := bind_eq_ok h
      cases outer with
      | nil => exact nomatch h
      | cons parent outer =>
        obtain ⟨parent, opened⟩ := parent
        obtain ⟨hparent, houter⟩ := List.forall_mem_cons.mp houter
        dsimp only at h
        split at h
        · have hlist : P (ofItems bracket finished) := by
            cases bracket with
            | round => exact hP.list _ (finish hlevel hfinish)
            | square => exact hP.brackets _ (finish hlevel hfinish)
          exact ih hrest (hP.push hparent hlist) houter h
        · exact nomatch h
    | apostrophe position =>
      have hmarked : ∀ item ∈ OpenList.items { level with apostrophes := position :: level.apostrophes }, P item :=
        hlevel
      exact ih hrest hmarked houter h
    | text content => exact ih hrest (hP.push hlevel (hP.text _)) houter h
    | atom content => exact ih hrest (hP.push hlevel (hatoms content List.mem_cons_self)) houter h
    | broken fault => exact nomatch h

/-- **What is read has every property that goes up from atoms.** -/
theorem read {document : String} {form : Form}
    (hatoms : ∀ content, .atom content ∈ tokens document.toList → P (ofAtom content))
    (h : read document = .ok form) : P form := by
  obtain ⟨items, hitems, h⟩ := bind_eq_ok h
  have hall := hP.readTokens hatoms (fun item hitem => absurd hitem List.not_mem_nil)
    (fun parent hparent => absurd hparent List.not_mem_nil) hitems
  split at h
  · rename_i found
    obtain rfl := Except.ok.inj h
    exact hall found (List.mem_singleton_self _)
  · exact nomatch h

end Ascends

/-! ## Atoms without escapes -/

/-- A backslash that was just read belongs to an atom. -/
def Mode.escapesAtom : Mode → Bool
  | .escapeInAtom _ => true
  | _ => false

/-- Whether an atom is written with an escape from here on. -/
def escapesAtomFrom (mode : Mode) (position : Nat) : List Char → Bool
  | [] => false
  | c :: rest =>
    let next := (step mode position c rest).2
    next.escapesAtom || escapesAtomFrom next (position + 1) rest

/-- Whether an atom of a document is written with an escape. Escapes in texts are none of this. -/
def escapesAtom (document : List Char) : Bool := escapesAtomFrom .between 0 document

/-- The characters of an atom that was written as it stands. -/
def Unescaped : List Char → Prop
  | [] => False
  | c :: rest => isPlain c = true ∧ ∀ d ∈ rest, endsAtom d = false ∧ d ≠ '\\'

theorem Unescaped.append {read : List Char} {c : Char} (h : Unescaped read) (hc : endsAtom c = false ∧ c ≠ '\\') :
    Unescaped (read ++ [c]) := by
  cases read with
  | nil => exact h.elim
  | cons first read => exact ⟨h.1, List.forall_mem_append.mpr ⟨h.2, List.forall_mem_singleton.mpr hc⟩⟩

/-- An atom that is being read was written as it stands. -/
def Mode.Unescaped : Mode → Prop
  | .inAtom read => Form.Unescaped read.reverse
  | .escapeInAtom _ => False
  | _ => True

theorem unescaped_stepBetween {position : Nat} {c : Char} {rest : List Char}
    (h : (stepBetween position c rest).2.escapesAtom = false) : (stepBetween position c rest).2.Unescaped := by
  unfold stepBetween at h ⊢
  split_ifs at h ⊢ with hblank hquote hcomment hmark hslash
  · trivial
  · trivial
  · trivial
  · trivial
  · exact nomatch h
  · split
    · trivial
    · trivial
    · rename_i hopened hclosed
      have hother : c ≠ '\\' ∧ c ≠ '\'' := ⟨by simpa using hslash, by simpa using hmark⟩
      refine ⟨?_, fun d hd => absurd hd List.not_mem_nil⟩
      simp [isPlain, endsAtom, hblank, hquote, hcomment, hopened, hclosed, hother]

/-- **One character** neither completes an atom with an escape nor leaves one open. -/
theorem unescaped_step {mode : Mode} {position : Nat} {c : Char} {rest : List Char} (hmode : mode.Unescaped)
    (h : (step mode position c rest).2.escapesAtom = false) :
    (step mode position c rest).2.Unescaped ∧
      ∀ content, .atom content ∈ (step mode position c rest).1 → Unescaped content := by
  have hnone : ∀ content, Token.atom content ∈ ([] : List Token) → Unescaped content := fun _ hmem =>
    absurd hmem List.not_mem_nil
  cases mode with
  | between => exact ⟨unescaped_stepBetween h, fun content hmem => absurd hmem not_mem_stepBetween⟩
  | comment =>
    refine ⟨?_, hnone⟩
    rw [step.eq_def]
    dsimp only
    split <;> trivial
  | inText read =>
    rw [step.eq_def]
    dsimp only
    split_ifs
    · exact ⟨trivial, fun content hmem => Token.noConfusion (List.mem_singleton.mp hmem)⟩
    · exact ⟨trivial, hnone⟩
    · exact ⟨trivial, hnone⟩
  | escapeInText read => exact ⟨trivial, hnone⟩
  | escapeInAtom read => exact hmode.elim
  | inAtom read =>
    cases hc : endsAtom c with
    | true =>
      -- the atom ends here, and the character is read as one between atoms
      rw [step_inAtom_of_ends hc] at h ⊢
      refine ⟨unescaped_stepBetween h, fun content hmem => ?_⟩
      rcases List.mem_cons.mp hmem with hatom | hmem
      · rw [Token.atom.inj hatom]
        exact hmode
      · exact absurd hmem not_mem_stepBetween
    | false =>
      rw [step_inAtom hc] at h ⊢
      split_ifs at h ⊢ with hslash
      · cases h
      · refine ⟨?_, hnone⟩
        show Unescaped (c :: read).reverse
        rw [List.reverse_cons]
        exact Unescaped.append hmode ⟨hc, by simpa using hslash⟩

/-- **The atoms of a document without escaped atoms** are written as they stand. -/
theorem unescaped_of_mem_tokensFrom {mode : Mode} {position : Nat} {cs content : List Char}
    (hmode : mode.Unescaped) (h : escapesAtomFrom mode position cs = false)
    (hmem : .atom content ∈ tokensFrom mode position cs) : Unescaped content := by
  induction cs generalizing mode position with
  | nil =>
    cases mode with
    | inAtom read =>
      rw [Token.atom.inj (List.mem_singleton.mp hmem)]
      exact hmode
    | _ => simp [tokensFrom, atEnd] at hmem
  | cons c rest ih =>
    obtain ⟨hnext, hrest⟩ := Bool.or_eq_false_iff.mp h
    obtain ⟨hunescaped, hatoms⟩ := unescaped_step hmode hnext
    rw [tokensFrom_cons, List.mem_append] at hmem
    rcases hmem with hmem | hmem
    · exact hatoms content hmem
    · exact ih hunescaped hrest hmem

/-- Such an atom, as a document, is that atom again. -/
theorem tokens_of_unescaped {content : List Char} (h : Unescaped content) : tokens content = [.atom content] := by
  cases content with
  | nil => exact h.elim
  | cons c rest =>
    rw [tokens, tokensFrom_cons]
    show (stepBetween 0 c rest).1 ++ tokensFrom (stepBetween 0 c rest).2 1 rest = _
    rw [stepBetween_plain h.1, tokensFrom_inAtom h.2]
    rfl

theorem read_of_tokens {name : String} (h : tokens name.toList = [.atom name.toList])
    (hatom : ofAtom name.toList = .symbol name) : read name = .ok (.symbol name) := by
  have hall : readAll name = .ok [ofAtom name.toList] := by
    rw [readAll, h]
    rfl
  rw [read, hall, hatom]
  rfl

end JobClosure.Form
