import JobClosure.Proofs.CallSite.Ownership
import JobClosure.Proofs.Instantiation.Spelling
import JobClosure.Proofs.Spelling.RoundTrip

/-!
# What the key of a call reference tells

Call references are kept once by the texts of their target and of their method. A text need not tell what it
is the text of. Parameters of a method are free texts with commas between them, so one parameter `A, B` prints
like the two parameters `A` and `B`, and a declared generic parameter that is no word of the grammar prints
like something else.

A method is **legible** if its text can be taken apart again: its declaring type has no colon, its name has no
opening parenthesis, and its parameters have commas within brackets only. Legible methods with one text are
one method (`MethodId.Legible.eq_of_text_eq`), and legible call references with one key are one target in one
method (`CallReference.Legible.node_eq`).
-/

namespace JobClosure

/-! ## Texts between commas -/

namespace Signature

/-- The depth of brackets after one more character. There is none after a comma outside of all brackets, or
after a bracket that closes nothing. -/
def nest (depth : Nat) (c : Char) : Option Nat :=
  if c ∈ ['<', '[', '('] then some (depth + 1)
  else if c ∈ ['>', ']', ')'] then if depth = 0 then none else some (depth - 1)
  else if c = ',' ∧ depth = 0 then none
  else some depth

/-- All brackets are closed, and every comma is within brackets. -/
def IsWhole (text : List Char) : Prop := text.foldlM nest 0 = some 0

instance (text : List Char) : Decidable (IsWhole text) := inferInstanceAs (Decidable (_ = _))

/-- What is put after a text in a list: nothing, or a comma with more. -/
def Follows (rest : List Char) : Prop := ∀ c ∈ rest.head?, c = ','

variable {a b us vs : List Char}

/-- No whole text begins with another one and a comma. -/
theorem IsWhole.eq_nil_of_append {c : List Char} (ha : IsWhole a) (hac : IsWhole (a ++ c)) (hc : Follows c) :
    c = [] := by
  cases c with
  | nil => rfl
  | cons first rest =>
    obtain rfl : first = ',' := hc first rfl
    unfold IsWhole at ha hac
    rw [List.foldlM_append, ha] at hac
    exact nomatch hac

/-- **A whole text is told from what follows it.** -/
theorem IsWhole.append_inj (ha : IsWhole a) (hb : IsWhole b) (hus : Follows us) (hvs : Follows vs)
    (h : a ++ us = b ++ vs) : a = b ∧ us = vs := by
  -- one of the two texts begins with the other, and what it has more is a beginning of what follows
  have longer : ∀ {a b us vs c : List Char}, IsWhole a → IsWhole b → Follows us → b = a ++ c → us = c ++ vs → c = [] := by
    intro a b us vs c ha hb hus hba hus'
    subst hba hus'
    refine ha.eq_nil_of_append hb fun d hd => hus d ?_
    cases c with
    | nil => exact nomatch hd
    | cons => exact hd
  rcases List.append_eq_append_iff.mp h with ⟨c, hba, hus'⟩ | ⟨c, hab, hvs'⟩
  · obtain rfl := longer ha hb hus hba hus'
    exact ⟨(hba.trans (List.append_nil a)).symm, hus'⟩
  · obtain rfl := longer hb ha hvs hab hvs'
    exact ⟨hab.trans (List.append_nil b), hvs'.symm⟩

/-- The texts after the first one of a list, each with its separator. -/
def following (texts : List (List Char)) : List Char := texts.flatMap fun text => ',' :: ' ' :: text

theorem follows_following (texts : List (List Char)) : Follows (following texts) := by
  cases texts with
  | nil => exact nofun
  | cons => exact fun c hc => (Option.some.inj hc).symm

theorem intercalate_cons (first : List Char) (rest : List (List Char)) :
    [',', ' '].intercalate (first :: rest) = first ++ following rest := by
  induction rest generalizing first with
  | nil => simp [following]
  | cons second rest ih =>
    rw [List.intercalate_cons_cons, ih, List.append_assoc]
    rfl

theorem following_inj {ps qs : List (List Char)} (hps : ∀ p ∈ ps, IsWhole p) (hqs : ∀ q ∈ qs, IsWhole q)
    (h : following ps = following qs) : ps = qs := by
  induction ps generalizing qs with
  | nil =>
    cases qs with
    | nil => rfl
    | cons => exact nomatch h
  | cons p ps ih =>
    cases qs with
    | nil => exact nomatch h
    | cons q qs =>
      obtain ⟨hp, hmore⟩ := List.forall_mem_cons.mp hps
      obtain ⟨hq, hmore'⟩ := List.forall_mem_cons.mp hqs
      have htexts : p ++ following ps = q ++ following qs := (List.cons.inj (List.cons.inj h).2).2
      obtain ⟨hfirst, hrest⟩ := hp.append_inj hq (follows_following ps) (follows_following qs) htexts
      rw [hfirst, ih hmore hmore' hrest]

/-- **Lists of whole texts are told apart** by what they look like with commas between them, unless a text is
empty. -/
theorem intercalate_inj {ps qs : List (List Char)} (hps : ∀ p ∈ ps, p ≠ [] ∧ IsWhole p)
    (hqs : ∀ q ∈ qs, q ≠ [] ∧ IsWhole q) (h : [',', ' '].intercalate ps = [',', ' '].intercalate qs) : ps = qs := by
  have nonempty : ∀ {p : List Char} {ps : List (List Char)}, p ≠ [] → [',', ' '].intercalate (p :: ps) ≠ [] := by
    intro p ps hp
    rw [intercalate_cons]
    exact List.append_ne_nil_of_left_ne_nil hp _
  cases ps with
  | nil =>
    cases qs with
    | nil => rfl
    | cons q qs => exact absurd h.symm (nonempty (hqs q List.mem_cons_self).1)
  | cons p ps =>
    cases qs with
    | nil => exact absurd h (nonempty (hps p List.mem_cons_self).1)
    | cons q qs =>
      obtain ⟨⟨-, hp⟩, hmore⟩ := List.forall_mem_cons.mp hps
      obtain ⟨⟨-, hq⟩, hmore'⟩ := List.forall_mem_cons.mp hqs
      rw [intercalate_cons, intercalate_cons] at h
      obtain ⟨hfirst, hrest⟩ := hp.append_inj hq (follows_following ps) (follows_following qs) h
      rw [hfirst, following_inj (fun p hp => (hmore p hp).2) (fun q hq => (hmore' q hq).2) hrest]

/-- What stands before the first mark is told from what stands after it. -/
theorem append_cons_inj {mark : Char} (ha : mark ∉ a) (hb : mark ∉ b) (h : a ++ mark :: us = b ++ mark :: vs) :
    a = b ∧ us = vs := by
  induction a generalizing b with
  | nil =>
    cases b with
    | nil => exact ⟨rfl, (List.cons.inj h).2⟩
    | cons c b => exact absurd ((List.cons.inj h).1 ▸ List.mem_cons_self) hb
  | cons c a ih =>
    cases b with
    | nil => exact absurd ((List.cons.inj h).1 ▸ List.mem_cons_self) ha
    | cons d b =>
      obtain ⟨hfirst, hmore⟩ := List.cons.inj h
      obtain ⟨hsame, hrest⟩ := ih (mt (List.mem_cons_of_mem _) ha) (mt (List.mem_cons_of_mem _) hb) hmore
      exact ⟨by rw [hfirst, hsame], hrest⟩

end Signature

/-! ## Methods -/

/-- The text of a method can be taken apart. -/
structure MethodId.Legible (m : MethodId) : Prop where
  declaringType : ':' ∉ m.declaringType.toList
  name : '(' ∉ m.name.toList
  parameters : ∀ p ∈ m.parameters, p.toList ≠ [] ∧ Signature.IsWhole p.toList

namespace MethodId

theorem toList_text (m : MethodId) : m.text.toList = m.declaringType.toList ++ ':' :: ':' ::
    (m.name.toList ++ '(' :: ([',', ' '].intercalate (m.parameters.map String.toList) ++ [')'])) := by
  simp [text, String.toList_intercalate]

/-- **Legible methods with one text are one method.** -/
theorem Legible.eq_of_text_eq {m m' : MethodId} (h : m.Legible) (h' : m'.Legible) (htext : m.text = m'.text) :
    m = m' := by
  have hlist := congrArg String.toList htext
  rw [toList_text, toList_text] at hlist
  obtain ⟨htype, hlist⟩ := Signature.append_cons_inj h.declaringType h'.declaringType hlist
  obtain ⟨hname, hlist⟩ := Signature.append_cons_inj h.name h'.name (List.cons.inj hlist).2
  have hparameters := Signature.intercalate_inj (List.forall_mem_map.mpr h.parameters)
    (List.forall_mem_map.mpr h'.parameters) (List.append_cancel_right hlist)
  obtain ⟨type, name, parameters⟩ := m
  obtain ⟨type', name', parameters'⟩ := m'
  rw [MethodId.mk.injEq]
  exact ⟨String.toList_inj.mp htype, String.toList_inj.mp hname,
    List.map_injective_iff.mpr (fun _ _ => String.toList_inj.mp) hparameters⟩

/-- The parameter of the method, or of its type, that is spelled like this one. -/
def ownParameter (m : MethodId) (p : Parameter) : TypeArg :=
  .param ⟨if p.ofMethod then m.text else m.declaringType, p.name, p.ofMethod⟩

/-- What a method owns is known from the spelling of it without owners. -/
theorem OwnsIn.replace_unowned {m : MethodId} {arg : TypeArg} (h : m.OwnsIn arg) :
    (arg.replace TypeArg.unowned).replace m.ownParameter = arg := by
  rw [TypeArg.replace_replace]
  refine TypeArg.replace_eq_self arg fun p hp => ?_
  show m.ownParameter ⟨"", p.name, p.ofMethod⟩ = .param p
  rw [ownParameter, ← (h p hp : p.owner = if p.ofMethod then m.text else m.declaringType)]

/-- **What one method owns is told apart by its spelling.** -/
theorem OwnsIn.eq_of_spell_eq {m : MethodId} {a b : TypeArg} (ha : m.OwnsIn a) (hb : m.OwnsIn b)
    (haspell : a.Spellable) (hbspell : b.Spellable) (h : a.spell = b.spell) : a = b := by
  have hparse := Spelling.parse_spell haspell
  rw [h, Spelling.parse_spell hbspell] at hparse
  rw [← ha.replace_unowned, ← hb.replace_unowned, Except.ok.inj hparse]

end MethodId

/-! ## Call references -/

/-- The key of a call reference can be taken apart. -/
structure CallReference.Legible (call : CallReference) : Prop where
  entry : call.entry.Legible
  target : ∀ p ∈ call.target.occurrences, Spelling.isWord p.name = true

/-- **Legible call references with one key** are one target in one method. -/
theorem CallReference.Legible.node_eq {call call' : CallReference} (h : call.Legible) (h' : call'.Legible)
    (howned : call.entry.OwnsIn call.target) (howned' : call'.entry.OwnsIn call'.target)
    (hnames : call.target.Grammatical) (hnames' : call'.target.Grammatical) (hkey : call.key = call'.key) :
    call.node = call'.node := by
  obtain ⟨hspell, htext⟩ := Prod.mk.inj hkey
  have hentry := h.entry.eq_of_text_eq h'.entry htext
  rw [← hentry] at howned'
  have htarget := howned.eq_of_spell_eq howned' ((TypeArg.spellable_iff _).mpr ⟨hnames, h.target⟩)
    ((TypeArg.spellable_iff _).mpr ⟨hnames', h'.target⟩) hspell
  exact Prod.ext htarget hentry

end JobClosure
