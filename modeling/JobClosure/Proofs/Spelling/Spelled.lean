import JobClosure.Proofs.Spelling.Scope
import JobClosure.Proofs.TypeRef.Substitution
import Mathlib.Data.List.Forall2

/-!
# Spelled arguments are read back

An argument that is built from names of the spelling grammar and from parameters that are words is
`Spellable`: its spelling is read as the same argument, except that no parameter has an owner yet
(`parse_spell`). In a scope that declares the parameters each gets its owner back, so there the spelling
means the very argument that was spelled (`Scope.parse_spell`).

Tokens and parser are taken together: a text **spells** an argument when the parser, wherever it wants one,
has that argument after the text (`Spells`). Names and words are as long as they can be, so what follows
must not go on with them (`Separate`).
-/

namespace JobClosure

namespace Spelling

/-- A word of the grammar. -/
def isWord (word : String) : Bool := !word.toList.isEmpty && word.toList.all isWordChar

/-- A name of the grammar. -/
def isName (name : String) : Bool := name.toList.head?.any isNameStart && name.toList.all isNameChar

end Spelling

namespace TypeArg

mutual

/-- An argument whose names are names of the grammar and whose parameters are words of it. -/
def Spellable : TypeArg → Prop
  | .param p => Spelling.isWord p.name = true
  | .named name args => Spelling.isName name = true ∧ SpellableAll args

def SpellableAll : List TypeArg → Prop
  | [] => True
  | arg :: rest => Spellable arg ∧ SpellableAll rest

end

/-- A parameter as it is read, before it has an owner. -/
def unowned (p : Parameter) : TypeArg := .param ⟨"", p.name, p.ofMethod⟩

end TypeArg

namespace Spelling

open TypeArg (Spellable SpellableAll unowned)

/-! ## Tokens and parser together -/

/-- A text that does not go on with a name or a word. -/
def Separate : List Char → Prop
  | [] => True
  | c :: _ => isNameChar c = false

theorem Separate.of_not {c : Char} {rest : List Char} (h : isNameChar c = false) : Separate (c :: rest) := h

theorem Separate.of_head {rest : List Char} (h : Separate rest) : ∀ c ∈ rest.head?, isNameChar c = false := by
  cases rest with
  | nil => simp
  | cons c rest =>
    intro d hd
    obtain rfl := Option.some.inj hd
    exact h

/-- What the parser makes of the rest of a text. -/
def run (outer : List OpenRef) (phase : Phase) (text : List Char) : Option TypeArg :=
  (tokensFrom? .between text).bind (parseTokens outer phase)

/-- A text after which the parser, wherever it wants an argument, has this one. -/
def Spells (text : List Char) (arg : TypeArg) : Prop :=
  ∃ phase : Phase, phase.arg? = some arg ∧
    ∀ outer rest, Separate rest → run outer .wanting (text ++ rest) = run outer phase rest

theorem parse?_eq_run (text : String) : parse? text = run [] .wanting text.toList := rfl

theorem isNameChar_of_isWordChar {c : Char} (h : isWordChar c = true) : isNameChar c = true := by
  simp [isNameChar, h]

theorem Separate.word_of_head {rest : List Char} (h : Separate rest) : ∀ c ∈ rest.head?, isWordChar c = false := by
  intro c hc
  by_contra hword
  have hname := isNameChar_of_isWordChar (eq_true_of_ne_false hword)
  rw [h.of_head c hc] at hname
  exact absurd hname Bool.false_ne_true

theorem isWordChar_of_isNameStart {c : Char} (h : isNameStart c = true) : isWordChar c = true := by
  simp only [isNameStart, isWordChar, Char.isAlphanum, Bool.or_eq_true] at h ⊢
  rcases h with h | h
  · exact .inl (.inl h)
  · exact .inr h

/-! ## One token -/

theorem tokensFrom?_cons {mode next : Mode} {c : Char} {tokens : List Token}
    (h : step mode c = some (tokens, next)) (rest : List Char) :
    tokensFrom? mode (c :: rest) = (tokensFrom? next rest).map (tokens ++ ·) := by
  rw [tokensFrom?, h]
  cases hrest : tokensFrom? next rest <;> simp [hrest]

theorem run_blank (outer : List OpenRef) (phase : Phase) (rest : List Char) :
    run outer phase (' ' :: rest) = run outer phase rest := by
  have hstep : step .between ' ' = some ([], .between) := rfl
  rw [run, run, tokensFrom?_cons hstep]
  cases tokensFrom? .between rest <;> rfl

/-- A token of one character does what the parser does with it. -/
theorem run_token {c : Char} {token : Token} {outer outer' : List OpenRef} {phase phase' : Phase}
    (hstep : step .between c = some ([token], .between))
    (hadvance : advance outer phase token = some (outer', phase')) (rest : List Char) :
    run outer phase (c :: rest) = run outer' phase' rest := by
  rw [run, run, tokensFrom?_cons hstep]
  cases tokensFrom? .between rest with
  | none => rfl
  | some more => exact parseTokens_cons hadvance more

theorem run_opening (outer : List OpenRef) (name : String) (rest : List Char) :
    run outer (.named name) ('<' :: rest) = run (⟨name, []⟩ :: outer) .wanting rest :=
  run_token rfl rfl rest

theorem run_comma {phase : Phase} {arg : TypeArg} (h : phase.arg? = some arg) (ref : OpenRef)
    (outer : List OpenRef) (rest : List Char) :
    run (ref :: outer) phase (',' :: rest) = run ({ ref with args := arg :: ref.args } :: outer) .wanting rest :=
  run_token rfl (advance_comma h ref outer) rest

theorem run_closing {phase : Phase} {arg : TypeArg} (h : phase.arg? = some arg) (ref : OpenRef)
    (outer : List OpenRef) (rest : List Char) :
    run (ref :: outer) phase ('>' :: rest) =
      run outer (.complete (.named ref.name (arg :: ref.args).reverse)) rest :=
  run_token rfl (advance_closing h ref outer) rest

/-! ## Names and words -/

/-- A name or a word is complete where nothing follows that goes on with it. -/
theorem tokensFrom?_of_ends {mode : Mode} {token : Token} {rest : List Char} (hend : atEnd mode = some [token])
    (hstep : ∀ c ∈ rest.head?, step mode c = (stepBetween c).map fun (tokens, next) => (token :: tokens, next)) :
    tokensFrom? mode rest = (tokensFrom? .between rest).map (token :: ·) := by
  cases rest with
  | nil =>
    rw [tokensFrom?, hend]
    rfl
  | cons c rest =>
    have hbetween : step .between c = stepBetween c := rfl
    rw [tokensFrom?, tokensFrom?, hstep c rfl, hbetween]
    cases stepBetween c with
    | none => rfl
    | some result =>
      obtain ⟨tokens, next⟩ := result
      cases h : tokensFrom? next rest <;> simp [h]

/-- A mode in which characters of one kind are read, all of which go into one token. -/
structure Collects (kind : Char → Bool) (mode : List Char → Mode) (token : List Char → Token) : Prop where
  ends (read : List Char) : atEnd (mode read) = some [token read.reverse]
  goesOn (read : List Char) {c : Char} (hc : kind c = true) : step (mode read) c = some ([], mode (c :: read))
  stops (read : List Char) {c : Char} (hc : kind c = false) :
    step (mode read) c = (stepBetween c).map fun (tokens, next) => (token read.reverse :: tokens, next)

theorem collects_name : Collects isNameChar .inName .name where
  ends _ := rfl
  goesOn _ _ hc := if_pos hc
  stops _ _ hc := if_neg (Bool.not_eq_true _ ▸ hc)

theorem collects_word (ofMethod : Bool) : Collects isWordChar (.inWord ofMethod) (.parameter ofMethod) where
  ends _ := rfl
  goesOn _ _ hc := if_pos hc
  stops _ _ hc := if_neg (Bool.not_eq_true _ ▸ hc)

/-- Characters of the kind are read up to where there is another one. -/
theorem Collects.tokensFrom? {kind : Char → Bool} {mode : List Char → Mode} {token : List Char → Token}
    (h : Collects kind mode token) {cs rest : List Char} (hcs : ∀ c ∈ cs, kind c = true)
    (hrest : ∀ c ∈ rest.head?, kind c = false) (read : List Char) :
    tokensFrom? (mode read) (cs ++ rest) = (tokensFrom? .between rest).map (token (read.reverse ++ cs) :: ·) := by
  induction cs generalizing read with
  | nil =>
    rw [List.append_nil, List.nil_append]
    exact tokensFrom?_of_ends (h.ends read) fun c hc => h.stops read (hrest c hc)
  | cons c cs ih =>
    rw [List.cons_append, tokensFrom?_cons (h.goesOn read (hcs c List.mem_cons_self)),
      ih fun c hc => hcs c (List.mem_cons_of_mem _ hc)]
    simp [Function.comp_def]

theorem exists_cons_of_isName {name : String} (h : isName name = true) :
    ∃ c cs, name.toList = c :: cs ∧ isNameStart c = true ∧ ∀ d ∈ cs, isNameChar d = true := by
  rw [isName, Bool.and_eq_true] at h
  cases hlist : name.toList with
  | nil => simp [hlist] at h
  | cons c cs =>
    simp only [hlist, List.head?_cons, Option.any_some, List.all_cons, Bool.and_eq_true, List.all_eq_true] at h
    exact ⟨c, cs, rfl, h.1, h.2.2⟩

theorem exists_cons_of_isWord {word : String} (h : isWord word = true) :
    ∃ c cs, word.toList = c :: cs ∧ isWordChar c = true ∧ ∀ d ∈ cs, isWordChar d = true := by
  rw [isWord, Bool.and_eq_true] at h
  cases hlist : word.toList with
  | nil => simp [hlist] at h
  | cons c cs =>
    simp only [hlist, List.all_cons, Bool.and_eq_true, List.all_eq_true] at h
    exact ⟨c, cs, rfl, h.2.1, h.2.2⟩

/-- A character that starts a name is nothing else to the tokenizer. -/
theorem stepBetween_nameStart {c : Char} (h : isNameStart c = true) : stepBetween c = some ([], .inName [c]) := by
  have hnone : [' ', '\t', '\x0c', '\r', '\n', '<', ',', '>', '!'].any isNameStart = false := by decide
  have hother : ∀ d ∈ [' ', '\t', '\x0c', '\r', '\n', '<', ',', '>', '!'], c ≠ d := by
    rintro d hd rfl
    exact List.any_eq_false.mp hnone _ hd h
  simp only [List.forall_mem_cons] at hother
  simp [stepBetween, Text.isSpellingBlank, hother, h]

/-- A name is one token, if no character follows that goes on with it. -/
theorem tokensFrom?_name {name : String} (h : isName name = true) {rest : List Char}
    (hrest : ∀ c ∈ rest.head?, isNameChar c = false) :
    tokensFrom? .between (name.toList ++ rest) = (tokensFrom? .between rest).map (.name name.toList :: ·) := by
  obtain ⟨c, cs, hlist, hstart, hmore⟩ := exists_cons_of_isName h
  have hstep : step .between c = some ([], .inName [c]) := stepBetween_nameStart hstart
  rw [hlist, List.cons_append, tokensFrom?_cons hstep, collects_name.tokensFrom? hmore hrest]
  simp [Function.comp_def]

/-- The marks of a parameter. -/
def marks (ofMethod : Bool) : List Char := if ofMethod then ['!', '!'] else ['!']

theorem tokensFrom?_marks (ofMethod : Bool) (rest : List Char) :
    tokensFrom? .between (marks ofMethod ++ rest) = tokensFrom? (.afterMark ofMethod) rest := by
  have hmark : step .between '!' = some ([], .afterMark false) := rfl
  cases ofMethod with
  | false =>
    show tokensFrom? .between ('!' :: rest) = _
    rw [tokensFrom?_cons hmark]
    simp
  | true =>
    have hsecond : step (.afterMark false) '!' = some ([], .afterMark true) := rfl
    show tokensFrom? .between ('!' :: '!' :: rest) = _
    rw [tokensFrom?_cons hmark, tokensFrom?_cons hsecond]
    simp

/-- A parameter is one token, if no character follows that goes on with its name. -/
theorem tokensFrom?_parameter {word : String} (h : isWord word = true) (ofMethod : Bool) {rest : List Char}
    (hrest : ∀ c ∈ rest.head?, isWordChar c = false) :
    tokensFrom? .between (marks ofMethod ++ (word.toList ++ rest))
      = (tokensFrom? .between rest).map (.parameter ofMethod word.toList :: ·) := by
  obtain ⟨c, cs, hlist, hstart, hmore⟩ := exists_cons_of_isWord h
  have hstep : step (.afterMark ofMethod) c = some ([], .inWord ofMethod [c]) := by
    rw [step, if_pos hstart]
  rw [tokensFrom?_marks, hlist, List.cons_append, tokensFrom?_cons hstep, (collects_word _).tokensFrom? hmore hrest]
  simp [Function.comp_def]

/-- The parser takes a name as a whole. -/
theorem run_name {name : String} (h : isName name = true) (outer : List OpenRef) {rest : List Char}
    (hrest : Separate rest) : run outer .wanting (name.toList ++ rest) = run outer (.named name) rest := by
  rw [run, run, tokensFrom?_name h hrest.of_head]
  cases tokensFrom? .between rest with
  | none => rfl
  | some more =>
    show parseTokens outer (.named (String.ofList name.toList)) more = parseTokens outer (.named name) more
    rw [String.ofList_toList]

/-- The parser takes a parameter as a whole. -/
theorem run_parameter {p : Parameter} (h : isWord p.name = true) (outer : List OpenRef) {rest : List Char}
    (hrest : Separate rest) :
    run outer .wanting (p.spell.toList ++ rest) = run outer (.complete (unowned p)) rest := by
  have hspell : p.spell.toList ++ rest = marks p.ofMethod ++ (p.name.toList ++ rest) := by
    rw [Parameter.spell, String.toList_append, List.append_assoc]
    cases p.ofMethod <;> rfl
  rw [run, run, hspell, tokensFrom?_parameter h p.ofMethod hrest.word_of_head]
  cases tokensFrom? .between rest with
  | none => rfl
  | some more =>
    show parseTokens outer (.complete (.param ⟨"", String.ofList p.name.toList, p.ofMethod⟩)) more = _
    rw [String.ofList_toList]
    rfl

/-! ## Arguments -/

/-- The arguments of a reference, up to the bracket that closes it. -/
theorem run_arguments {texts : List (List Char)} {args : List TypeArg} (h : List.Forall₂ Spells texts args)
    (hne : args ≠ []) (ref : OpenRef) (outer : List OpenRef) (rest : List Char) :
    run (ref :: outer) .wanting ([',', ' '].intercalate texts ++ '>' :: rest)
      = run outer (.complete (.named ref.name (ref.args.reverse ++ args))) rest := by
  induction h generalizing ref with
  | nil => exact absurd rfl hne
  | @cons text arg texts args htext htexts ih =>
    obtain ⟨phase, hphase, hrun⟩ := htext
    cases htexts with
    | nil =>
      have hone : [',', ' '].intercalate [text] ++ '>' :: rest = text ++ '>' :: rest := by simp
      rw [hone, hrun _ _ (Separate.of_not rfl), run_closing hphase, List.reverse_cons]
    | @cons next second texts args _ _ =>
      have hmore : [',', ' '].intercalate (text :: next :: texts) ++ '>' :: rest
          = text ++ ',' :: ' ' :: ([',', ' '].intercalate (next :: texts) ++ '>' :: rest) := by
        simp [List.intercalate_cons_cons]
      rw [hmore, hrun _ _ (Separate.of_not rfl), run_comma hphase, run_blank,
        ih (List.cons_ne_nil _ _)]
      simp

theorem toList_spell_named (name : String) (arg : TypeArg) (rest : List TypeArg) :
    (TypeArg.named name (arg :: rest)).spell.toList
      = name.toList ++ '<' :: ([',', ' '].intercalate ((TypeArg.spellAll (arg :: rest)).map String.toList) ++ ['>']) := by
  rw [TypeArg.spell, TypeArg.spellAll, String.toList_append, String.toList_append, String.toList_append,
    String.toList_intercalate]
  simp

mutual

/-- **A spelled argument is parsed wherever it stands**, up to the owners of its parameters. -/
theorem spells_spell : ∀ arg : TypeArg, arg.Spellable → Spells arg.spell.toList (arg.replace unowned)
  | .param p, h => by
    rw [TypeArg.spell, TypeArg.replace]
    exact ⟨.complete (unowned p), rfl, fun outer rest hrest => run_parameter h outer hrest⟩
  | .named name [], h => by
    rw [TypeArg.spell, TypeArg.replace, TypeArg.replaceAll]
    exact ⟨.named name, rfl, fun outer rest hrest => run_name h.1 outer hrest⟩
  | .named name (arg :: rest), h => by
    rw [TypeArg.replace, toList_spell_named]
    refine ⟨.complete (.named name (TypeArg.replaceAll unowned (arg :: rest))), rfl, ?_⟩
    intro outer after _
    have hargs := spells_spellAll (arg :: rest) h.2
    have hne : TypeArg.replaceAll unowned (arg :: rest) ≠ [] := by
      rw [TypeArg.replaceAll]
      exact List.cons_ne_nil _ _
    rw [List.append_assoc, List.cons_append, List.append_assoc, List.singleton_append,
      run_name h.1 outer (Separate.of_not rfl), run_opening, run_arguments hargs hne]
    simp

theorem spells_spellAll : ∀ args : List TypeArg, SpellableAll args →
    List.Forall₂ Spells ((TypeArg.spellAll args).map String.toList) (TypeArg.replaceAll unowned args)
  | [], _ => by
    rw [TypeArg.spellAll, TypeArg.replaceAll]
    exact .nil
  | arg :: rest, h => by
    rw [TypeArg.spellAll, TypeArg.replaceAll, List.map_cons]
    exact .cons (spells_spell arg h.1) (spells_spellAll rest h.2)

end

/-- **A spelling is read as the argument that was spelled**, without the owners of its parameters. -/
theorem parse_spell {arg : TypeArg} (h : arg.Spellable) : parse arg.spell = .ok (arg.replace unowned) := by
  obtain ⟨phase, hphase, hrun⟩ := spells_spell arg h
  have hparse : parse? arg.spell = some (arg.replace unowned) := by
    have hrun := hrun [] [] trivial
    rw [List.append_nil] at hrun
    rw [parse?_eq_run, hrun]
    exact hphase
  rw [parse, hparse]

end Spelling

namespace Scope

open TypeArg (unowned)

theorem declaredName_of_mem {p : Parameter} {names : List String} (h : p.name ∈ names) :
    declaredName p names = .ok p.name := by
  rw [declaredName, if_pos (List.contains_iff_mem.mpr h)]

/-- A declared parameter gets its owner back. -/
theorem bindParameter_unowned {scope : Scope} {p : Parameter} (h : scope.Declares p) :
    scope.bindParameter ⟨"", p.name, p.ofMethod⟩ = .ok p := by
  obtain ⟨owner, name, ofMethod⟩ := p
  cases ofMethod with
  | false =>
    obtain ⟨rfl, hname⟩ : owner = scope.typeName ∧ name ∈ scope.typeParams := by simpa [Declares] using h
    rw [bindParameter, if_neg Bool.false_ne_true, declaredName_of_mem hname]
    rfl
  | true =>
    obtain ⟨howner, hname⟩ : scope.methodId = some owner ∧ name ∈ scope.methodParams := by
      simpa [Declares] using h
    rw [bindParameter, if_pos rfl, howner]
    dsimp only
    rw [declaredName_of_mem hname]
    rfl

mutual

theorem bind_unowned {scope : Scope} : ∀ arg : TypeArg, arg.Within scope →
    scope.bind (arg.replace unowned) = .ok arg
  | .param p, h => by
    have hp : scope.Declares p := h p (List.mem_singleton_self p)
    rw [TypeArg.replace, unowned, bind, bindParameter_unowned hp]
    rfl
  | .named name args, h => by
    rw [TypeArg.replace, bind, bindAll_unowned args h]
    rfl

theorem bindAll_unowned {scope : Scope} : ∀ args : List TypeArg,
    (∀ p ∈ TypeArg.occurrencesAll args, scope.Declares p) →
      scope.bindAll (TypeArg.replaceAll unowned args) = .ok args
  | [], _ => by
    rw [TypeArg.replaceAll]
    rfl
  | arg :: rest, h => by
    rw [TypeArg.replaceAll, bindAll, bind_unowned arg fun p hp => h p (List.mem_append_left _ hp),
      bindAll_unowned rest fun p hp => h p (List.mem_append_right _ hp)]
    rfl

end

/-- **In a scope that declares its parameters, a spelling means what was spelled.** -/
theorem parse_spell {scope : Scope} {arg : TypeArg} (h : arg.Spellable) (hwithin : arg.Within scope) :
    scope.parse arg.spell = .ok arg := by
  rw [parse, Spelling.parse_spell h]
  exact bind_unowned arg hwithin

theorem parseNamed_spell {scope : Scope} {ref : TypeRef} (h : ref.toArg.Spellable)
    (hwithin : ref.toArg.Within scope) : scope.parseNamed ref.spell = .ok ref := by
  rw [parseNamed, TypeRef.spell, parse_spell h hwithin]
  rfl

end Scope

end JobClosure
