import JobClosure.Proofs.CallSite.Graph
import JobClosure.Proofs.CallSite.Origin
import JobClosure.Proofs.Instantiation.Answer
import JobClosure.Proofs.Spelling.Parsed

/-!
# Instantiations and their spellings

Instantiations are sorted by their spellings. That puts a set of them in one definite order only if no two
of them are spelled the same. Closed references are not if they are made of names of the grammar
(`TypeArg.eq_of_spell_eq`), because then a spelling can be parsed. What a scan finds is parsed itself, and a
walk puts nothing together that is not made of what was found, so every end of a route is made of such names
(`ScanResult.Grammatical.of_route`).
-/

namespace JobClosure

namespace TypeArg

/-- **Closed references are told apart by their spellings.** -/
theorem eq_of_spell_eq {a b : TypeArg} (ha : a.Grammatical) (hb : b.Grammatical) (haclosed : a.isOpen = false)
    (hbclosed : b.isOpen = false) (h : a.spell = b.spell) : a = b := by
  have hparse : ∀ arg : TypeArg, arg.Grammatical → arg.isOpen = false → Spelling.parse arg.spell = .ok arg := by
    intro arg hnames hclosed
    have hspellable : arg.Spellable := by
      refine (spellable_iff arg).mpr ⟨hnames, fun p hp => ?_⟩
      rw [(isOpen_eq_false_iff arg).mp hclosed] at hp
      exact absurd hp List.not_mem_nil
    rw [Spelling.parse_spell hspellable, replace_of_closed hclosed]
  have hsame := hparse a ha haclosed
  rw [h, hparse b hb hbclosed] at hsame
  exact (Except.ok.inj hsame).symm

theorem grammaticalAll_iff {args : List TypeArg} : GrammaticalAll args ↔ ∀ arg ∈ args, arg.Grammatical := by
  induction args with
  | nil => simp [GrammaticalAll]
  | cons arg rest ih => rw [GrammaticalAll, ih, List.forall_mem_cons]

mutual

theorem grammatical_of_nested {ref : TypeRef} :
    ∀ arg : TypeArg, arg.Grammatical → ref ∈ arg.nested → ref.toArg.Grammatical
  | .param p, _, h => absurd h List.not_mem_nil
  | .named _ args, hnames, h => by
    rcases List.mem_cons.mp h with rfl | h
    · exact hnames
    · exact grammatical_of_nestedAll args hnames.2 h

theorem grammatical_of_nestedAll {ref : TypeRef} :
    ∀ args : List TypeArg, GrammaticalAll args → ref ∈ nestedAll args → ref.toArg.Grammatical
  | [], _, h => absurd h List.not_mem_nil
  | arg :: rest, hnames, h => by
    rcases List.mem_append.mp h with h | h
    · exact grammatical_of_nested arg hnames.1 h
    · exact grammatical_of_nestedAll rest hnames.2 h

end

mutual

theorem Grammatical.replace {f : Parameter → TypeArg} (hf : ∀ p, (f p).Grammatical) :
    ∀ arg : TypeArg, arg.Grammatical → (arg.replace f).Grammatical
  | .param p, _ => hf p
  | .named _ args, h => ⟨h.1, GrammaticalAll.replaceAll hf args h.2⟩

theorem GrammaticalAll.replaceAll {f : Parameter → TypeArg} (hf : ∀ p, (f p).Grammatical) :
    ∀ args : List TypeArg, GrammaticalAll args → GrammaticalAll (TypeArg.replaceAll f args)
  | [], _ => trivial
  | arg :: rest, h => ⟨Grammatical.replace hf arg h.1, GrammaticalAll.replaceAll hf rest h.2⟩

end

theorem Grammatical.subst {bindings : Bindings} (hbindings : ∀ pair ∈ bindings, pair.2.Grammatical)
    {arg : TypeArg} (h : arg.Grammatical) : (arg.subst bindings).Grammatical := by
  rw [subst_eq_replace]
  refine Grammatical.replace (fun p => ?_) arg h
  unfold Bindings.apply
  cases hp : bindings.get? p with
  | none => trivial
  | some bound => exact hbindings _ (Bindings.mem_of_get? hp)

end TypeArg

/-! ## What a scan finds -/

/-- What is found is made of names of the grammar. -/
structure ScanResult.Grammatical (r : ScanResult) : Prop where
  calls : ∀ call ∈ r.calls, call.target.Grammatical
  sites : ∀ site ∈ r.callSites, ∀ pair ∈ site.bindings, pair.2.Grammatical

namespace Scanner

variable {s : Scanner} {caller : MethodId} {instruction : Instruction}

/-- A call site binds arguments of the operand and type arguments of its instruction. -/
theorem mem_operands_of_callSite? {site : CallSite} (h : s.callSite? caller instruction = some site) :
    ∀ pair ∈ site.bindings, pair.2 ∈ instruction.declaringType.args ∨ pair.2 ∈ instruction.typeArguments := by
  unfold callSite? at h
  split at h
  · exact nomatch h
  · obtain rfl := Option.some.inj h
    intro pair hpair
    rcases List.mem_append.mp hpair with hpair | hpair
    · split at hpair
      · exact .inl (mem_of_mem_bindInOrder hpair).2
      · exact absurd hpair List.not_mem_nil
    · exact .inr (mem_of_mem_bindInOrder hpair).2

end Scanner

theorem Instruction.ReadIn.grammatical {scope : Scope} {instruction : Instruction} (h : instruction.ReadIn scope) :
    ∀ arg ∈ instruction.declaringType.toArg :: instruction.typeArguments, arg.Grammatical := by
  intro arg harg
  obtain ⟨text, htext⟩ := h arg harg
  exact Scope.parse_grammatical htext

namespace ScanResult

/-- **What comes from instructions** is made of names of the grammar. -/
theorem ComesFrom.grammatical {s : Scanner} {scanned : TypeDef → Method → Prop} {r : ScanResult}
    (h : r.ComesFrom s scanned) : r.Grammatical := by
  constructor
  · intro call hcall
    obtain ⟨type, method, instruction, -, hread, ref, href, rfl⟩ := h.calls call hcall
    obtain ⟨arg, harg, hnested⟩ := List.mem_flatMap.mp href
    exact TypeArg.grammatical_of_nested arg (hread.grammatical arg harg) hnested
  · intro site hsite pair hpair
    obtain ⟨type, method, instruction, -, hread, hsite⟩ := h.sites site hsite
    rcases Scanner.mem_operands_of_callSite? hsite pair hpair with harg | harg
    · have hoperand := hread.grammatical _ List.mem_cons_self
      exact TypeArg.grammaticalAll_iff.mp hoperand.2 _ harg
    · exact hread.grammatical _ (List.mem_cons_of_mem _ harg)

/-- **The end of every route** is made of names of the grammar. -/
theorem Grammatical.of_route {r : ScanResult} (h : r.Grammatical) {n : Node} {keys : List WalkKey} {ref : TypeRef}
    (hroute : (CallGraph.ofSites r.callSites).Route n keys ref) (hn : n.1.Grammatical) : ref.toArg.Grammatical := by
  induction hroute with
  | closed hend =>
    rw [← (TypeArg.closed?_eq_some_iff.mp hend).2]
    exact hn
  | step hlead _ ih =>
    obtain ⟨-, site, hsite, rfl, -⟩ := hlead
    exact ih (TypeArg.Grammatical.subst (h.sites site (CallGraph.mem_callersOf_ofSites.mp hsite).1) hn)

end ScanResult

end JobClosure
