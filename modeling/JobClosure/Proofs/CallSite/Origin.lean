import JobClosure.CallSite.Scan
import JobClosure.Proofs.Spelling.Scope

/-!
# Where the finds of a scan come from

Every call reference and every call site that a scan finds comes from an instruction in the body of a method
of a scanned type (`Scanner.comesFrom_scanModules`). What holds of the finds of every instruction therefore
holds of the whole scan, whatever the memory of the scanner and the order of its work.
-/

namespace JobClosure

/-- What is found comes from instructions in the bodies of some methods, each with its type. -/
structure ScanResult.ComesFrom (s : Scanner) (scanned : TypeDef → Method → Prop) (r : ScanResult) : Prop where
  calls : ∀ call ∈ r.calls, ∃ type method instruction, scanned type method ∧
    instruction.ReadIn (Scanner.scopeOf type method) ∧ ∃ ref ∈ Scanner.candidates instruction,
      call = ⟨method.id, ref.toArg, Scanner.invokedText instruction⟩
  sites : ∀ site ∈ r.callSites, ∃ type method instruction, scanned type method ∧
    instruction.ReadIn (Scanner.scopeOf type method) ∧ s.callSite? method.id instruction = some site

namespace ScanResult

variable {s : Scanner} {scanned : TypeDef → Method → Prop}

theorem ComesFrom.diagnostics (diagnostics : List Diagnostic) :
    ({ diagnostics } : ScanResult).ComesFrom s scanned :=
  ⟨fun _ h => absurd h List.not_mem_nil, fun _ h => absurd h List.not_mem_nil⟩

theorem ComesFrom.empty : ({} : ScanResult).ComesFrom s scanned := .diagnostics []

theorem ComesFrom.append {a b : ScanResult} (ha : a.ComesFrom s scanned) (hb : b.ComesFrom s scanned) :
    (a ++ b).ComesFrom s scanned := by
  constructor
  · intro call hcall
    rcases List.mem_append.mp hcall with h | h
    · exact ha.calls call h
    · exact hb.calls call h
  · intro site hsite
    rcases List.mem_append.mp hsite with h | h
    · exact ha.sites site h
    · exact hb.sites site h

theorem ComesFrom.dedupeCalls {r : ScanResult} (h : r.ComesFrom s scanned) : r.dedupeCalls.ComesFrom s scanned :=
  ⟨fun call hcall => h.calls call (mem_of_mem_distinctBy hcall), h.sites⟩

end ScanResult

namespace Scanner

variable {s : Scanner} {scanned : TypeDef → Method → Prop}

/-! ## One body -/

theorem decodeBody_readIn {type : TypeDef} {method : Method} {body : List Form}
    {instructions : List Instruction} (h : decodeBody type method body = .ok instructions) :
    ∀ instruction ∈ instructions, instruction.ReadIn (scopeOf type method) := by
  obtain ⟨decoded, hdecoded, h⟩ := bind_eq_ok h
  obtain rfl := Except.ok.inj h
  intro instruction hmem
  obtain ⟨found, hfound, rfl⟩ := List.mem_filterMap.mp hmem
  obtain ⟨form, -, hform⟩ := exists_mem_of_mem_mapM hdecoded _ hfound
  exact Instruction.decode_readIn hform

theorem mem_of_mem_openJobs {memo : Index.Memo} {refs : List TypeRef} {ref : TypeRef}
    (h : ref ∈ (s.openJobs memo refs).1) : ref ∈ refs := by
  induction refs generalizing memo with
  | nil => exact h
  | cons first rest ih =>
    rw [openJobs] at h
    dsimp only at h
    split at h
    · rcases List.mem_cons.mp h with rfl | h
      · exact List.mem_cons_self
      · exact List.mem_cons_of_mem _ (ih h)
    · exact List.mem_cons_of_mem _ (ih h)

theorem mem_of_mem_bindInOrder {parameters : List Parameter} {args : List TypeArg}
    {pair : Parameter × TypeArg} (h : pair ∈ bindInOrder parameters args) : pair.1 ∈ parameters ∧ pair.2 ∈ args := by
  unfold bindInOrder at h
  split at h
  · exact List.of_mem_zip h
  · exact absurd h List.not_mem_nil

theorem comesFrom_scanInstruction {type : TypeDef} {method : Method} {instruction : Instruction}
    (hscanned : scanned type method) (hread : instruction.ReadIn (scopeOf type method)) (memo : Index.Memo) :
    (s.scanInstruction memo method.id instruction).1.ComesFrom s scanned := by
  constructor
  · intro call hcall
    obtain ⟨ref, href, rfl⟩ := List.mem_map.mp hcall
    exact ⟨type, method, instruction, hscanned, hread, ref, mem_of_mem_openJobs href, rfl⟩
  · intro site hsite
    exact ⟨type, method, instruction, hscanned, hread, Option.mem_toList.mp hsite⟩

theorem comesFrom_scanInstructions {type : TypeDef} {method : Method} {instructions : List Instruction}
    (hscanned : scanned type method)
    (hread : ∀ instruction ∈ instructions, instruction.ReadIn (scopeOf type method)) (memo : Index.Memo) :
    (s.scanInstructions memo method.id instructions).1.ComesFrom s scanned := by
  induction instructions generalizing memo with
  | nil => exact .empty
  | cons first rest ih =>
    have hfirst := comesFrom_scanInstruction (s := s) hscanned (hread first List.mem_cons_self) memo
    exact hfirst.append (ih (fun i hi => hread i (List.mem_cons_of_mem _ hi)) _)

theorem comesFrom_scanMethod {type : TypeDef} {memo memo' : Index.Memo} {method : Method} {r : ScanResult}
    (hscanned : scanned type method) (h : s.scanMethod type memo method = .ok (r, memo')) :
    r.ComesFrom s scanned := by
  unfold scanMethod at h
  split at h
  · obtain ⟨rfl, -⟩ := Prod.mk.inj (Except.ok.inj h)
    exact .empty
  · split at h
    · rename_i instructions hdecoded
      have hfinds := comesFrom_scanInstructions (s := s) hscanned (decodeBody_readIn hdecoded) memo
      rw [Except.ok.inj h] at hfinds
      exact hfinds
    · obtain ⟨rfl, -⟩ := Prod.mk.inj (Except.ok.inj h)
      exact .diagnostics _
    · exact nomatch h

/-! ## The whole scan -/

theorem comesFrom_scanMethods {type : TypeDef} {methods : List Method}
    (hscanned : ∀ method ∈ methods, scanned type method) :
    ∀ {memo memo' : Index.Memo} {r : ScanResult},
      s.scanMethods type memo methods = .ok (r, memo') → r.ComesFrom s scanned := by
  induction methods with
  | nil =>
    intro memo memo' r h
    obtain ⟨rfl, -⟩ := Prod.mk.inj (Except.ok.inj h)
    exact .empty
  | cons method rest ih =>
    intro memo memo' r h
    rw [scanMethods] at h
    obtain ⟨⟨first, memo₁⟩, hfirst, h⟩ := bind_eq_ok h
    obtain ⟨⟨more, memo₂⟩, hmore, h⟩ := bind_eq_ok h
    obtain ⟨rfl, -⟩ := Prod.mk.inj (Except.ok.inj h)
    have hrest := ih (fun m hm => hscanned m (List.mem_cons_of_mem _ hm)) hmore
    exact (comesFrom_scanMethod (hscanned method List.mem_cons_self) hfirst).append hrest

theorem comesFrom_scanTypes {types : List TypeDef}
    (hscanned : ∀ type ∈ types, ∀ method ∈ type.methods, scanned type method) :
    ∀ {state : ScanState} {r : ScanResult}, (s.scanTypes state types).1 = .ok r → r.ComesFrom s scanned := by
  induction types with
  | nil =>
    intro state r h
    obtain rfl := Except.ok.inj h
    exact .empty
  | cons type rest ih =>
    intro state r h
    rw [scanTypes] at h
    split at h
    · exact nomatch h
    · split at h
      · exact nomatch h
      · rename_i first memo hfirst
        obtain ⟨more, hmore, rfl⟩ := map_eq_ok h
        have hrest := ih (fun t ht => hscanned t (List.mem_cons_of_mem _ ht)) hmore
        exact (comesFrom_scanMethods (hscanned type List.mem_cons_self) hfirst).append hrest

theorem comesFrom_scanEach {modules : List Module}
    (hscanned : ∀ m ∈ modules, ∀ type ∈ s.index.typesOf m, ∀ method ∈ type.methods, scanned type method) :
    ∀ {state : ScanState} {r : ScanResult}, (s.scanEach state modules).1 = .ok r → r.ComesFrom s scanned := by
  induction modules with
  | nil =>
    intro state r h
    obtain rfl := Except.ok.inj h
    exact .empty
  | cons m rest ih =>
    intro state r h
    rw [scanEach] at h
    split at h
    · exact nomatch h
    · rename_i first _ hfirst
      obtain ⟨more, hmore, rfl⟩ := map_eq_ok h
      obtain ⟨found, hfound, rfl⟩ := map_eq_ok (congrArg Prod.fst hfirst)
      have hfinds := comesFrom_scanTypes (hscanned m List.mem_cons_self) hfound
      have hrest := ih (fun m' hm' => hscanned m' (List.mem_cons_of_mem _ hm')) hmore
      exact hfinds.dedupeCalls.append hrest

/-- **Everything that is found** comes from a method of a type that the index holds for a scanned module. -/
theorem comesFrom_scanModules {modules : List Module} {state : ScanState} {r : ScanResult}
    (h : (s.scanModules state modules).1 = .ok r) :
    r.ComesFrom s fun type method => (∃ m ∈ modules, type ∈ s.index.typesOf m) ∧ method ∈ type.methods := by
  obtain ⟨found, hfound, rfl⟩ := map_eq_ok h
  refine (comesFrom_scanEach ?_ hfound).dedupeCalls
  exact fun m hm type htype method hmethod => ⟨⟨m, hm, htype⟩, hmethod⟩

end Scanner

end JobClosure
