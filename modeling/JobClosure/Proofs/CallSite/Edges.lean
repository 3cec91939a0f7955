import JobClosure.Proofs.CallSite.JobCalls
import Mathlib

/-!
# The edges of a call graph

A scan of any kind, whatever it remembers and whether or not it can be cancelled, finds the call sites of its types
in order (`Scanner.callSites_scanModules`). A call site records a call by an instruction (`CallSite.Records`): its
caller is the method of the body, its callee is the overload that the instruction chooses, and it binds the parameters
of the callee's type to the arguments of the declaring type, and those of the callee to the type arguments.

Each of the two groups is bound by position or not at all (`Bindings.Positional`). The groups do not get into each
other's way, since a parameter of a type is never one of a method. That the type which the instruction names is the
one that the callee is said to be declared by is where it matters that the modules were read
(`Scanner.scanModules_records`).
-/

namespace JobClosure

/-! ## Groups of bindings -/

namespace Bindings

/-- Distinct parameters that are bound in order get the arguments of their positions. -/
theorem get?_zip {parameters : List Parameter} {args : List TypeArg} (hnodup : parameters.Nodup)
    (hlength : parameters.length = args.length) (i : Nat) (hi : i < parameters.length) :
    Bindings.get? (parameters.zip args) parameters[i] = args[i]? := by
  induction parameters generalizing args i with
  | nil => exact absurd hi (Nat.not_lt_zero i)
  | cons p parameters ih =>
    obtain ⟨hnot, hnodup⟩ := List.nodup_cons.mp hnodup
    cases args with
    | nil => exact nomatch hlength
    | cons arg args =>
      show ((Bindings.get? (parameters.zip args) _).or (if p = _ then some arg else none)) = _
      cases i with
      | zero =>
        have hrest : Bindings.get? (parameters.zip args) p = none :=
          get?_eq_none_iff.mpr fun pair hpair heq => hnot (heq ▸ (List.of_mem_zip hpair).1)
        rw [List.getElem_cons_zero, hrest, if_pos rfl]
        rfl
      | succ i =>
        have hi : i < parameters.length := Nat.lt_of_succ_lt_succ hi
        rw [List.getElem_cons_succ, ih hnodup (Nat.succ.inj hlength) i hi, List.getElem?_cons_succ,
          if_neg fun heq : p = parameters[i] => hnot (heq ▸ List.getElem_mem hi), Option.or_none]

/-- The parameters of some names are bound to arguments by their positions, or none of them is bound. -/
structure Positional (bindings : Bindings) (parameter : String → Parameter) (names : List String)
    (args : List TypeArg) : Prop where
  inOrder : names.Nodup → names.length = args.length →
    ∀ (i : Nat) (hi : i < names.length), bindings.get? (parameter names[i]) = args[i]?
  unbound : names.length ≠ args.length → ∀ pair ∈ bindings, ∀ name, pair.1 ≠ parameter name

variable {parameter other : String → Parameter} {names others : List String} {args : List TypeArg}

/-- **A group is bound by position** next to bindings of other parameters. -/
theorem positional_of_bindInOrder (before after : Bindings) (hinjective : Function.Injective parameter)
    (hbefore : ∀ pair ∈ before, ∀ name, pair.1 ≠ parameter name)
    (hafter : ∀ pair ∈ after, ∀ name, pair.1 ≠ parameter name) :
    Positional (before ++ Scanner.bindInOrder (names.map parameter) args ++ after) parameter names args := by
  constructor
  · intro hnodup hlength i hi
    have hlengths : (names.map parameter).length = args.length := by rwa [List.length_map]
    have hposition : i < (names.map parameter).length := by rwa [List.length_map]
    have hzip := get?_zip (hnodup.map hinjective) hlengths i hposition
    rw [List.getElem_map] at hzip
    rw [get?_append, get?_append, get?_eq_none_iff.mpr fun pair hpair => hafter pair hpair names[i],
      get?_eq_none_iff.mpr fun pair hpair => hbefore pair hpair names[i], Scanner.bindInOrder, if_pos hlengths, hzip,
      Option.or_none]
    rfl
  · intro hlength pair hpair name
    rw [Scanner.bindInOrder, List.length_map, if_neg hlength, List.append_nil] at hpair
    rcases List.mem_append.mp hpair with hpair | hpair
    · exact hbefore pair hpair name
    · exact hafter pair hpair name

end Bindings

theorem TypeDef.parameter_injective (type : TypeDef) : Function.Injective type.parameter :=
  fun _ _ h => (Parameter.mk.inj h).2.1

theorem Method.parameter_injective (method : Method) : Function.Injective method.parameter :=
  fun _ _ h => (Parameter.mk.inj h).2.1

theorem TypeDef.parameter_ne (type : TypeDef) (method : Method) (name name' : String) :
    type.parameter name ≠ method.parameter name' :=
  fun h => Bool.false_ne_true (Parameter.mk.inj h).2.2

/-! ## What a call site records -/

/-- A call site records the call of an instruction in the body of `method` to `callee`, which `owner` declares. -/
structure CallSite.Records (site : CallSite) (ix : Index) (type : TypeDef) (method : Method) (instruction : Instruction)
    (owner : TypeDef) (callee : Method) : Prop where
  fromMethod : site.caller = method.id
  toCallee : site.callee = callee.id
  /-- The callee is the best overload on the type that the instruction names. -/
  chosen : ix.findMethod (.ref instruction.declaringType) instruction.method instruction.parameters
    (some instruction.typeArguments.length) = .ok callee
  named : ix.type? instruction.declaringType.name = some owner
  declared : callee ∈ owner.methods ∧ callee.id.declaringType = owner.fullName
  /-- What is bound belongs to the callee or to its type. -/
  bound : ∀ pair ∈ site.bindings,
    pair.1 ∈ owner.genericParams.map owner.parameter ∨ pair.1 ∈ callee.genericParams.map callee.parameter
  /-- What it is bound to is in terms of the caller and its type. -/
  within : ∀ pair ∈ site.bindings, pair.2.Within (Scanner.scopeOf type method)
  ofType : site.bindings.Positional owner.parameter owner.genericParams instruction.declaringType.args
  ofMethod : site.bindings.Positional callee.parameter callee.genericParams instruction.typeArguments

namespace Scanner

variable {s : Scanner} {memo memo' : Index.Memo} {type owner : TypeDef} {method callee : Method}
  {instruction : Instruction} {site : CallSite}

/-- The bindings of a call whose callee is said to be declared by the type that the instruction names. -/
theorem exists_callee_of_callSite? {caller : MethodId}
    (hown : ∀ name type, s.index.type? name = some type → type.HoldsOwnMethods)
    (h : s.callSite? caller instruction = some site) :
    ∃ owner callee, s.index.findMethod (.ref instruction.declaringType) instruction.method instruction.parameters
        (some instruction.typeArguments.length) = .ok callee ∧
      s.index.type? instruction.declaringType.name = some owner ∧ callee ∈ owner.methods ∧
      site = ⟨caller, callee.id, bindInOrder (owner.genericParams.map owner.parameter) instruction.declaringType.args ++
        bindInOrder (callee.genericParams.map callee.parameter) instruction.typeArguments⟩ := by
  unfold callSite? at h
  split at h
  · exact nomatch h
  · rename_i callee hcallee
    obtain ⟨owner, howner, hmem⟩ := Index.exists_type_of_findMethod hcallee
    have howner : s.index.type? instruction.declaringType.name = some owner := howner
    have hdeclaring : s.index.declaringType? callee = some owner := by
      rw [Index.declaringType?, hown _ owner howner callee hmem, Index.fullName_of_type? howner, howner]
    rw [hdeclaring] at h
    exact ⟨owner, callee, hcallee, howner, hmem, (Option.some.inj h).symm⟩

/-- **What one instruction records.** -/
theorem records_of_callSite? (hown : ∀ name type, s.index.type? name = some type → type.HoldsOwnMethods)
    (hinstruction : instruction ∈ method.instructions type) (h : s.callSite? method.id instruction = some site) :
    ∃ owner callee, site.Records s.index type method instruction owner callee := by
  obtain ⟨owner, callee, hchosen, howner, hmem, rfl⟩ := exists_callee_of_callSite? hown h
  have hwithin : ∀ arg ∈ instruction.declaringType.toArg :: instruction.typeArguments,
      arg.Within (scopeOf type method) := by
    intro arg harg
    obtain ⟨text, htext⟩ := readIn_of_mem_instructions hinstruction arg harg
    exact Scope.parse_within htext
  have hgroups : ∀ pair ∈ bindInOrder (owner.genericParams.map owner.parameter) instruction.declaringType.args ++
      bindInOrder (callee.genericParams.map callee.parameter) instruction.typeArguments,
      (pair.1 ∈ owner.genericParams.map owner.parameter ∨ pair.1 ∈ callee.genericParams.map callee.parameter) ∧
        pair.2.Within (scopeOf type method) := by
    intro pair hpair
    rcases List.mem_append.mp hpair with hpair | hpair
    · obtain ⟨hparameter, harg⟩ := mem_of_mem_bindInOrder hpair
      exact ⟨.inl hparameter, fun p hp =>
        hwithin _ List.mem_cons_self p (TypeArg.occurrences_subset_of_mem harg hp)⟩
    · obtain ⟨hparameter, harg⟩ := mem_of_mem_bindInOrder hpair
      exact ⟨.inr hparameter, hwithin _ (List.mem_cons_of_mem _ harg)⟩
  -- a parameter of the one group is none of the other
  have htypes : ∀ pair ∈ bindInOrder (owner.genericParams.map owner.parameter) instruction.declaringType.args,
      ∀ name, pair.1 ≠ callee.parameter name := by
    intro pair hpair name
    obtain ⟨declared, -, hdeclared⟩ := List.mem_map.mp (mem_of_mem_bindInOrder hpair).1
    exact hdeclared ▸ owner.parameter_ne callee declared name
  have hmethods : ∀ pair ∈ bindInOrder (callee.genericParams.map callee.parameter) instruction.typeArguments,
      ∀ name, pair.1 ≠ owner.parameter name := by
    intro pair hpair name
    obtain ⟨declared, -, hdeclared⟩ := List.mem_map.mp (mem_of_mem_bindInOrder hpair).1
    exact hdeclared ▸ (owner.parameter_ne callee name declared).symm
  exact ⟨owner, callee, {
    fromMethod := rfl
    toCallee := rfl
    chosen := hchosen
    named := howner
    declared := ⟨hmem, hown _ owner howner callee hmem⟩
    bound := fun pair hpair => (hgroups pair hpair).1
    within := fun pair hpair => (hgroups pair hpair).2
    ofType := Bindings.positional_of_bindInOrder [] _ owner.parameter_injective nofun hmethods
    ofMethod := by
      rw [← List.append_nil (_ ++ _)]
      exact Bindings.positional_of_bindInOrder _ [] callee.parameter_injective htypes nofun }⟩

/-! ## The call sites of a scan -/

theorem callSites_scanMethod {found : ScanResult} (h : s.scanMethod type memo method = .ok (found, memo')) :
    found.callSites = (method.instructions type).filterMap (s.callSite? method.id) := by
  revert h
  rw [scanMethod, Method.instructions]
  cases method.body with
  | none =>
    intro h
    obtain ⟨rfl, -⟩ := Prod.mk.inj (Except.ok.inj h)
    rfl
  | some body =>
    dsimp only
    cases decodeBody type method body with
    | ok instructions =>
      intro h
      obtain rfl := congrArg Prod.fst (Except.ok.inj h)
      exact callSites_scanInstructions s memo method.id instructions
    | error fault =>
      cases fault with
      | body fault =>
        intro h
        obtain ⟨rfl, -⟩ := Prod.mk.inj (Except.ok.inj h)
        rfl
      | position =>
        intro h
        cases h

theorem callSites_scanMethods {methods : List Method} {found : ScanResult}
    (h : s.scanMethods type memo methods = .ok (found, memo')) : found.callSites =
      methods.flatMap fun method => (method.instructions type).filterMap (s.callSite? method.id) := by
  induction methods generalizing memo found with
  | nil =>
    obtain ⟨rfl, -⟩ := Prod.mk.inj (Except.ok.inj h)
    rfl
  | cons method rest ih =>
    rw [scanMethods] at h
    obtain ⟨⟨first, memo₁⟩, hfirst, h⟩ := bind_eq_ok h
    obtain ⟨⟨more, memo₂⟩, hmore, h⟩ := bind_eq_ok h
    obtain ⟨rfl, rfl⟩ := Prod.mk.inj (Except.ok.inj h)
    show first.callSites ++ more.callSites = _
    rw [callSites_scanMethod hfirst, ih hmore, List.flatMap_cons]

theorem callSites_scanTypes {types : List TypeDef} {state : ScanState} {found : ScanResult}
    (h : (s.scanTypes state types).1 = .ok found) : found.callSites = types.flatMap s.sitesIn := by
  induction types generalizing state found with
  | nil =>
    obtain rfl := Except.ok.inj h
    rfl
  | cons type rest ih =>
    rw [scanTypes] at h
    split at h
    · cases h
    · split at h
      · cases h
      · rename_i first memo hfirst
        obtain ⟨more, hmore, rfl⟩ := map_eq_ok h
        show first.callSites ++ more.callSites = _
        rw [callSites_scanMethods hfirst, ih hmore, List.flatMap_cons]
        rfl

theorem callSites_scanEach {modules : List Module} {state : ScanState} {found : ScanResult}
    (h : (s.scanEach state modules).1 = .ok found) :
    found.callSites = modules.flatMap fun m => (s.index.typesOf m).flatMap s.sitesIn := by
  induction modules generalizing state found with
  | nil =>
    obtain rfl := Except.ok.inj h
    rfl
  | cons m rest ih =>
    rw [scanEach] at h
    split at h
    · cases h
    · rename_i first _ hfirst
      obtain ⟨more, hmore, rfl⟩ := map_eq_ok h
      obtain ⟨found, hfound, rfl⟩ := map_eq_ok (congrArg Prod.fst hfirst)
      show found.callSites ++ more.callSites = _
      rw [callSites_scanTypes hfound, ih hmore, List.flatMap_cons]

/-- **A scan finds the call sites of its types**, in the order of modules, types, methods and instructions. -/
theorem callSites_scanModules {modules : List Module} {state : ScanState} {found : ScanResult}
    (h : (s.scanModules state modules).1 = .ok found) :
    found.callSites = modules.flatMap fun m => (s.index.typesOf m).flatMap s.sitesIn := by
  obtain ⟨raw, hraw, rfl⟩ := map_eq_ok h
  show raw.callSites = _
  exact callSites_scanEach hraw

/--
**Edges are well scoped and positional.**

Let a scan over the index of modules that were read come to an end. Every call site that it finds records the call of
an instruction in the body of its caller: the callee is the overload that the instruction chooses; what is bound are
parameters of the callee and of the type that declares it, to arguments in terms of the caller and of its type; and of
either group, parameters of distinct names are bound to as many arguments by their positions, while none is bound to
fewer or more. In particular callee and caller own what occurs on the two sides.
-/
theorem scanModules_records {modules : List Module} {marker : String} {state : ScanState} {scanned : List Module}
    {found : ScanResult} (hloaded : ∀ m ∈ modules, m.Loaded)
    (h : (scanModules ⟨Index.ofModules modules, marker⟩ state scanned).1 = .ok found) :
    ∀ site ∈ found.callSites, site.Owned ∧
      ∃ m ∈ scanned, ∃ type ∈ (Index.ofModules modules).typesOf m, ∃ method ∈ type.methods,
        ∃ instruction ∈ method.instructions type, ∃ owner callee,
          site.Records (Index.ofModules modules) type method instruction owner callee := by
  intro site hsite
  refine ⟨(scanModules_owned hloaded h).sites site hsite, ?_⟩
  rw [callSites_scanModules h] at hsite
  obtain ⟨m, hm, hsite⟩ := List.mem_flatMap.mp hsite
  obtain ⟨type, htype, hsite⟩ := List.mem_flatMap.mp hsite
  obtain ⟨method, hmethod, hsite⟩ := List.mem_flatMap.mp hsite
  obtain ⟨instruction, hinstruction, hcall⟩ := List.mem_filterMap.mp hsite
  have hown : ∀ name type, (Index.ofModules modules).type? name = some type → type.HoldsOwnMethods := by
    intro name type htype
    obtain ⟨m, hm, hmem⟩ := Index.exists_module_of_type? htype
    exact (hloaded m hm).holdsOwnMethods type hmem
  exact ⟨m, hm, type, htype, method, hmethod, instruction, hinstruction, records_of_callSite? hown hinstruction hcall⟩

end Scanner

/-! A method of a type with two parameters is called with an argument for each, and with one argument too few. -/

namespace Packing

def document : String := "(module \"Demo\"
  (type \"Box\" (generic \"T\" \"S\") (method \"Put\" (generic \"U\")))
  (type \"Main\"
    (method \"Go\" (generic \"V\")
      (body (call \"Box<Int, !!V>\" \"Put\" (\"Text\")) (call \"Box<Int>\" \"Put\" (\"!!V\"))))))"

def put : Method where
  id := ⟨"Box", "Put", []⟩
  genericParams := ["U"]
  module := "Demo"

def callForm (type argument : String) : Form :=
  .list [.symbol "call", .text type, .text "Put", .list [.text argument]]

def go : Method where
  id := ⟨"Main", "Go", []⟩
  genericParams := ["V"]
  body := some [callForm "Box<Int, !!V>" "Text", callForm "Box<Int>" "!!V"]
  module := "Demo"

def types : List TypeDef :=
  [ { fullName := "Box", genericParams := ["T", "S"], methods := [put], module := "Demo" },
    { fullName := "Main", methods := [go], module := "Demo" } ]

def demo : Module := { name := "Demo", types }

set_option maxRecDepth 4000 in
theorem loaded_demo : ∀ m ∈ [demo], m.Loaded :=
  List.forall_mem_singleton.mpr (.of_characters document String.toList_ofList (by cbv))

def ofBox (name : String) : Parameter := ⟨"Box", name, false⟩

def ofGo : TypeArg := .param ⟨go.id.text, "V", true⟩

def ofPut : Parameter := ⟨put.id.text, "U", true⟩

/-- Both groups are bound. -/
def full : CallSite where
  caller := go.id
  callee := put.id
  bindings := [(ofBox "T", .named "Int" []), (ofBox "S", ofGo), (ofPut, .named "Text" [])]

/-- Only the type argument is bound. -/
def short : CallSite := ⟨go.id, put.id, [(ofPut, ofGo)]⟩

theorem scan_demo : (Scanner.scanModules ⟨Index.ofModules [demo], "job"⟩ {} [demo]).1
    = .ok { callSites := [full, short] } := by
  cbv

/-- Both calls are recorded, each with what it binds. -/
theorem records_demo : (∀ m ∈ [demo], m.Loaded) ∧
    (Scanner.scanModules ⟨Index.ofModules [demo], "job"⟩ {} [demo]).1 = .ok { callSites := [full, short] } ∧
    ∀ site ∈ [full, short], site.Owned ∧
      ∃ m ∈ [demo], ∃ type ∈ (Index.ofModules [demo]).typesOf m, ∃ method ∈ type.methods,
        ∃ instruction ∈ method.instructions type, ∃ owner callee,
          site.Records (Index.ofModules [demo]) type method instruction owner callee :=
  ⟨loaded_demo, scan_demo, Scanner.scanModules_records loaded_demo scan_demo⟩

end Packing

end JobClosure
