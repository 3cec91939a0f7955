import JobClosure.Instruction
import JobClosure.Proofs.Except

/-!
# Parameters of a scope

Every parameter in an argument that is parsed in a scope is declared there, by its type or by its method
(`Scope.parse_within`). The operand and the type arguments of an instruction that is decoded from a body are
parsed in the scope of the body (`Instruction.decode_readIn`), so the same holds of them.
-/

namespace JobClosure

/-- A parameter is one of those that the scope's type or its method declares. -/
def Scope.Declares (scope : Scope) (p : Parameter) : Prop :=
  if p.ofMethod then scope.methodId = some p.owner ∧ p.name ∈ scope.methodParams
  else p.owner = scope.typeName ∧ p.name ∈ scope.typeParams

/-- Every parameter that occurs is declared in the scope. -/
def TypeArg.Within (scope : Scope) (arg : TypeArg) : Prop := ∀ p ∈ arg.occurrences, scope.Declares p

/-- The operand and the type arguments are what some texts spell in the scope. -/
def Instruction.ReadIn (scope : Scope) (instruction : Instruction) : Prop :=
  ∀ arg ∈ instruction.declaringType.toArg :: instruction.typeArguments, ∃ text, scope.parse text = .ok arg

namespace Scope

theorem mem_of_declaredName {p : Parameter} {names : List String} {name : String}
    (h : declaredName p names = .ok name) : name ∈ names := by
  unfold declaredName at h
  split at h
  · rename_i hnamed
    obtain rfl : p.name = name := Except.ok.inj h
    exact List.contains_iff_mem.mp hnamed
  · split at h
    · obtain ⟨position, -, h⟩ := bind_eq_ok h
      cases hget : names[position.toNat]? with
      | none => simp [hget] at h
      | some found =>
        simp only [hget, Except.ok.injEq] at h
        exact h ▸ List.mem_of_getElem? hget
    · exact nomatch h

theorem bindParameter_declares {scope : Scope} {p q : Parameter} (h : scope.bindParameter p = .ok q) :
    scope.Declares q := by
  unfold bindParameter at h
  split at h
  · cases hmethod : scope.methodId with
    | none => simp [hmethod] at h
    | some owner =>
      rw [hmethod] at h
      obtain ⟨name, hname, h⟩ := bind_eq_ok h
      obtain rfl := Except.ok.inj h
      exact ⟨hmethod, mem_of_declaredName hname⟩
  · obtain ⟨name, hname, h⟩ := bind_eq_ok h
    obtain rfl := Except.ok.inj h
    exact ⟨rfl, mem_of_declaredName hname⟩

mutual

theorem bind_within {scope : Scope} : ∀ (arg : TypeArg) {bound : TypeArg},
    scope.bind arg = .ok bound → bound.Within scope
  | .param p, bound, h => by
    -- the parameter as it was written plays no part: its owner and its name are the scope's
    rw [bind] at h
    obtain ⟨q, hq, h⟩ := bind_eq_ok h
    obtain rfl : .param q = bound := Except.ok.inj h
    intro p' hp'
    obtain rfl := List.mem_singleton.mp hp'
    exact bindParameter_declares hq
  | .named name args, bound, h => by
    rw [bind] at h
    obtain ⟨bounds, hbounds, h⟩ := bind_eq_ok h
    obtain rfl : .named name bounds = bound := Except.ok.inj h
    exact bindAll_within args hbounds

theorem bindAll_within {scope : Scope} : ∀ (args : List TypeArg) {bounds : List TypeArg},
    scope.bindAll args = .ok bounds → ∀ p ∈ TypeArg.occurrencesAll bounds, scope.Declares p
  | [], bounds, h => by
    rw [bindAll] at h
    obtain rfl : [] = bounds := Except.ok.inj h
    intro p hp
    exact absurd hp List.not_mem_nil
  | arg :: rest, bounds, h => by
    rw [bindAll] at h
    obtain ⟨first, hfirst, h⟩ := bind_eq_ok h
    obtain ⟨more, hmore, h⟩ := bind_eq_ok h
    obtain rfl : first :: more = bounds := Except.ok.inj h
    intro p hp
    rcases List.mem_append.mp hp with hp | hp
    · exact bind_within arg hfirst p hp
    · exact bindAll_within rest hmore p hp

end

/-- **Parameters of a spelling are declared where it stands.** -/
theorem parse_within {scope : Scope} {text : String} {arg : TypeArg} (h : scope.parse text = .ok arg) :
    arg.Within scope := by
  obtain ⟨unbound, -, h⟩ := bind_eq_ok h
  exact bind_within unbound h

end Scope

namespace Instruction

variable {scope : Scope}

theorem parse_of_spelled {text : String} {arg : TypeArg} (h : spelled scope text = .ok arg) :
    ∃ text, scope.parse text = .ok arg :=
  ⟨text, mapError_eq_ok h⟩

theorem parse_of_owner {form : Form} {ref : TypeRef} (h : owner scope form = .ok ref) :
    ∃ text, scope.parse text = .ok ref.toArg := by
  unfold owner at h
  split at h
  · exact nomatch h
  · obtain ⟨arg, harg, h⟩ := bind_eq_ok h
    cases arg with
    | param p => exact nomatch h
    | named name args =>
      obtain rfl : ⟨name, args⟩ = ref := Except.ok.inj h
      exact parse_of_spelled harg

theorem construct_readIn {type : Form} {signature : Option Form} {instruction : Instruction}
    (h : decodeConstruction.construct scope type signature = .ok instruction) :
    instruction.ReadIn scope := by
  obtain ⟨parameters, -, h⟩ := bind_eq_ok h
  obtain ⟨ref, href, h⟩ := bind_eq_ok h
  obtain rfl := Except.ok.inj h
  intro arg harg
  obtain rfl := List.mem_singleton.mp harg
  exact parse_of_owner href

theorem call_readIn {opcode : String} {form type name : Form} {arguments signature : Option Form}
    {instruction : Instruction}
    (h : decodeCall.call scope opcode form type name arguments signature = .ok instruction) :
    instruction.ReadIn scope := by
  unfold decodeCall.call at h
  split at h
  · exact nomatch h
  · obtain ⟨spellings, -, h⟩ := bind_eq_ok h
    obtain ⟨typeArguments, hargs, h⟩ := bind_eq_ok h
    obtain ⟨parameters, -, h⟩ := bind_eq_ok h
    obtain ⟨ref, href, h⟩ := bind_eq_ok h
    obtain rfl := Except.ok.inj h
    intro arg harg
    rcases List.mem_cons.mp harg with rfl | harg
    · exact parse_of_owner href
    · obtain ⟨text, -, htext⟩ := exists_mem_of_mem_mapM hargs arg harg
      exact parse_of_spelled htext

theorem decodeConstruction_readIn {form : Form} {operands : List Form} {instruction : Instruction}
    (h : decodeConstruction scope form operands = .ok instruction) : instruction.ReadIn scope := by
  unfold decodeConstruction at h
  split at h
  · exact construct_readIn h
  · exact construct_readIn h
  · exact nomatch h

theorem decodeCall_readIn {opcode : String} {form : Form} {operands : List Form}
    {instruction : Instruction} (h : decodeCall scope opcode form operands = .ok instruction) :
    instruction.ReadIn scope := by
  unfold decodeCall at h
  split at h
  · exact call_readIn h
  · exact call_readIn h
  · exact call_readIn h
  · exact nomatch h

/-- **An instruction is read in the scope of its body.** -/
theorem decode_readIn {form : Form} {instruction : Instruction}
    (h : decode scope form = .ok (some instruction)) : instruction.ReadIn scope := by
  unfold decode at h
  split at h
  · split at h
    · obtain ⟨decoded, hdecoded, hsome⟩ := map_eq_ok h
      obtain rfl := Option.some.inj hsome
      exact decodeConstruction_readIn hdecoded
    · split at h
      · obtain ⟨decoded, hdecoded, hsome⟩ := map_eq_ok h
        obtain rfl := Option.some.inj hsome
        exact decodeCall_readIn hdecoded
      · exact nomatch h
  · exact nomatch h

end Instruction

end JobClosure
