import JobClosure.Proofs.Index.Interfaces
import JobClosure.Proofs.Metadata.Loaded
import Mathlib

/-!
# Overloads and the table of methods

A call names a method of a type, perhaps its parameters too, and tells how many type arguments it gives. Of the
overloads that fit, the first one with as many generic parameters is taken, or else the first one
(`Index.findMethod_eq_ok_iff`). From then on the method is known by its identity alone: so the table of methods and
the call graph find it.

An identity does not say how many generic parameters a method has. Two overloads that differ in nothing else have one
identity, the search tells them apart, and the table knows the first only. Both ways lead to the same method exactly
if there are no such overloads (`Index.findMethod_agrees_iff`).
-/

namespace JobClosure

/-- Methods of the type with one identity have the same number of generic parameters. -/
def TypeDef.TellsOverloads (type : TypeDef) : Prop :=
  ∀ a ∈ type.methods, ∀ b ∈ type.methods, a.id = b.id → a.genericParams.length = b.genericParams.length

namespace Index

/-- How well a method fits a number of generic parameters. -/
def fit (arity : Option Nat) (method : Method) : Nat := if some method.genericParams.length = arity then 1 else 0

/-- The first one of the methods that fit best, after some `earlier` ones. -/
structure FirstBest (arity : Option Nat) (candidates earlier : List Method) (method : Method) : Prop where
  declared : ∃ later, candidates = earlier ++ method :: later ∧ ∀ other ∈ later, fit arity other ≤ fit arity method
  better : ∀ other ∈ earlier, fit arity other < fit arity method

variable {ix : Index} {identity : Identity} {type : TypeDef} {name : String} {parameters : Option (List String)}
  {arity : Option Nat} {method : Method} {candidates earlier : List Method}

/-! ## The search -/

theorem fit_le_one (arity : Option Nat) (method : Method) : fit arity method ≤ 1 := by
  unfold fit
  split <;> omega

theorem fit_eq_one_iff : fit arity method = 1 ↔ some method.genericParams.length = arity := by
  unfold fit
  split <;> simp_all

theorem fit_eq_of_length_eq {other : Method} (h : other.genericParams.length = method.genericParams.length) :
    fit arity other = fit arity method := by
  rw [fit, fit, h]

/-- **The best of several methods** is the first one that fits best. -/
theorem bestOf_eq_some_iff : bestOf candidates arity = some method ↔ ∃ earlier, FirstBest arity candidates earlier method := by
  have hfits : ∀ other : Method, ((some other.genericParams.length == arity) = true) ↔ fit arity other = 1 :=
    fun other => beq_iff_eq.trans fit_eq_one_iff.symm
  have hless : ∀ other : Method, fit arity other ≠ 1 ↔ fit arity other = 0 := fun other => by
    have := fit_le_one arity other
    omega
  unfold bestOf
  constructor
  · intro h
    rcases Option.or_eq_some_iff.mp h with hfind | ⟨hnone, hhead⟩
    · -- one fits, and the first of these is found
      obtain ⟨hmethod, earlier, later, rfl, hearlier⟩ := List.find?_eq_some_iff_append.mp hfind
      have hmethod := (hfits method).mp hmethod
      refine ⟨earlier, ⟨later, rfl, fun other _ => hmethod ▸ fit_le_one arity other⟩, fun other hother => ?_⟩
      have hother : fit arity other ≠ 1 := fun hone => by
        have hnot := hearlier other hother
        rw [(hfits other).mpr hone] at hnot
        exact nomatch hnot
      rw [hmethod, (hless other).mp hother]
      exact Nat.zero_lt_one
    · -- none fits, so all fit equally badly and the first candidate is taken
      have hother : ∀ other ∈ candidates, fit arity other = 0 := fun other hmem =>
        (hless other).mp fun hone => List.find?_eq_none.mp hnone other hmem ((hfits other).mpr hone)
      obtain ⟨later, rfl⟩ := List.head?_eq_some_iff.mp hhead
      refine ⟨[], ⟨later, rfl, fun other hmem => ?_⟩, nofun⟩
      rw [hother other (List.mem_cons_of_mem method hmem)]
      exact Nat.zero_le _
  · rintro ⟨earlier, ⟨later, rfl, hlater⟩, hearlier⟩
    by_cases hmethod : fit arity method = 1
    · refine Option.or_eq_some_iff.mpr (.inl (List.find?_eq_some_iff_append.mpr ⟨(hfits method).mpr hmethod, ?_⟩))
      refine ⟨earlier, later, rfl, fun other hother => ?_⟩
      have := hearlier other hother
      simp only [Bool.not_eq_true', ← Bool.not_eq_true, hfits]
      omega
    · -- nothing fits, so nothing can stand before the method
      have hzero := (hless method).mp hmethod
      have hnothing : earlier = [] := List.eq_nil_iff_forall_not_mem.mpr fun other hother => by
        have := hearlier other hother
        omega
      subst hnothing
      refine Option.or_eq_some_iff.mpr (.inr ⟨List.find?_eq_none.mpr ?_, rfl⟩)
      intro other hother hone
      rw [hfits] at hone
      rcases List.mem_cons.mp hother with rfl | hother
      · exact hmethod hone
      · have := hlater other hother
        omega

theorem mem_overloads : method ∈ overloads type name parameters ↔
    method ∈ type.methods ∧ method.id.name = name ∧ ∀ wanted ∈ parameters, method.id.parameters = wanted := by
  rw [overloads, List.mem_filter, Bool.and_eq_true, beq_iff_eq]
  cases parameters <;> simp

theorem FirstBest.mem_methods (h : FirstBest arity (overloads type name parameters) earlier method) :
    method ∈ type.methods := by
  obtain ⟨later, hsplit, -⟩ := h.declared
  exact (mem_overloads.mp (hsplit ▸ List.mem_append_right _ List.mem_cons_self)).1

theorem FirstBest.mem_methods_of_mem_earlier (h : FirstBest arity (overloads type name parameters) earlier method) :
    ∀ other ∈ earlier, other ∈ type.methods := by
  obtain ⟨later, hsplit, -⟩ := h.declared
  exact fun other hother => (mem_overloads.mp (hsplit ▸ List.mem_append_left _ hother)).1

/-- **What the search finds**, if it finds anything, is the first overload that fits best. -/
theorem findMethod_eq_ok_iff (htype : ix.typeOf? identity = some type) :
    ix.findMethod identity name parameters arity = .ok method ↔
      ∃ earlier, FirstBest arity (overloads type name parameters) earlier method := by
  rw [← bestOf_eq_some_iff, findMethod, htype]
  dsimp only
  constructor
  · intro h
    split at h
    · rename_i best _ _ hbest
      rw [hbest, Except.ok.inj h]
    · exact nomatch h
    · exact nomatch h
  · intro h
    rw [h]

/-- Every method of a type is found, up to those with its identity and as many generic parameters. -/
theorem exists_found (htype : ix.typeOf? identity = some type) (hown : type.HoldsOwnMethods)
    (hmethod : method ∈ type.methods) :
    ∃ found, ix.findMethod identity method.id.name (some method.id.parameters) (some method.genericParams.length)
      = .ok found ∧ found.id = method.id ∧ found.genericParams.length = method.genericParams.length := by
  have hcandidate : method ∈ overloads type method.id.name (some method.id.parameters) :=
    mem_overloads.mpr ⟨hmethod, rfl, fun _ h => Option.some.inj h⟩
  have hfind : ((overloads type method.id.name (some method.id.parameters)).find? fun m =>
      some m.genericParams.length == some method.genericParams.length).isSome :=
    List.find?_isSome.mpr ⟨method, hcandidate, beq_self_eq_true _⟩
  obtain ⟨found, hfound⟩ := Option.isSome_iff_exists.mp hfind
  obtain ⟨hmem, hname, hparameters⟩ := mem_overloads.mp (List.mem_of_find?_eq_some hfound)
  have hbest : bestOf (overloads type method.id.name (some method.id.parameters)) (some method.genericParams.length)
      = some found := Option.or_eq_some_iff.mpr (.inl hfound)
  refine ⟨found, (findMethod_eq_ok_iff htype).mpr (bestOf_eq_some_iff.mp hbest), ?_, ?_⟩
  · have hdeclaring := (hown found hmem).trans (hown method hmethod).symm
    obtain ⟨⟨_, _, _⟩, _, _, _⟩ := found
    obtain ⟨⟨_, _, _⟩, _, _, _⟩ := method
    exact MethodId.mk.injEq _ _ _ _ _ _ ▸ ⟨hdeclaring, hname, hparameters _ rfl⟩
  · exact Option.some.inj (eq_of_beq (List.find?_some hfound :))

/-! ## The table -/

/-- A canonical type is found under its own name. -/
theorem canonical_of_typeOf? (htype : ix.typeOf? identity = some type) : ix.Canonical type := by
  obtain ⟨name, -, hname⟩ := Option.bind_eq_some_iff.mp htype
  exact canonical_of_type? hname

variable {modules : List Module}

theorem holdsOwnMethods_of_mem_types (hloaded : ∀ m ∈ modules, m.Loaded) :
    ∀ type ∈ (ofModules modules).types, type.HoldsOwnMethods := by
  intro type htype
  rw [types_eq_distinctBy_allTypes] at htype
  obtain ⟨entry, hentry, hmem⟩ := List.mem_flatMap.mp (mem_of_mem_distinctBy htype)
  rcases mem_modules_foldl_addModule hentry with hnone | ⟨m, hm, rfl⟩
  · exact absurd hnone List.not_mem_nil
  · exact (hloaded m hm).holdsOwnMethods type hmem

/-- **The table finds the first method of a type with an identity**, if all types hold methods of their own. -/
theorem method?_eq_find? (hown : ∀ other ∈ (ofModules modules).types, other.HoldsOwnMethods)
    (htype : (ofModules modules).Canonical type) {id : MethodId} (hid : id.declaringType = type.fullName) :
    (ofModules modules).method? id = type.methods.find? (·.id == id) := by
  obtain ⟨before, after, hsplit⟩ := List.append_of_mem (List.mem_of_find?_eq_some htype)
  have hnames := nodup_fullName_types modules
  -- a type with another name holds no method with this identity
  have hother : ∀ others : List TypeDef, (∀ other ∈ others, other.HoldsOwnMethods ∧ other.fullName ≠ type.fullName) →
      (others.flatMap (·.methods)).find? (·.id == id) = none := by
    intro others h
    refine List.find?_eq_none.mpr fun method hmethod hsame => ?_
    obtain ⟨other, hmem, hmethod⟩ := List.mem_flatMap.mp hmethod
    obtain ⟨hholds, hne⟩ := h other hmem
    rw [← hholds method hmethod, eq_of_beq hsame] at hne
    exact hne hid
  rw [hsplit, List.map_append, List.map_cons, List.nodup_append, List.nodup_cons] at hnames
  obtain ⟨-, ⟨hafter, -⟩, hbefore⟩ := hnames
  rw [method?, methods_ofModules, find?_distinctBy, hsplit, List.flatMap_append, List.flatMap_cons, List.find?_append,
    List.find?_append, hother before, hother after, Option.or_none, Option.none_or]
  · intro other hmem
    refine ⟨hown other (hsplit ▸ List.mem_append_right _ (List.mem_cons_of_mem _ hmem)), fun heq => ?_⟩
    exact hafter (List.mem_map.mpr ⟨other, hmem, heq⟩)
  · intro other hmem
    exact ⟨hown other (hsplit ▸ List.mem_append_left _ hmem),
      hbefore _ (List.mem_map_of_mem hmem) _ List.mem_cons_self⟩

/-- **The table knows a method that was found** exactly if no overload with its identity stands before it. -/
theorem FirstBest.method?_iff (h : FirstBest arity (overloads type name parameters) earlier method)
    (htable : ix.method? method.id = type.methods.find? (·.id == method.id)) :
    ix.method? method.id = some method ↔ ∀ other ∈ earlier, other.id ≠ method.id := by
  obtain ⟨⟨later, hsplit, -⟩, hbetter⟩ := h
  have hmethod : method ∈ overloads type name parameters := hsplit ▸ List.mem_append_right _ List.mem_cons_self
  obtain ⟨-, hname, hparameters⟩ := mem_overloads.mp hmethod
  -- what has the identity of an overload is an overload
  have hfind : (overloads type name parameters).find? (·.id == method.id)
      = type.methods.find? (·.id == method.id) := by
    rw [overloads, List.find?_filter]
    refine congrArg (List.find? · type.methods) (funext fun other => ?_)
    by_cases hsame : other.id = method.id
    · cases parameters <;> simp_all
    · simp [hsame]
  have hself : (method.id == method.id) = true := beq_self_eq_true _
  rw [htable, ← hfind, hsplit, List.find?_append, List.find?_cons, hself]
  constructor
  · intro hfound other hother hsame
    -- what the table finds would stand before the method and yet fit as well as it does
    rcases Option.or_eq_some_iff.mp hfound with hfirst | ⟨hnone, -⟩
    · exact Nat.lt_irrefl _ (hbetter method (List.mem_of_find?_eq_some hfirst))
    · exact List.find?_eq_none.mp hnone other hother (beq_iff_eq.mpr hsame)
  · intro hnone
    have hnot : earlier.find? (·.id == method.id) = none :=
      List.find?_eq_none.mpr fun other hother hsame => hnone other hother (eq_of_beq hsame)
    rw [hnot, Option.none_or]

/-- What is found on a type, whatever is asked for. -/
def Finds (ix : Index) (identity : Identity) (method : Method) : Prop :=
  ∃ name parameters arity, ix.findMethod identity name parameters arity = .ok method

section

variable (hloaded : ∀ m ∈ modules, m.Loaded) (htype : (ofModules modules).typeOf? identity = some type)

include hloaded htype

theorem holdsOwnMethods_of_typeOf? : type.HoldsOwnMethods :=
  holdsOwnMethods_of_mem_types hloaded type (List.mem_of_find?_eq_some (canonical_of_typeOf? htype))

/-- **One search** for a method of a type. -/
theorem firstBest_of_findMethod (h : (ofModules modules).findMethod identity name parameters arity = .ok method) :
    ∃ earlier, FirstBest arity (overloads type name parameters) earlier method ∧
      (ofModules modules).declaringType? method = some type ∧
      ((ofModules modules).method? method.id = some method ↔ ∀ other ∈ earlier, other.id ≠ method.id) := by
  have hcanonical := canonical_of_typeOf? htype
  obtain ⟨earlier, hbest⟩ := (findMethod_eq_ok_iff htype).mp h
  have hdeclaring := holdsOwnMethods_of_typeOf? hloaded htype method hbest.mem_methods
  refine ⟨earlier, hbest, ?_, hbest.method?_iff ?_⟩
  · rw [declaringType?, hdeclaring]
    exact hcanonical
  · exact method?_eq_find? (holdsOwnMethods_of_mem_types hloaded) hcanonical hdeclaring

/-- Where identities tell the overloads apart, the table knows all that is found. -/
theorem method?_of_tellsOverloads (htells : type.TellsOverloads) (h : (ofModules modules).Finds identity method) :
    (ofModules modules).method? method.id = some method := by
  obtain ⟨name, parameters, arity, h⟩ := h
  obtain ⟨earlier, hbest, -, hiff⟩ := firstBest_of_findMethod hloaded htype h
  refine hiff.mpr fun other hother hsame => ?_
  have hlength := htells other (hbest.mem_methods_of_mem_earlier other hother) method hbest.mem_methods hsame
  exact absurd (hbest.better other hother) (fit_eq_of_length_eq hlength ▸ Nat.lt_irrefl _)

/-- Where what is found is known by its identity, identities tell the overloads apart. -/
theorem tellsOverloads_of_finds
    (h : ∀ a b, (ofModules modules).Finds identity a → (ofModules modules).Finds identity b → a.id = b.id → a = b) :
    type.TellsOverloads := by
  have hown := holdsOwnMethods_of_typeOf? hloaded htype
  intro a ha b hb hid
  obtain ⟨a', hfinda, hida, hlengtha⟩ := exists_found htype hown ha
  obtain ⟨b', hfindb, hidb, hlengthb⟩ := exists_found htype hown hb
  have hequal := h a' b' ⟨_, _, _, hfinda⟩ ⟨_, _, _, hfindb⟩ (hida.trans (hid.trans hidb.symm))
  rw [← hlengtha, ← hlengthb, hequal]

/--
**When overloads and the table of methods agree.**

Let an identity stand for a type of modules that were read. A search for a method of it that succeeds gives the first
overload that fits best, of all that have the name and, if a list of parameters is given, this list. The type is the
one that declares the method. The table of methods gives the method back if and only if no overload with its identity
was passed over for its number of generic parameters. This is so for all that can be found, and different methods that
can be found have different identities, if and only if the identities of the type's methods tell how many generic
parameters these have.
-/
theorem findMethod_agrees_iff :
    (∀ name parameters arity method, (ofModules modules).findMethod identity name parameters arity = .ok method →
      ∃ earlier, FirstBest arity (overloads type name parameters) earlier method ∧
        (ofModules modules).declaringType? method = some type ∧
        ((ofModules modules).method? method.id = some method ↔ ∀ other ∈ earlier, other.id ≠ method.id)) ∧
    ((∀ method, (ofModules modules).Finds identity method → (ofModules modules).method? method.id = some method) ↔
      type.TellsOverloads) ∧
    ((∀ a b, (ofModules modules).Finds identity a → (ofModules modules).Finds identity b → a.id = b.id → a = b) ↔
      type.TellsOverloads) := by
  have hdistinct : (∀ method, (ofModules modules).Finds identity method →
      (ofModules modules).method? method.id = some method) →
      ∀ a b, (ofModules modules).Finds identity a → (ofModules modules).Finds identity b → a.id = b.id → a = b := by
    intro hback a b ha hb hid
    have hgiven := hback a ha
    rw [hid, hback b hb] at hgiven
    exact (Option.some.inj hgiven).symm
  have hknown : type.TellsOverloads → ∀ method, (ofModules modules).Finds identity method →
      (ofModules modules).method? method.id = some method :=
    fun htells _ h => method?_of_tellsOverloads hloaded htype htells h
  have htells := tellsOverloads_of_finds hloaded htype
  exact ⟨fun _ _ _ _ => firstBest_of_findMethod hloaded htype, ⟨fun hback => htells (hdistinct hback), hknown⟩,
    ⟨htells, fun h => hdistinct (hknown h)⟩⟩

end

end Index

/-! ## Overloads that differ in nothing but their generic parameters -/

namespace Arities

def document : String := "(module \"Demo\"
  (type \"Demo.Work\"
    (method \"Run\" (generic \"T\") (params \"Core.Int32\"))
    (method \"Run\" (generic \"T\" \"U\") (params \"Core.Int32\"))
    (method \"Run\" (generic \"T\") (params \"Core.Text\"))))"

def run (genericParams : List String) (parameter : String) : Method where
  id := ⟨"Demo.Work", "Run", [parameter]⟩
  genericParams
  module := "Demo"

def work : TypeDef where
  fullName := "Demo.Work"
  methods := [run ["T"] "Core.Int32", run ["T", "U"] "Core.Int32", run ["T"] "Core.Text"]
  module := "Demo"

def demo : Module := { name := "Demo", types := [work] }

set_option maxRecDepth 4000 in
theorem loaded_demo : ∀ m ∈ [demo], m.Loaded :=
  List.forall_mem_singleton.mpr (.of_characters document String.toList_ofList (by cbv))

theorem typeOf?_work : (Index.ofModules [demo]).typeOf? (.name "Demo.Work") = some work := rfl

theorem findMethod_second : (Index.ofModules [demo]).findMethod (.name "Demo.Work") "Run" none (some 2)
    = .ok (run ["T", "U"] "Core.Int32") := rfl

theorem method?_second : (Index.ofModules [demo]).method? (run ["T", "U"] "Core.Int32").id
    = some (run ["T"] "Core.Int32") := rfl

theorem method?_second_ne : (Index.ofModules [demo]).method? (run ["T", "U"] "Core.Int32").id
    ≠ some (run ["T", "U"] "Core.Int32") := by
  rw [method?_second]
  exact fun h => absurd (congrArg (·.map (·.genericParams)) h) (by decide)

/-- **A method that is found is not the one that its identity stands for.** The search with two type arguments gives
the second overload, and the table gives the first one for its identity. -/
theorem second_unknown : (∀ m ∈ [demo], m.Loaded) ∧
    (Index.ofModules [demo]).findMethod (.name "Demo.Work") "Run" none (some 2) = .ok (run ["T", "U"] "Core.Int32") ∧
    (Index.ofModules [demo]).findMethod (.name "Demo.Work") "Run" none (some 1) = .ok (run ["T"] "Core.Int32") ∧
    (run ["T", "U"] "Core.Int32").id = (run ["T"] "Core.Int32").id ∧
    (Index.ofModules [demo]).method? (run ["T", "U"] "Core.Int32").id = some (run ["T"] "Core.Int32") ∧
    (Index.ofModules [demo]).method? (run ["T", "U"] "Core.Int32").id ≠ some (run ["T", "U"] "Core.Int32") :=
  ⟨loaded_demo, findMethod_second, rfl, rfl, method?_second, method?_second_ne⟩

/-- So an overload with the identity of the second one was passed over. -/
theorem exists_passed_over : (∀ m ∈ [demo], m.Loaded) ∧
    (Index.ofModules [demo]).typeOf? (.name "Demo.Work") = some work ∧
    (∃ earlier, Index.FirstBest (some 2) (Index.overloads work "Run" none) earlier (run ["T", "U"] "Core.Int32") ∧
      ∃ other ∈ earlier, other.id = (run ["T", "U"] "Core.Int32").id) ∧
    ¬ work.TellsOverloads := by
  obtain ⟨hfound, hknown, -⟩ := Index.findMethod_agrees_iff loaded_demo typeOf?_work
  refine ⟨loaded_demo, typeOf?_work, ?_, fun htells => ?_⟩
  · obtain ⟨earlier, hbest, -, hiff⟩ := hfound _ _ _ _ findMethod_second
    refine ⟨earlier, hbest, ?_⟩
    by_contra hnone
    exact method?_second_ne (hiff.mpr fun other hother hsame => hnone ⟨other, hother, hsame⟩)
  · exact method?_second_ne (hknown.mpr htells _ ⟨_, _, _, findMethod_second⟩)

end Arities

end JobClosure
