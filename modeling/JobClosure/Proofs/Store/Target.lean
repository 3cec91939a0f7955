import JobClosure.Proofs.Metadata.Bodies
import JobClosure.Proofs.Store.Adding
import JobClosure.Proofs.Synthesis
import JobClosure.Session
import Mathlib

/-!
# Synthesis keeps its target

Types are added to the module at a path: the module is read from its file, or taken as it is held, a group
is put into it, and it is written back over the file. What the file says outside the group is what it said
before, except that bodies come back as they are written (`Session.addTypes_keeps_outside`). Three kinds of
things do not come back from a file at all and have to be absent: symbols that need escapes, carriage
returns inside texts, and generic parameters whose names cannot be spelled (`Module.Survives`). The first is
so for every file that escapes no symbol (`FileTree.survives_of_unescaped`).

A store may hold the module already. Then it must hold what the file says (`Store.InSync`), and that is so
again after types were added, so the same holds of every later group.
-/

namespace JobClosure

/-! ## Modules that come back -/

namespace Module

/-- Everything that a module which was read is made of comes back from a file. -/
structure Survives (m : Module) : Prop where
  /-- The parameters in bases, interfaces and fields have names that can be spelled. -/
  words : ∀ type ∈ m.types, type.WordParameters
  bodies : m.LegibleBodies
  noReturn : ¬ m.toForm.Holds '\r'
  noReturnInSymbols : ¬ (Symbols.toForm m.symbols).Holds '\r'

/-- No body has a quoted form or a list in square brackets. -/
def PlainBodies (m : Module) : Prop :=
  ∀ type ∈ m.types, ∀ method ∈ type.methods, ∀ body ∈ method.body, ∀ form ∈ body, form.Plain

theorem map_eq_self_iff {α : Type} {f : α → α} {xs : List α} : xs.map f = xs ↔ ∀ x ∈ xs, f x = x := by
  have h := @List.map_inj_left _ _ xs f id
  rwa [List.map_id] at h

/-- **Types come back as they are if their bodies are plain**, and only then. -/
theorem map_asWritten_eq_iff (m : Module) : m.types.map TypeDef.asWritten = m.types ↔ m.PlainBodies := by
  have hmethod : ∀ method : Method, method.asWritten = method ↔ ∀ body ∈ method.body, ∀ form ∈ body, form.Plain := by
    intro method
    obtain ⟨id, genericParams, body, module⟩ := method
    cases body with
    | none => simp [Method.asWritten]
    | some body =>
      rw [Method.asWritten, Method.mk.injEq]
      simp [Form.asWrittenAll_eq_self_iff, Form.plainAll_iff]
  have htype : ∀ type : TypeDef, type.asWritten = type ↔ ∀ method ∈ type.methods, method.asWritten = method := by
    intro type
    rw [← map_eq_self_iff, TypeDef.asWritten]
    cases type
    rw [TypeDef.mk.injEq]
    simp
  rw [map_eq_self_iff, PlainBodies]
  simp only [htype, hmethod]

end Module

namespace FileTree

variable {tree : FileTree} {path : Path} {before : Module}

/-- The symbols of a module that was read can be written and read. -/
theorem sound_of_readSymbols {symbols : Symbols} (h : tree.readSymbols path = .ok symbols) :
    symbols.Distinct ∧ symbols.Countable := by
  obtain ⟨companion, -, ⟨-, rfl⟩ | ⟨-, text, -, hread⟩⟩ := readSymbols_eq_ok_iff.mp h
  · exact ⟨List.nodup_nil, fun entry hentry => absurd hentry List.not_mem_nil⟩
  · exact Symbols.sound_of_ofDocument hread

/-- What is outside a group of a module that was read can be stored if it comes back. -/
theorem storable_of_readModule (h : tree.readModule path = .ok before) {group : String}
    (hsurvives : (before.outside group).Survives) : (before.outside group).Storable where
  spelled := by
    have hloaded : before.Loaded := .file h
    intro type htype
    obtain ⟨clause, hread⟩ := hloaded.exists_read type (List.mem_filter.mp htype).1
    exact TypeDef.spelled_of_read hread (hsurvives.words type htype)
  bodies := hsurvives.bodies
  noReturn := hsurvives.noReturn
  distinctSymbols := by
    obtain ⟨-, -, symbols, -, -, hsymbols, rfl⟩ := readModule_eq_ok_iff.mp h
    exact (sound_of_readSymbols hsymbols).1
  countableSymbols := by
    obtain ⟨-, -, symbols, -, -, hsymbols, rfl⟩ := readModule_eq_ok_iff.mp h
    exact (sound_of_readSymbols hsymbols).2
  noReturnInSymbols := hsurvives.noReturnInSymbols

/-- **The bodies of a file survive** if the file escapes no symbol: whatever numbers and texts they have. -/
theorem survives_of_unescaped {text : String} (hbefore : tree.readModule path = .ok before)
    (htext : tree.readText path = .ok text) (hescapes : Form.escapesAtom text.toList = false) {group : String}
    (hwords : ∀ type ∈ (before.outside group).types, type.WordParameters)
    (hreturn : ¬ (before.outside group).toForm.Holds '\r')
    (hreturn' : ¬ (Symbols.toForm (before.outside group).symbols).Holds '\r') : (before.outside group).Survives where
  words := hwords
  bodies := by
    obtain ⟨found, declared, symbols, hfound, hdeclared, -, rfl⟩ := readModule_eq_ok_iff.mp hbefore
    obtain rfl := Except.ok.inj (htext.symm.trans hfound)
    have hbodies := Module.legibleBodies_of_ofDocument hdeclared hescapes
    exact fun type htype => hbodies type (List.mem_filter.mp htype).1
  noReturn := hreturn
  noReturnInSymbols := hreturn'

end FileTree

/-! ## The target -/

namespace Store

/-- If a module is held for a path, then the one that its file says. -/
def InSync (s : Store) (path : Path) : Prop :=
  ∀ handle, s.handleOf? path.resolve = some handle → ∃ m stored, s.module? handle = some m ∧
    m.path = some path.resolve ∧ s.files.readModule path = .ok stored ∧ m.Mirrors stored

variable {s s' : Store} {path : Path} {handle : Nat}

/-- **The module that is added for a path** is what its file says. -/
theorem mirrors_of_add {before : Module} (hsync : s.InSync path) (hbefore : s.files.readModule path = .ok before)
    (h : s.add path = (.ok handle, s')) :
    ∃ m, s'.module? handle = some m ∧ m.path = some path.resolve ∧ m.Mirrors before := by
  obtain ⟨hextends, -, hheld | ⟨m, hread, hm⟩⟩ := add_eq_ok h
  · obtain ⟨m, stored, hm, hpath, hstored, hmirrors⟩ := hsync handle hheld
    obtain rfl := Except.ok.inj (hbefore.symm.trans hstored)
    exact ⟨m, hextends.module? hm, hpath, hmirrors⟩
  · obtain rfl := FileTree.readModule_resolve hbefore hread
    exact ⟨_, hm, rfl, rfl, rfl, rfl, List.Perm.refl _⟩

theorem write_eq_ok {m : Module} {withSymbols : Bool} {written : Path}
    (h : s.write m withSymbols = (.ok written, s')) :
    s.full = false ∧ ∃ files, m.write withSymbols s.files = (files, .ok written) ∧ s' = { s with files } := by
  unfold write at h
  cases hfull : s.full with
  | true =>
    rw [hfull, if_pos rfl] at h
    exact nomatch (Prod.mk.inj h).1
  | false =>
    rw [hfull, if_neg Bool.false_ne_true] at h
    obtain ⟨hwritten, rfl⟩ := Prod.mk.inj h
    have hresult : (m.write withSymbols s.files).2 = .ok written := mapError_eq_ok hwritten
    exact ⟨rfl, (m.write withSymbols s.files).1, by rw [← hresult], rfl⟩

/-- Synthesis changes the opened module and writes it. -/
theorem synthesize_eq_ok {index : Option Index} {group : String} {items : List Instantiation} {type : TypeDef}
    {m : Module} (hm : s.module? handle = some m) (h : s.synthesize handle index group items = (.ok type, s')) :
    s.full = false ∧ ∃ after files written, m.synthesize index group items = .ok (type, after) ∧
      after.write true s.files = (files, .ok written) ∧ s' = { s.replace handle after with files } := by
  unfold synthesize at h
  rw [hm, Option.getD_some] at h
  split at h
  · exact nomatch (Prod.mk.inj h).1
  · rename_i found after hsynth
    cases hwrite : (s.replace handle after).write after true with
    | mk result written =>
      rw [hwrite] at h
      obtain ⟨hresult, rfl⟩ := Prod.mk.inj h
      cases result with
      | error error => exact nomatch hresult
      | ok place =>
        obtain rfl : found = type := Except.ok.inj hresult
        obtain ⟨hfull, files, hfiles, rfl⟩ := write_eq_ok hwrite
        exact ⟨hfull, after, files, place, hsynth, hfiles, rfl⟩

theorem synthesize_of_ok {m after : Module} {index : Option Index} {group : String} {items : List Instantiation}
    {type : TypeDef} {files : FileTree} {written : Path} (hm : s.module? handle = some m)
    (hsynth : m.synthesize index group items = .ok (type, after)) (hfull : s.full = false)
    (hwrite : after.write true s.files = (files, .ok written)) :
    s.synthesize handle index group items = (.ok type, { s.replace handle after with files }) := by
  have hfull : (s.replace handle after).full = false := hfull
  have hwrite : after.write true (s.replace handle after).files = (files, .ok written) := hwrite
  rw [synthesize, hm, Option.getD_some, hsynth]
  dsimp only
  rw [write, hfull, if_neg Bool.false_ne_true, hwrite]
  rfl

/-- **What is outside a group survives its synthesis**, and the store is in sync with what was written. -/
theorem synthesize_keeps_outside {before m : Module} {index : Option Index} {group : String}
    {items : List Instantiation} {type : TypeDef} (hbefore : s.files.readModule path = .ok before)
    (hhandle : s.handleOf? path.resolve = some handle) (hm : s.module? handle = some m)
    (hpath : m.path = some path.resolve) (hmirrors : m.Mirrors before) (hgroup : Spelling.isName group = true)
    (hitems : ∀ ref, .ref ref ∈ items → ref.toArg.Grammatical) (hsurvives : (before.outside group).Survives)
    (h : s.synthesize handle index group items = (.ok type, s')) :
    ∃ after, s'.files.readModule path = .ok after ∧ after.name = before.name ∧
      after.references = before.references ∧
      (∀ member, after.symbols.lookup member = before.symbols.lookup member) ∧
      (after.outside group).types = (before.outside group).types.map TypeDef.asWritten ∧ s'.InSync path := by
  obtain ⟨-, made, files, written, hsynth, hwrite, rfl⟩ := synthesize_eq_ok hm h
  have hbeforeStorable := FileTree.storable_of_readModule hbefore hsurvives
  -- the module that is held says outside the group what the file says, and so does what is made of it
  have houtside := hmirrors.outside group
  have hstorable := Module.storable_synthesize hsynth hgroup hitems (houtside.storable hbeforeStorable)
  have hmadePath : made.path = some path.resolve := (Module.fresh_of_synthesize hsynth).2.trans hpath
  have hread := hstorable.readModule_of_write hbefore hmadePath hwrite
  obtain ⟨refs, -, -, hmade⟩ := Module.exists_refs_of_synthesize hsynth
  have hname : made.name = m.name := by rw [hmade]; rfl
  have hreferences : made.references = m.references := by rw [hmade]; rfl
  have hsymbols : made.symbols = m.symbols := by rw [hmade]; rfl
  refine ⟨made.asStored path, hread, hname.trans hmirrors.name, hreferences.trans hmirrors.references, ?_, ?_, ?_⟩
  · have hperm : List.Perm (Symbols.sorted made.symbols) before.symbols := by
      rw [hsymbols]
      exact (Symbols.sorted_perm m.symbols).trans hmirrors.symbols
    exact Symbols.lookup_perm hperm hbeforeStorable.distinctSymbols
  · have hkept := congrArg Module.types (Module.outside_synthesize hsynth)
    calc ((made.asStored path).outside group).types
        = (made.outside group).types.map TypeDef.asWritten := Module.types_outside_map_asWritten made.types group
      _ = (m.outside group).types.map TypeDef.asWritten := by rw [hkept]
      _ = (before.outside group).types.map TypeDef.asWritten := houtside.types
  · intro other hother
    obtain rfl : handle = other := Option.some.inj (hhandle.symm.trans hother)
    exact ⟨made, made.asStored path, List.getElem?_set_self (lt_openCount_of_module? hm), hmadePath, hread,
      Module.mirrors_asStored made path⟩

end Store

namespace Session

variable {s s' : Session} {path : Path} {group : String} {items : List Instantiation} {type : TypeDef}

/-- Types are added by adding the module and synthesising in it; looking for the index in between only logs. -/
theorem addTypes_eq_ok (h : s.addTypes path group items = (.ok type, s')) :
    ∃ (handle : Nat) (added noted : Store) (known : Index), s.store.add path = (.ok handle, added) ∧
      noted.files = added.files ∧ noted.opened = added.opened ∧ noted.held = added.held ∧
      noted.synthesize handle (some known) group items = (.ok type, s'.store) := by
  unfold addTypes addModule at h
  cases hadd : s.store.add path with
  | mk result added =>
    rw [hadd] at h
    cases result with
    | error error => exact nomatch (Prod.mk.inj h).1
    | ok handle =>
      obtain ⟨htype, rfl⟩ := Prod.mk.inj h
      refine ⟨handle, added, _, _, rfl, ?_, ?_, ?_, Prod.ext htype rfl⟩
      · split <;> rfl
      · split <;> rfl
      · split <;> rfl

/-- Types are added if the module can be added and the group synthesised in it. -/
theorem exists_addTypes_of_add {handle : Nat} {added : Store} (hadd : s.store.add path = (.ok handle, added))
    (hsynth : ∀ (noted : Store) (known : Index), noted.files = added.files → noted.opened = added.opened →
      noted.full = added.full → ∃ made, noted.synthesize handle (some known) group items = (.ok type, made)) :
    ∃ s', s.addTypes path group items = (.ok type, s') := by
  have hnoted : (index { s with store := added }).2.store.files = added.files ∧
      (index { s with store := added }).2.store.opened = added.opened ∧
      (index { s with store := added }).2.store.full = added.full := by
    unfold index
    split <;> exact ⟨rfl, rfl, rfl⟩
  obtain ⟨made, hmade⟩ := hsynth _ (index { s with store := added }).1 hnoted.1 hnoted.2.1 hnoted.2.2
  rw [addTypes, addModule, hadd]
  dsimp only
  rw [hmade]
  exact ⟨_, rfl⟩

/-- After types were added to the module at a path, what is outside the group is as it is written. -/
theorem addTypes_writes_outside {before : Module} (hbefore : s.store.files.readModule path = .ok before)
    (hsync : s.store.InSync path) (hgroup : Spelling.isName group = true)
    (hitems : ∀ ref, .ref ref ∈ items → ref.toArg.Grammatical) (hsurvives : (before.outside group).Survives)
    (h : s.addTypes path group items = (.ok type, s')) :
    ∃ after, s'.store.files.readModule path = .ok after ∧ after.name = before.name ∧
      after.references = before.references ∧
      (∀ member, after.symbols.lookup member = before.symbols.lookup member) ∧
      (after.outside group).types = (before.outside group).types.map TypeDef.asWritten ∧
      s'.store.InSync path := by
  obtain ⟨handle, added, noted, index, hadd, hfiles, hopened, hheld, hsynth⟩ := addTypes_eq_ok h
  obtain ⟨m, hm, hpath, hmirrors⟩ := Store.mirrors_of_add hsync hbefore hadd
  obtain ⟨hextends, hhandle, -⟩ := Store.add_eq_ok hadd
  have hread : noted.files.readModule path = .ok before := by rw [hfiles, hextends.files, hbefore]
  have hhandle : noted.handleOf? path.resolve = some handle := by rw [Store.handleOf?, hheld]; exact hhandle
  have hm : noted.module? handle = some m := by rw [Store.module?, hopened]; exact hm
  exact Store.synthesize_keeps_outside hread hhandle hm hpath hmirrors hgroup hitems hsurvives hsynth

/-- **Synthesis keeps its target.** After types were added to the module at a path, the module can be read
there. Its name, its references and the locations of its members are as before; so are, in order, its types
outside the group, with their bodies as they are written, which is as they were if and only if they have
neither quoted forms nor lists in square brackets. -/
theorem addTypes_keeps_outside {before : Module} (hbefore : s.store.files.readModule path = .ok before)
    (hsync : s.store.InSync path) (hgroup : Spelling.isName group = true)
    (hitems : ∀ ref, .ref ref ∈ items → ref.toArg.Grammatical) (hsurvives : (before.outside group).Survives)
    (h : s.addTypes path group items = (.ok type, s')) :
    ∃ after, s'.store.files.readModule path = .ok after ∧ after.name = before.name ∧
      after.references = before.references ∧
      (∀ member, after.symbols.lookup member = before.symbols.lookup member) ∧
      (after.outside group).types = (before.outside group).types.map TypeDef.asWritten ∧
      ((after.outside group).types = (before.outside group).types ↔ (before.outside group).PlainBodies) ∧
      s'.store.InSync path := by
  obtain ⟨after, hafter, hname, hreferences, hsymbols, htypes, hagain⟩ :=
    addTypes_writes_outside hbefore hsync hgroup hitems hsurvives h
  refine ⟨after, hafter, hname, hreferences, hsymbols, htypes, ?_, hagain⟩
  rw [htypes]
  exact (before.outside group).map_asWritten_eq_iff

end Session

/-! Two files with a method each. The body of the one is plain and comes back. The body of the other is a
quoted symbol, which is written as a list. -/

namespace Regrouping

def path : Path := ⟨["Demo.jmod"], false⟩

/-- A session over one file, in which nothing is held yet. -/
def session (text : String) : Session where
  store := { files := ⟨[(path.parts, .file text.toUTF8)]⟩ }

/-- What the files say, up to the body of the method. -/
def demo (body : List Form) : Module where
  name := "Demo"
  path := some path
  types := [{
    fullName := "Demo.Work"
    methods := [{ id := ⟨"Demo.Work", "Run", []⟩, body := some body, module := "Demo" }]
    module := "Demo" }]

def plainText : String := "(module \"Demo\" (type \"Demo.Work\" (method \"Run\" (body x))))"

def quotingText : String := "(module \"Demo\" (type \"Demo.Work\" (method \"Run\" (body 'x))))"

theorem readModule_session {text : String} {m : Module} (hreturn : '\r' ∉ text.toList)
    (hread : Module.ofDocument (some path) text = .ok m) (hsymbols : m.symbols = []) :
    (session text).store.files.readModule path = .ok m := by
  have hcontains : (session text).store.files.contains ⟨["Demo.jsym"], false⟩ = .ok false := rfl
  have hbytes : (session text).store.files.readBytes path = .ok text.toUTF8 := rfl
  exact FileTree.readModule_of_alone rfl hcontains hbytes hreturn hread hsymbols

theorem readModule_plain : (session plainText).store.files.readModule path = .ok (demo [.symbol "x"]) :=
  readModule_session (by decide) (by cbv) rfl

theorem readModule_quoting :
    (session quotingText).store.files.readModule path = .ok (demo [.quote (.symbol "x")]) :=
  readModule_session (by decide) (by cbv) rfl

/-- An empty group can be added to a module that was read. -/
theorem exists_addTypes_session {text : String} {m : Module}
    (hread : (session text).store.files.readModule path = .ok m) (hpath : m.path = some path) :
    ∃ s', (session text).addTypes path "Jobs" [] = (.ok (Synthesis.groupType m.name "Jobs" []), s') := by
  have hadd : (session text).store.add path = (.ok 0, (session text).store.hold path m) := by
    show (session text).store.openAt path = _
    rw [Store.openAt, hread]
    rfl
  refine Session.exists_addTypes_of_add hadd fun noted index hfiles hopened hfull => ?_
  have hm : noted.module? 0 = some m := by
    rw [Store.module?, hopened]
    rfl
  have hsynth : m.synthesize (some index) "Jobs" [] = .ok (Synthesis.groupType m.name "Jobs" [],
      (m.removeTypes (Synthesis.inGroup "Jobs")).addTypes [Synthesis.groupType m.name "Jobs" []]) := by
    have hrefs : Synthesis.closedRefs (some index) [] = .ok [] := congrArg Except.ok List.mergeSort_nil
    rw [Module.synthesize, if_neg (by decide), hrefs]
    rfl
  have hwrite : ∀ after : Module, after.path = some path →
      ∃ files, after.write true noted.files = (files, .ok path) := by
    intro after hafter
    rw [Module.write, hafter, hfiles]
    exact ⟨_, rfl⟩
  obtain ⟨files, hwrite⟩ := hwrite ((m.removeTypes _).addTypes [_]) hpath
  exact ⟨_, Store.synthesize_of_ok hm hsynth hfull hwrite⟩

theorem outside_demo (body : List Form) : (demo body).outside "Jobs" = demo body := by
  have hname : ("Demo.Work" == "Jobs" || ("Jobs" ++ "/").toList.isPrefixOf "Demo.Work".toList) = false := by decide
  rw [Module.outside, Module.removeTypes, demo, List.filter_cons, Synthesis.inGroup, hname]
  rfl

/-- Everything but the body survives in any case. -/
theorem survives_demo {body : List Form} (hlegible : ∀ form ∈ body, form.Legible)
    (hreturn : ¬ Form.HoldsAny '\r' body) : ((demo body).outside "Jobs").Survives := by
  rw [outside_demo]
  refine ⟨?_, ?_, ?_, ?_⟩
  · intro type htype
    rw [List.mem_singleton.mp htype]
    exact nofun
  · intro type htype method hmethod found hfound
    rw [List.mem_singleton.mp htype] at hmethod
    rw [List.mem_singleton.mp hmethod] at hfound
    rw [← Option.some.inj hfound]
    exact hlegible
  · intro hholds
    have hholds : Form.Holds '\r' (.list [.symbol "module", .text "Demo", .list [.symbol "type",
        .text "Demo.Work", .list [.symbol "method", .text "Run", .list (.symbol "body" :: body)]]]) := hholds
    simp [Form.Holds, Form.HoldsAny, hreturn] at hholds
  · intro hholds
    rw [demo, Symbols.toForm, Symbols.sorted, List.mergeSort_nil] at hholds
    simp [Form.Holds, Form.HoldsAny] at hholds

/-- The plain body comes back as it was. -/
theorem plain_kept : ∃ s' after,
    (session plainText).addTypes path "Jobs" [] = (.ok (Synthesis.groupType "Demo" "Jobs" []), s') ∧
      s'.store.files.readModule path = .ok after ∧ (after.outside "Jobs").types = (demo [.symbol "x"]).types := by
  obtain ⟨s', h⟩ := exists_addTypes_session readModule_plain rfl
  have hsurvives : ((demo [.symbol "x"]).outside "Jobs").Survives :=
    survives_demo (List.forall_mem_singleton.mpr rfl) (by simp [Form.Holds, Form.HoldsAny])
  have hplain : ((demo [.symbol "x"]).outside "Jobs").PlainBodies := by
    intro type htype method hmethod found hfound form hform
    rw [outside_demo] at htype
    rw [List.mem_singleton.mp htype] at hmethod
    rw [List.mem_singleton.mp hmethod] at hfound
    rw [← Option.some.inj hfound] at hform
    rw [List.mem_singleton.mp hform]
    trivial
  obtain ⟨after, hafter, -, -, -, -, hkept, -⟩ :=
    Session.addTypes_keeps_outside readModule_plain nofun (by decide)
      (fun _ hitem => absurd hitem List.not_mem_nil) hsurvives h
  exact ⟨s', after, h, hafter, hkept.mpr hplain⟩

/-- **The quoted symbol comes back as a list**, although nothing outside the group was to be changed. -/
theorem quote_lost : ∃ s' after,
    (session quotingText).store.files.readModule path = .ok (demo [.quote (.symbol "x")]) ∧
      (session quotingText).addTypes path "Jobs" [] = (.ok (Synthesis.groupType "Demo" "Jobs" []), s') ∧
      s'.store.files.readModule path = .ok after ∧
      (after.outside "Jobs").types = ((demo [.list [.symbol "x"]]).outside "Jobs").types ∧
      (after.outside "Jobs").types ≠ ((demo [.quote (.symbol "x")]).outside "Jobs").types := by
  obtain ⟨s', h⟩ := exists_addTypes_session readModule_quoting rfl
  have hsurvives : ((demo [.quote (.symbol "x")]).outside "Jobs").Survives :=
    survives_demo (List.forall_mem_singleton.mpr rfl) (by simp [Form.Holds, Form.HoldsAny])
  obtain ⟨after, hafter, -, -, -, htypes, -⟩ :=
    Session.addTypes_writes_outside readModule_quoting nofun (by decide)
      (fun _ hitem => absurd hitem List.not_mem_nil) hsurvives h
  refine ⟨s', after, readModule_quoting, h, hafter, htypes, ?_⟩
  rw [htypes]
  exact nofun

end Regrouping

end JobClosure
