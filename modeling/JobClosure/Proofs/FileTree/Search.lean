import JobClosure.FileTree.Search
import JobClosure.Proofs.FileTree.Companion
import Mathlib.Data.List.Sort
import Mathlib.Data.String.Basic

/-!
# Searching after a write

Writing a file may answer questions about the tree in another way, but only where a path leads to the place
that was written (`Wrote.find?`). A search for modules asks for files whose names end with the suffix of module
documents. So it is not disturbed when a file is written over (`searchesAs_of_overwrite`), nor when a symbol
document is put beside a module document (`searchesAs_of_companion`): the new name is listed, but it is none of
a module, and it is as long as the name it stands beside, so that it can be asked about wherever that one can.
-/

namespace JobClosure

/-! ## Names of module documents -/

namespace Path

/-- A path that ends with the name of a module document. -/
def NamesModule (path : Path) : Prop := ∃ way base, path.parts = way ++ [base ++ moduleSuffix]

theorem append_moduleSuffix_ne (base : String) : base ++ moduleSuffix ≠ ".." := append_ne_dots (by decide) base

/-- No name has both suffixes. -/
theorem moduleSuffix_ne_symbolSuffix (base stem : String) : base ++ moduleSuffix ≠ stem ++ symbolSuffix := by
  intro h
  have hlast := congrArg (fun text => text.toList.getLast?) h
  simp only [String.toList_append] at hlast
  have hmodule : moduleSuffix.toList = ".jmo".toList ++ ['d'] := rfl
  have hsymbols : symbolSuffix.toList = ".jsy".toList ++ ['m'] := rfl
  rw [hmodule, hsymbols, ← List.append_assoc, ← List.append_assoc, List.getLast?_concat,
    List.getLast?_concat] at hlast
  exact absurd (Option.some.inj hlast) (by decide)

/-- A name with a suffix is its stem and its suffix. -/
theorem eq_stem_append_suffix (name : String) : name = (splitName name).1 ++ (splitName name).2 := by
  unfold splitName
  dsimp only
  split
  · rename_i stem hdrop
    split
    · simp
    · rw [← String.toList_inj, String.toList_append, String.toList_ofList, String.toList_ofList]
      have hsplit : name.toList.reverse.takeWhile (· != '.') ++ name.toList.reverse.dropWhile (· != '.')
          = name.toList.reverse := List.takeWhile_append_dropWhile
      rw [hdrop] at hsplit
      have hback := congrArg List.reverse hsplit
      rw [List.reverse_append, List.reverse_cons, List.reverse_reverse, List.append_assoc] at hback
      exact hback.symm
  · simp

theorem name_eq_of_suffix {path : Path} {suffix : String} (h : path.suffix = suffix) :
    path.name = path.stem ++ suffix := by
  rw [← h]
  exact eq_stem_append_suffix path.name

theorem namesModule_of_suffix {path : Path} (h : path.suffix = moduleSuffix) : path.NamesModule := by
  have hname := name_eq_of_suffix h
  rcases List.eq_nil_or_concat path.parts with hnil | ⟨way, last, hparts⟩
  · rw [name, hnil] at hname
    have hlength := congrArg (fun text => text.toList.length) hname
    simp only [String.toList_append, List.length_append] at hlength
    have hsuffix : moduleSuffix.toList.length = 5 := rfl
    have hempty : ((([] : List String).getLast?).getD "").toList.length = 0 := rfl
    omega
  · refine ⟨way, path.stem, ?_⟩
    rw [hparts, List.concat_eq_append, ← hname, name, hparts, List.concat_eq_append, List.getLast?_concat,
      Option.getD_some]

theorem NamesModule.parts_resolve {path : Path} (h : path.NamesModule) :
    ∃ way base, path.resolve.parts = way ++ [base ++ moduleSuffix] := by
  obtain ⟨way, base, hparts⟩ := h
  exact ⟨_, base, parts_resolve_of_name hparts (append_moduleSuffix_ne base)⟩

/-- A module document keeps its name when its path is resolved. -/
theorem suffix_resolve {path : Path} (h : path.suffix = moduleSuffix) : path.resolve.suffix = moduleSuffix := by
  obtain ⟨way, base, hparts⟩ := namesModule_of_suffix h
  have hname : path.resolve.name = path.name := by
    rw [name, name, parts_resolve_of_name hparts (append_moduleSuffix_ne base), hparts, List.getLast?_concat,
      List.getLast?_concat]
  rw [← h, suffix, suffix, hname]

/-- What stands after the last slash is a piece of its own. -/
theorem pieces_append {more : List Char} (h : '/' ∉ more) (text : List Char) :
    ∃ before last, pieces text = before ++ [last] ∧ pieces (text ++ more) = before ++ [last ++ more] := by
  induction text with
  | nil =>
    refine ⟨[], [], rfl, ?_⟩
    induction more with
    | nil => rfl
    | cons c rest ih =>
      rw [List.mem_cons, not_or] at h
      have hrest : pieces rest = [rest] := ih h.2
      show pieces (c :: rest) = [c :: rest]
      rw [pieces, hrest]
      dsimp only
      rw [if_neg (by simpa using Ne.symm h.1)]
  | cons c rest ih =>
    obtain ⟨before, last, htext, hmore⟩ := ih
    rw [List.cons_append, pieces, pieces, htext, hmore]
    -- a slash begins a new piece, any other character goes into the first one, which may be the last
    cases before with
    | nil =>
      by_cases hslash : c = '/'
      · subst hslash
        exact ⟨[[]], last, rfl, rfl⟩
      · refine ⟨[], c :: last, ?_, ?_⟩
        · simp [hslash]
        · simp [hslash]
    | cons first before =>
      by_cases hslash : c = '/'
      · subst hslash
        exact ⟨[] :: first :: before, last, rfl, rfl⟩
      · refine ⟨(c :: first) :: before, last, ?_, ?_⟩
        · simp [hslash]
        · simp [hslash]

/-- The name of a module stays at the end of the components. -/
theorem components_append_moduleSuffix (name : String) :
    ∃ way base, components (name ++ moduleSuffix) = way ++ [base ++ moduleSuffix] := by
  have hslash : '/' ∉ moduleSuffix.toList := by decide
  obtain ⟨before, last, -, hpieces⟩ := pieces_append hslash name.toList
  have hlast : String.ofList (last ++ moduleSuffix.toList) = String.ofList last ++ moduleSuffix := by
    rw [← String.toList_inj]
    simp
  -- a piece with the suffix is neither empty nor a dot, and so it is a component
  have hkept : (String.ofList last ++ moduleSuffix != "" && String.ofList last ++ moduleSuffix != ".") = true := by
    have hlength : 5 ≤ (String.ofList last ++ moduleSuffix).toList.length := by
      have hsuffix : moduleSuffix.toList.length = 5 := rfl
      rw [String.toList_append, List.length_append]
      omega
    rw [Bool.and_eq_true, bne_iff_ne, bne_iff_ne]
    refine ⟨fun h => ?_, fun h => ?_⟩
    · rw [h] at hlength
      exact absurd hlength (by decide)
    · rw [h] at hlength
      exact absurd hlength (by decide)
  refine ⟨(before.map String.ofList).filter fun part => part != "" && part != ".", String.ofList last, ?_⟩
  have hsingle : [String.ofList last ++ moduleSuffix].filter (fun part => part != "" && part != ".")
      = [String.ofList last ++ moduleSuffix] :=
    List.filter_eq_self.mpr (List.forall_mem_singleton.mpr hkept)
  rw [components, String.toList_append, hpieces, List.map_append, List.map_singleton, hlast, List.filter_append,
    hsingle]

theorem namesModule_join (root : Path) (name : String) : (root.join (name ++ moduleSuffix)).NamesModule := by
  obtain ⟨way, base, hparts⟩ := components_append_moduleSuffix name
  unfold join
  split
  · exact ⟨way, base, hparts⟩
  · exact ⟨root.parts ++ way, base, by rw [hparts, List.append_assoc]⟩

end Path

namespace FileTree

variable {tree tree' : FileTree} {path : Path} {place : List String} {content : ByteArray}

/-! ## Questions about a tree in which a file was written -/

namespace Wrote

variable (h : tree.Wrote tree' place content)
include h

/-- **What stands at a path** is what stood there, unless the path leads to the place. -/
theorem find? (path : Path) : tree'.find? path = tree.find? path ∨
    tree.locate path = .ok place ∧ tree.find? path = .ok (tree.entry? place) ∧
      tree'.find? path = .ok (some (.file content)) := by
  by_cases hplace : path.resolve.parts ∈ [place]
  · obtain rfl := List.mem_singleton.mp hplace
    cases hlocate : tree.locate path with
    | ok found =>
      obtain rfl := locate_eq_ok hlocate
      exact .inr ⟨rfl, find?_of_locate hlocate, by rw [find?_of_locate (h.locate hlocate), h.here]⟩
    | error fault => exact .inl (h.sameBut.find?_of_error hlocate)
  · exact .inl (h.sameBut.find? hplace)

/-- No directory is made or lost. -/
theorem isDirectory (path : Path) : tree'.isDirectory path = tree.isDirectory path := by
  rw [FileTree.isDirectory, FileTree.isDirectory]
  rcases h.find? path with hsame | ⟨-, hold, hnew⟩
  · rw [hsame]
  · have hnone := h.noDirectory
    rw [hold, hnew]
    show Except.ok false = Except.ok ((tree.entry? place).any Entry.isDirectory)
    cases hentry : tree.entry? place with
    | none => rfl
    | some entry =>
      cases entry with
      | file old => rfl
      | directory => exact absurd hentry hnone

/-- A path is that of a file as before, if it does not lead to the place or led to a file there. -/
theorem isFile (hpath : tree.locate path = .ok place → ∃ old, tree.entry? place = some (.file old)) :
    tree'.isFile path = tree.isFile path := by
  rw [FileTree.isFile, FileTree.isFile]
  rcases h.find? path with hsame | ⟨hlocate, hold, hnew⟩
  · rw [hsame]
  · obtain ⟨old, hentry⟩ := hpath hlocate
    rw [hold, hnew, hentry]
    rfl

/-- For module documents a write beside them changes nothing. -/
theorem isModuleFile (hmodules : ∀ path : Path, path.NamesModule → tree'.isFile path = tree.isFile path)
    (path : Path) : tree'.isModuleFile path = tree.isModuleFile path := by
  rw [FileTree.isModuleFile, FileTree.isModuleFile]
  by_cases hsuffix : path.suffix = Path.moduleSuffix
  · rw [hmodules path (Path.namesModule_of_suffix hsuffix)]
  · have hfalse : (path.suffix == Path.moduleSuffix) = false := by simpa using hsuffix
    rw [FileTree.isFile, FileTree.isFile, hfalse]
    rcases h.find? path with hsame | ⟨-, hold, hnew⟩
    · rw [hsame]
    · rw [hold, hnew]
      simp [Except.map, bind, Except.bind]

end Wrote

/-! ## What a directory holds -/

/-- The keys of the entries. -/
def places (tree : FileTree) : List (List String) := tree.entries.map (·.1)

/-- The names in a directory among some places. -/
def namesAmong (place : List String) (places : List (List String)) : List String :=
  places.filterMap fun other => if other.dropLast == place && !other.isEmpty then other.getLast? else none

theorem names_of_locate (h : tree.locate path = .ok place) :
    tree.names path = (namesAmong place tree.places).mergeSort fun a b => decide (a ≤ b) := by
  rw [names, h, namesAmong, places, List.filterMap_map]
  rfl

theorem places_set (tree : FileTree) (place : List String) (entry : Entry) :
    (tree.set place entry).places
      = if (tree.entries.lookup place).isSome then tree.places else tree.places ++ [place] := by
  unfold set places
  split
  · rw [List.map_map]
    rfl
  · rw [List.map_append]
    rfl

/-- What a listing gives when every question is answered. -/
theorem filterM_eq_ok_iff {α ε : Type} {f : α → Except ε Bool} {xs ys : List α} :
    xs.filterM f = .ok ys ↔
      (∀ x ∈ xs, ∃ b, f x = .ok b) ∧ ys = xs.filter fun x => (f x).toOption.getD false := by
  -- the elements that were kept so far are collected in reverse
  have haux : ∀ acc ys : List α, xs.filterAuxM f acc = .ok ys ↔
      (∀ x ∈ xs, ∃ b, f x = .ok b) ∧ ys = (xs.filter fun x => (f x).toOption.getD false).reverse ++ acc := by
    induction xs with
    | nil =>
      intro acc ys
      simp [List.filterAuxM, pure, Except.pure, eq_comm]
    | cons x rest ih =>
      intro acc ys
      rw [List.filterAuxM, List.forall_mem_cons]
      cases hx : f x with
      | error error => simp [bind, Except.bind]
      | ok b =>
        show rest.filterAuxM f (cond b (x :: acc) acc) = .ok ys ↔ _
        rw [ih]
        cases b with
        | true => simp [hx, Except.toOption]
        | false => simp [hx, Except.toOption]
  unfold List.filterM
  constructor
  · intro h
    cases hx : xs.filterAuxM f [] with
    | error error =>
      rw [hx] at h
      exact nomatch h
    | ok found =>
      rw [hx] at h
      obtain rfl : found.reverse = ys := Except.ok.inj h
      obtain ⟨hall, rfl⟩ := (haux [] found).mp hx
      exact ⟨hall, by simp⟩
  · rintro ⟨hall, rfl⟩
    rw [(haux [] _).mpr ⟨hall, rfl⟩]
    simp [bind, Except.bind, pure, Except.pure]

/-- Sorting and choosing commute, also when something is added that is not chosen. -/
theorem filter_mergeSort_concat {p : String → Bool} (xs : List String) {x : String} (h : p x = false) :
    ((xs ++ [x]).mergeSort fun a b => decide (a ≤ b)).filter p
      = (xs.mergeSort fun a b => decide (a ≤ b)).filter p := by
  have hsorted : ∀ ys : List String,
      ((ys.mergeSort fun a b => decide (a ≤ b)).filter p).Pairwise fun a b => a ≤ b := by
    intro ys
    have hpairwise := @List.pairwise_mergeSort _ (fun a b : String => decide (a ≤ b))
      (fun a b c hab hbc => decide_eq_true (le_trans (of_decide_eq_true hab) (of_decide_eq_true hbc)))
      (fun a b => by simpa using le_total a b) ys
    exact (hpairwise.sublist List.filter_sublist).imp of_decide_eq_true
  refine List.Perm.eq_of_pairwise (fun a b _ _ hab hba => le_antisymm hab hba) (hsorted _) (hsorted _) ?_
  have hfilter : (xs ++ [x]).filter p = xs.filter p := by
    rw [List.filter_append, List.filter_cons_of_neg (by simp [h]), List.filter_nil, List.append_nil]
  refine ((List.mergeSort_perm _ _).filter p).trans ?_
  rw [hfilter]
  exact ((List.mergeSort_perm _ _).filter p).symm

/-! ## Names in a directory -/

theorem intercalate_concat (names : List String) (name : String) :
    "/".intercalate (names ++ [name]) = "/".intercalate (names ++ [""]) ++ name := by
  rw [← String.toList_inj, String.toList_append, String.toList_intercalate, String.toList_intercalate,
    List.map_append, List.map_append]
  generalize names.map String.toList = texts
  induction texts with
  | nil => simp
  | cons first rest ih =>
    cases rest with
    | nil => simp [List.intercalate]
    | cons second rest =>
      simp only [List.cons_append, List.intercalate_cons_cons] at ih ⊢
      rw [ih, List.append_assoc, List.append_assoc, List.append_assoc]

/-- The length of a path to something in a directory depends on the length of the name only. -/
theorem text_child (root : Path) (name : String) : (root.child name).text = (root.child "").text ++ name := by
  rw [Path.text, Path.text, Path.child, Path.child]
  dsimp only
  rw [intercalate_concat, String.append_assoc]

section

variable {root : Path} {name other : String}

theorem locate_child (hroot : tree.locate root = .ok place) (hdirectory : tree.entry? place = some .directory)
    (hnull : (root.child name).hasNull = false) :
    tree.locate (root.child name)
      = if pathLimit < (root.child name).text.utf8ByteSize ∨ nameLimit < name.utf8ByteSize then
          .error (.nameTooLong (root.child name))
        else .ok (Path.resolveStep place name) := by
  have hfollow : tree.follow (root.child name) [] (root.parts ++ [name])
      = if nameLimit < name.utf8ByteSize then .error (.nameTooLong (root.child name))
        else .ok (Path.resolveStep place name) := by
    rw [follow_append_of_ok (follow_of_follow (locate_eq_ok_iff.mp hroot).2.2), follow, hdirectory]
    rfl
  rw [locate, hnull, if_neg Bool.false_ne_true]
  show (if pathLimit < _ then _ else tree.follow (root.child name) [] (root.parts ++ [name])) = _
  rw [hfollow]
  by_cases hlong : pathLimit < (root.child name).text.utf8ByteSize
  · rw [if_pos hlong, if_pos (.inl hlong)]
  · rw [if_neg hlong]
    simp only [hlong, false_or]

/-- **A name that is no longer than another one** can be asked about where the other one can. -/
theorem exists_find?_child (hroot : tree.locate root = .ok place)
    (hdirectory : tree.entry? place = some .directory) (hnull : (root.child name).hasNull = false)
    (hlength : other.utf8ByteSize ≤ name.utf8ByteSize) {found : Option Entry}
    (hname : tree.find? (root.child name) = .ok found) : ∃ found, tree.find? (root.child other) = .ok found := by
  cases hnull' : (root.child other).hasNull with
  | true =>
    have hlocate : tree.locate (root.child other) = .error .nullCharacter := by rw [locate, hnull', if_pos rfl]
    exact ⟨none, by rw [find?, hlocate]⟩
  | false =>
    have hshort : ¬ (pathLimit < (root.child name).text.utf8ByteSize ∨ nameLimit < name.utf8ByteSize) := by
      intro hlong
      rw [find?, locate_child hroot hdirectory hnull, if_pos hlong] at hname
      cases hname
    have hshort' : ¬ (pathLimit < (root.child other).text.utf8ByteSize ∨ nameLimit < other.utf8ByteSize) := by
      rw [text_child, String.utf8ByteSize_append] at hshort ⊢
      omega
    have hlocate := locate_child hroot hdirectory hnull'
    rw [if_neg hshort'] at hlocate
    exact ⟨_, find?_of_locate hlocate⟩

end

/-! ## Searching -/

/-- A search for modules finds in `tree'` what it finds in `tree`. -/
structure SearchesAs (tree tree' : FileTree) : Prop where
  findModule? : ∀ name roots, tree'.findModule? name roots = tree.findModule? name roots
  moduleFilesIn : ∀ root paths, tree.moduleFilesIn root = .ok paths → tree'.moduleFilesIn root = .ok paths

theorem SearchesAs.trans {a b c : FileTree} (hab : a.SearchesAs b) (hbc : b.SearchesAs c) : a.SearchesAs c where
  findModule? name roots := (hbc.findModule? name roots).trans (hab.findModule? name roots)
  moduleFilesIn root paths h := hbc.moduleFilesIn root paths (hab.moduleFilesIn root paths h)

theorem SearchesAs.selectModules (h : tree.SearchesAs tree') {roots paths : List Path} {hints : List String}
    {exclude : Bool} (hpaths : tree.selectModules roots hints exclude = .ok paths) :
    tree'.selectModules roots hints exclude = .ok paths := by
  obtain ⟨files, hfiles, hpaths⟩ := bind_eq_ok hpaths
  obtain ⟨listed, hlisted, hfiles⟩ := bind_eq_ok hfiles
  have hlisted' : roots.mapM tree'.moduleFilesIn = .ok listed :=
    mapM_eq_ok_of_imp (fun root _ files hroot => h.moduleFilesIn root files hroot) hlisted
  rw [FileTree.selectModules, moduleFiles, hlisted']
  obtain rfl : listed.flatten = files := Except.ok.inj hfiles
  exact hpaths

theorem findModule?_of_isFile (hmodules : ∀ path : Path, path.NamesModule → tree'.isFile path = tree.isFile path)
    (name : String) (roots : List Path) : tree'.findModule? name roots = tree.findModule? name roots := by
  induction roots with
  | nil => rfl
  | cons root rest ih =>
    rw [findModule?, findModule?, hmodules _ (Path.namesModule_join root name), ih]

/-- What a listing of a directory needs. -/
theorem moduleFilesIn_eq_ok_iff {root : Path} {paths : List Path} :
    tree.moduleFilesIn root = .ok paths ↔
      tree.isDirectory root = .ok false ∧ paths = [] ∨
        tree.isDirectory root = .ok true ∧
          ((tree.names root).map root.child).filterM tree.isModuleFile = .ok paths := by
  rw [moduleFilesIn]
  cases tree.isDirectory root with
  | error fault => simp [bind, Except.bind]
  | ok b =>
    cases b with
    | true => simp [bind, Except.bind]
    | false => simp [bind, Except.bind, eq_comm]

theorem exists_directory_of_isDirectory (h : tree.isDirectory path = .ok true) :
    ∃ place, tree.locate path = .ok place ∧ tree.entry? place = some .directory := by
  cases hlocate : tree.locate path with
  | error fault =>
    rw [isDirectory, find?, hlocate] at h
    cases fault <;> cases h
  | ok place =>
    refine ⟨place, rfl, ?_⟩
    rw [isDirectory, find?_of_locate hlocate] at h
    cases hentry : tree.entry? place with
    | none =>
      rw [hentry] at h
      cases h
    | some entry =>
      cases entry with
      | directory => rfl
      | file old =>
        rw [hentry] at h
        cases h

/-- A listing is the same if the names are and modules are told as before. -/
theorem Wrote.moduleFilesIn_of_names (h : tree.Wrote tree' place content)
    (hmodules : ∀ path : Path, path.NamesModule → tree'.isFile path = tree.isFile path) {root : Path}
    (hnames : tree.isDirectory root = .ok true → tree'.names root = tree.names root) {paths : List Path}
    (hpaths : tree.moduleFilesIn root = .ok paths) : tree'.moduleFilesIn root = .ok paths := by
  rw [moduleFilesIn_eq_ok_iff, h.isDirectory, funext (h.isModuleFile hmodules)]
  refine (moduleFilesIn_eq_ok_iff.mp hpaths).imp_right fun ⟨hdirectory, hfiles⟩ => ⟨hdirectory, ?_⟩
  rw [hnames hdirectory, hfiles]

theorem isSome_lookup {entry : Entry} (hplace : place ≠ []) (h : tree.entry? place = some entry) :
    (tree.entries.lookup place).isSome := by
  cases place with
  | nil => exact absurd rfl hplace
  | cons part rest =>
    have hlookup : tree.entries.lookup (part :: rest) = some entry := h
    rw [hlookup]
    rfl

/-- **A file that is written over** is found as before. -/
theorem searchesAs_of_overwrite {old : ByteArray} (hold : tree.readBytes path = .ok old)
    (hwrite : tree.writeBytes path content = .ok tree') : tree.SearchesAs tree' := by
  obtain ⟨-, hentry⟩ := readBytes_eq_ok_iff.mp hold
  obtain ⟨-, hwrote⟩ := wrote_of_writeBytes hwrite
  obtain ⟨-, hnot, hset⟩ := writeBytes_eq_ok_iff.mp hwrite
  have hmodules : ∀ other : Path, other.NamesModule → tree'.isFile other = tree.isFile other :=
    fun other _ => hwrote.isFile fun _ => ⟨old, hentry⟩
  have hplaces : tree'.places = tree.places := by
    rw [hset, places_set, if_pos (isSome_lookup (ne_nil_of_not_directory hnot) hentry)]
  refine ⟨findModule?_of_isFile hmodules, fun root paths => hwrote.moduleFilesIn_of_names hmodules fun hroot => ?_⟩
  obtain ⟨place, hlocate, -⟩ := exists_directory_of_isDirectory hroot
  rw [names_of_locate hlocate, names_of_locate (hwrote.locate hlocate), hplaces]

/-- A module document and its symbol document stand side by side, under names of the same length. -/
theorem exists_names_of_module {old : ByteArray} {symbols : Path} (hread : tree.readBytes path = .ok old)
    (hsuffix : path.suffix = Path.moduleSuffix) (hsymbols : path.symbols = .ok symbols) :
    ∃ way stem, path.resolve.parts = way ++ [stem ++ Path.moduleSuffix] ∧
      symbols.resolve.parts = way ++ [stem ++ Path.symbolSuffix] ∧ '\x00' ∉ (stem ++ Path.moduleSuffix).toList := by
  obtain ⟨way, name, hparts, hname, -⟩ := exists_name_of_readBytes hread
  obtain ⟨hlocate, -⟩ := readBytes_eq_ok_iff.mp hread
  obtain rfl := Except.ok.inj (hsymbols.symm.trans (Path.symbols_eq_ok hparts))
  have hstem : name = (Path.splitName name).1 ++ Path.moduleSuffix := by
    have hpath := Path.name_eq_of_suffix hsuffix
    rwa [Path.stem, Path.name, hparts, List.getLast?_concat, Option.getD_some] at hpath
  refine ⟨way.foldl Path.resolveStep [], (Path.splitName name).1, ?_, ?_, ?_⟩
  · rw [← hstem]
    exact Path.parts_resolve_of_name hparts hname
  · exact Path.parts_resolve_of_name (Path.parts_withSuffix hparts _) (Path.append_symbolSuffix_ne _)
  · have hnull := (locate_eq_ok_iff.mp hlocate).1
    rw [← hstem]
    rw [Path.hasNull, hparts, List.any_append, Bool.or_eq_false_iff] at hnull
    simpa using hnull.2

theorem mem_namesAmong {name : String} {places : List (List String)} (h : place ++ [name] ∈ places) :
    name ∈ namesAmong place places :=
  List.mem_filterMap.mpr ⟨place ++ [name], h, by simp⟩

/-- A name in a directory that was listed can be asked about, and so can a name of the same length. -/
theorem isModuleFile_child_eq_false {root : Path} {stem : String} (hroot : tree.locate root = .ok place)
    (hdirectory : tree.entry? place = some .directory) (hnull : '\x00' ∉ (stem ++ Path.moduleSuffix).toList)
    {b : Bool} (hname : tree.isModuleFile (root.child (stem ++ Path.moduleSuffix)) = .ok b) :
    tree.isModuleFile (root.child (stem ++ Path.symbolSuffix)) = .ok false := by
  have hnull' : (root.child (stem ++ Path.moduleSuffix)).hasNull = false := by
    have hclean := (locate_eq_ok_iff.mp hroot).1
    rw [Path.hasNull] at hclean
    rw [Path.hasNull, Path.child, List.any_append, hclean]
    simpa using hnull
  have hlength : (stem ++ Path.symbolSuffix).utf8ByteSize ≤ (stem ++ Path.moduleSuffix).utf8ByteSize := by
    rw [String.utf8ByteSize_append, String.utf8ByteSize_append]
    exact Nat.le_refl _
  obtain ⟨there, hthere, -⟩ := bind_eq_ok hname
  obtain ⟨found, hfound, -⟩ := map_eq_ok hthere
  obtain ⟨found', hfound'⟩ := exists_find?_child hroot hdirectory hnull' hlength hfound
  have hsuffix : ((root.child (stem ++ Path.symbolSuffix)).suffix == Path.moduleSuffix) = false := by
    rw [beq_eq_false_iff_ne]
    intro hsuffix
    have hpath := Path.name_eq_of_suffix hsuffix
    rw [Path.name, Path.child, List.getLast?_concat, Option.getD_some] at hpath
    exact Path.moduleSuffix_ne_symbolSuffix _ _ hpath.symm
  rw [isModuleFile, isFile, hfound', hsuffix]
  simp [Except.map, bind, Except.bind]

/-- Setting an entry lists its name in the directory it is put into, unless it was listed, and nowhere else. -/
theorem namesAmong_set (way : List String) (name : String) (entry : Entry) (place : List String) :
    namesAmong place (tree.set (way ++ [name]) entry).places = namesAmong place tree.places ∨
      way = place ∧
        namesAmong place (tree.set (way ++ [name]) entry).places = namesAmong place tree.places ++ [name] := by
  rw [places_set]
  split
  · exact .inl rfl
  · by_cases hway : way = place
    · right
      simp [namesAmong, hway]
    · left
      simp [namesAmong, hway]

/-- A listing is the same if it has one more name, which is not the name of a module. -/
theorem Wrote.moduleFilesIn_of_concat {written : List String} (h : tree.Wrote tree' written content)
    (hmodules : ∀ path : Path, path.NamesModule → tree'.isFile path = tree.isFile path) {root : Path}
    (hroot : tree.locate root = .ok place) {name : String}
    (hnames : namesAmong place tree'.places = namesAmong place tree.places ++ [name])
    (hname : tree.isModuleFile (root.child name) = .ok false) {paths : List Path}
    (hpaths : tree.moduleFilesIn root = .ok paths) : tree'.moduleFilesIn root = .ok paths := by
  rw [moduleFilesIn_eq_ok_iff, h.isDirectory, funext (h.isModuleFile hmodules)]
  refine (moduleFilesIn_eq_ok_iff.mp hpaths).imp_right fun ⟨hdirectory, hfiles⟩ => ⟨hdirectory, ?_⟩
  obtain ⟨hall, rfl⟩ := filterM_eq_ok_iff.mp hfiles
  rw [names_of_locate (h.locate hroot), hnames]
  rw [names_of_locate hroot] at hall ⊢
  refine filterM_eq_ok_iff.mpr ⟨fun path hpath => ?_, ?_⟩
  · obtain ⟨listed, hlisted, rfl⟩ := List.mem_map.mp hpath
    rcases List.mem_append.mp (List.mem_mergeSort.mp hlisted) with hlisted | hlisted
    · exact hall _ (List.mem_map_of_mem (List.mem_mergeSort.mpr hlisted))
    · rw [List.mem_singleton.mp hlisted]
      exact ⟨false, hname⟩
  · rw [List.filter_map, List.filter_map]
    refine congrArg (List.map root.child) (filter_mergeSort_concat _ ?_).symm
    show (tree.isModuleFile (root.child name)).toOption.getD false = false
    rw [hname]
    rfl

/-- **A symbol document beside a module** leaves searches as they were. -/
theorem searchesAs_of_companion {old : ByteArray} {symbols : Path} (hread : tree.readBytes path = .ok old)
    (hsuffix : path.suffix = Path.moduleSuffix) (hsymbols : path.symbols = .ok symbols)
    (hwrite : tree.writeBytes symbols content = .ok tree') : tree.SearchesAs tree' := by
  obtain ⟨way, stem, hpath, hplace, hnull⟩ := exists_names_of_module hread hsuffix hsymbols
  obtain ⟨-, hwrote⟩ := wrote_of_writeBytes hwrite
  obtain ⟨-, -, hset⟩ := writeBytes_eq_ok_iff.mp hwrite
  obtain ⟨-, hentry⟩ := readBytes_eq_ok_iff.mp hread
  rw [hplace] at hwrote hset
  rw [hpath] at hentry
  have hmodules : ∀ other : Path, other.NamesModule → tree'.isFile other = tree.isFile other := by
    refine fun other hother => hwrote.isFile fun hlocate => ?_
    obtain ⟨before, base, hparts⟩ := hother.parts_resolve
    rw [← locate_eq_ok hlocate] at hparts
    exact absurd (List.append_inj' hparts rfl).2 (by simpa using (Path.moduleSuffix_ne_symbolSuffix base stem).symm)
  refine ⟨findModule?_of_isFile hmodules, fun root paths hpaths => ?_⟩
  rcases moduleFilesIn_eq_ok_iff.mp hpaths with ⟨hfile, rfl⟩ | ⟨hroot, hfiles⟩
  · exact moduleFilesIn_eq_ok_iff.mpr (.inl ⟨(hwrote.isDirectory root).trans hfile, rfl⟩)
  · obtain ⟨place, hlocate, hdirectory⟩ := exists_directory_of_isDirectory hroot
    rcases namesAmong_set way (stem ++ Path.symbolSuffix) (.file content) place with hsame | ⟨rfl, hmore⟩
    · refine hwrote.moduleFilesIn_of_names hmodules (fun _ => ?_) hpaths
      rw [names_of_locate hlocate, names_of_locate (hwrote.locate hlocate), hset, hsame]
    · -- the directory lists the module too, so the name of its symbols can be asked about
      have hold : stem ++ Path.moduleSuffix ∈ tree.names root := by
        rw [names_of_locate hlocate, List.mem_mergeSort]
        obtain ⟨found, hfound⟩ := Option.isSome_iff_exists.mp (isSome_lookup (by simp) hentry)
        exact mem_namesAmong (List.mem_map_of_mem (mem_of_lookup hfound))
      obtain ⟨b, hb⟩ := (filterM_eq_ok_iff.mp hfiles).1 _ (List.mem_map_of_mem hold)
      have hnew := isModuleFile_child_eq_false hlocate hdirectory hnull hb
      exact hwrote.moduleFilesIn_of_concat hmodules hlocate (by rw [hset, hmore]) hnew hpaths

end FileTree

end JobClosure
