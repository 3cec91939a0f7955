import JobClosure.Proofs.FileTree.Writing

/-!
# A module document and its symbol document

The symbol document stands beside the module document under a name of its own. Its place depends on the
place of the module document alone: a path with double dots and the resolved path have their symbols at
the same place (`exists_companion`). The directories on the way to a file are those on the way to its
companion, so only the length of a name or a path can keep the companion from being looked for.
-/

namespace JobClosure

namespace Path

variable {path : Path} {way : List String} {name : String}

theorem mem_of_mem_stem {c : Char} (h : c ∈ (splitName name).1.toList) : c ∈ name.toList := by
  unfold splitName at h
  dsimp only at h
  split at h
  · rename_i stem hdrop
    split at h
    · exact h
    · rw [String.toList_ofList, List.mem_reverse] at h
      have hmem : c ∈ name.toList.reverse.dropWhile (· != '.') := hdrop ▸ List.mem_cons_of_mem _ h
      exact List.mem_reverse.mp ((List.dropWhile_sublist _).subset hmem)
  · exact h

theorem parts_withSuffix (h : path.parts = way ++ [name]) (suffix : String) :
    (path.withSuffix suffix).parts = way ++ [(splitName name).1 ++ suffix] := by
  simp [withSuffix, withName, stem, Path.name, h]

theorem symbols_eq_ok (h : path.parts = way ++ [name]) : path.symbols = .ok (path.withSuffix symbolSuffix) := by
  simp [symbols, symbols?, h]

/-- What ends with a suffix of more than two characters is no double dot. -/
theorem append_ne_dots {suffix : String} (hlong : 2 < suffix.toList.length) (stem : String) :
    stem ++ suffix ≠ ".." := by
  intro h
  have hlength := congrArg (fun text => text.toList.length) h
  simp only [String.toList_append, List.length_append] at hlength
  have hdots : "..".toList.length = 2 := rfl
  omega

theorem append_symbolSuffix_ne (stem : String) : stem ++ symbolSuffix ≠ ".." := append_ne_dots (by decide) stem

/-- A name at the end stays at the end of the resolved path. -/
theorem parts_resolve_of_name (h : path.parts = way ++ [name]) (hname : name ≠ "..") :
    path.resolve.parts = way.foldl resolveStep [] ++ [name] := by
  show path.parts.foldl resolveStep [] = _
  rw [h, List.foldl_append, List.foldl_cons, List.foldl_nil, resolveStep, if_neg (by simpa using hname)]

theorem hasNull_withSuffix (h : path.parts = way ++ [name]) (hnull : path.hasNull = false) :
    (path.withSuffix symbolSuffix).hasNull = false := by
  rw [hasNull, h, List.any_append, Bool.or_eq_false_iff] at hnull
  rw [hasNull, parts_withSuffix h, List.any_append, Bool.or_eq_false_iff]
  refine ⟨hnull.1, ?_⟩
  have hname : '\x00' ∉ name.toList := by simpa using hnull.2
  have hstem : '\x00' ∉ (splitName name).1.toList := fun hmem => hname (mem_of_mem_stem hmem)
  have hsuffix : '\x00' ∉ symbolSuffix.toList := by decide
  simp [hstem, hsuffix]

end Path

namespace FileTree

variable {tree : FileTree} {path : Path} {content : ByteArray}

/-- It cannot be asked what stands at a path that is too long. -/
theorem contains_of_tooLong {long : Path} (h : tree.locate path = .error (.nameTooLong long)) :
    tree.contains path = .error (.nameTooLong long) := by
  rw [contains, find?, h]
  rfl

/-- **A file has its companion at one place, however the path to the file is spelled**, and the path to the
companion can be followed if it can be asked what stands there. -/
theorem exists_companion (h : tree.readBytes path = .ok content) :
    ∃ symbols resolved, path.symbols = .ok symbols ∧ path.resolve.symbols = .ok resolved ∧
      resolved.resolve.parts = symbols.resolve.parts ∧
      ∀ b, tree.contains symbols = .ok b → tree.locate symbols = .ok symbols.resolve.parts := by
  obtain ⟨way, name, hparts, hname, hway, hdirectory, -⟩ := exists_name_of_readBytes h
  obtain ⟨hlocate, -⟩ := readBytes_eq_ok_iff.mp h
  have hresolved := Path.parts_resolve_of_name hparts hname
  have hsuffix := Path.append_symbolSuffix_ne (Path.splitName name).1
  have hplace : (path.withSuffix Path.symbolSuffix).resolve.parts
      = way.foldl Path.resolveStep [] ++ [(Path.splitName name).1 ++ Path.symbolSuffix] :=
    Path.parts_resolve_of_name (Path.parts_withSuffix hparts _) hsuffix
  refine ⟨_, _, Path.symbols_eq_ok hparts, Path.symbols_eq_ok hresolved, ?_, ?_⟩
  · -- the way of the resolved path has no double dots left to resolve
    have hdots : ".." ∉ way.foldl Path.resolveStep [] :=
      Path.not_mem_foldl_resolveStep way List.not_mem_nil
    have hway : (way.foldl Path.resolveStep []).foldl Path.resolveStep [] = way.foldl Path.resolveStep [] := by
      rw [Path.foldl_resolveStep [] hdots, List.nil_append]
    rw [hplace, Path.parts_resolve_of_name (Path.parts_withSuffix hresolved _) hsuffix, hway]
  · intro b hcontains
    have hnull := Path.hasNull_withSuffix hparts (locate_eq_ok_iff.mp hlocate).1
    have hway' : tree.follow (path.withSuffix Path.symbolSuffix) [] way = .ok (way.foldl Path.resolveStep []) :=
      follow_of_follow hway
    have hfollow := follow_append_of_ok hway' [(Path.splitName name).1 ++ Path.symbolSuffix]
    rw [← Path.parts_withSuffix hparts Path.symbolSuffix] at hfollow
    -- a path or a name that is too long could not have been asked about
    by_cases hlong : pathLimit < (path.withSuffix Path.symbolSuffix).text.utf8ByteSize
    · have htooLong : tree.locate (path.withSuffix Path.symbolSuffix)
          = .error (.nameTooLong (path.withSuffix Path.symbolSuffix)) := by
        rw [locate, hnull, if_neg Bool.false_ne_true, if_pos hlong]
      rw [contains_of_tooLong htooLong] at hcontains
      exact nomatch hcontains
    · by_cases hbig : nameLimit < ((Path.splitName name).1 ++ Path.symbolSuffix).utf8ByteSize
      · have htooLong : tree.locate (path.withSuffix Path.symbolSuffix)
            = .error (.nameTooLong (path.withSuffix Path.symbolSuffix)) := by
          rw [locate, hnull, if_neg Bool.false_ne_true, if_neg hlong, hfollow, follow, hdirectory]
          exact if_pos hbig
        rw [contains_of_tooLong htooLong] at hcontains
        exact nomatch hcontains
      · refine locate_eq_ok_iff.mpr ⟨hnull, Nat.not_lt.mp hlong, ?_⟩
        rw [hfollow, hplace]
        refine follow_cons_eq_ok.mpr ⟨hdirectory, Nat.not_lt.mp hbig, ?_⟩
        rw [Path.resolveStep, if_neg (by simpa using hsuffix)]
        rfl

end FileTree

end JobClosure
