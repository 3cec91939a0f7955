import JobClosure.Proofs.Metadata.Rewritten

/-!
# Files that stop the loading of modules

Most of what can be wrong with a module is an error of loading, so that a module that is only wished for is left out
(`FileTree.Unreadable`). Three things are not: a path with the null character, a module document that is not UTF-8, and
a companion whose name or path is too long to be asked about (`FileTree.illegible_iff`). They come up as the errors
that they are in the file system and in the decoder, and nothing that waits for an error of loading takes them.
-/

namespace JobClosure

/-- Errors of files that no error of loading wraps. -/
inductive Error.Raw : Error → Prop
  | encoding (fault : Text.EncodingFault) : Raw (.encoding fault)
  | nullCharacter : Raw (.storage .nullCharacter)
  | tooLong (path : Path) : Raw (.storage (.nameTooLong path))

theorem Error.Raw.isLoad_eq_false {error : Error} (h : error.Raw) : error.isLoad = false := by
  cases h <;> rfl

namespace FileTree

variable {tree : FileTree} {path : Path}

/-- Only a length can keep from asking what stands at a path. -/
theorem find?_eq_error {fault : StorageFault} (h : tree.find? path = .error fault) :
    ∃ long, fault = .nameTooLong long := by
  unfold find? at h
  split at h
  · exact nomatch h
  · rename_i long _
    exact ⟨long, (Except.error.inj h).symm⟩
  · exact nomatch h

theorem contains_eq_error {fault : StorageFault} (h : tree.contains path = .error fault) :
    ∃ long, fault = .nameTooLong long :=
  find?_eq_error (map_eq_error h)

theorem isFile_eq_error {fault : StorageFault} (h : tree.isFile path = .error fault) :
    ∃ long, fault = .nameTooLong long :=
  find?_eq_error (map_eq_error h)

/-- Why what stands at a path stops the loading of modules and is not left out. -/
inductive Illegible (tree : FileTree) (path : Path) : Prop
  | null (hnull : path.hasNull = true)
  | encoding (bytes : ByteArray) (fault : Text.EncodingFault) (hbytes : tree.readBytes path = .ok bytes)
      (hdecode : Text.decode bytes = .error fault)
  | companion (text : String) (declared : Module) (companion long : Path) (htext : tree.readText path = .ok text)
      (hdocument : Module.ofDocument (some path) text = .ok declared) (hcompanion : path.symbols = .ok companion)
      (hlong : tree.contains companion = .error (.nameTooLong long))

theorem Illegible.exists_error (h : tree.Illegible path) :
    ∃ error, tree.readModule path = .error error ∧ error.Raw := by
  rcases h with hnull | ⟨bytes, fault, hbytes, hdecode⟩ |
    ⟨text, declared, companion, long, htext, hdocument, hcompanion, hlong⟩
  · refine ⟨_, ?_, .nullCharacter⟩
    rw [readModule, readText_of_bytes_error (readBytes_null_iff.mpr hnull)]
    rfl
  · refine ⟨_, ?_, .encoding fault⟩
    rw [readModule, readText, hbytes]
    show ((((Text.decode bytes).mapError Error.encoding >>= fun text => _).mapError _) >>= fun text => _) = _
    rw [hdecode]
    rfl
  · refine ⟨_, ?_, .tooLong long⟩
    have hsymbols : tree.readSymbols path = .error (.storage (.nameTooLong long)) := by
      rw [readSymbols, hcompanion]
      show ((tree.contains companion).mapError Error.storage >>= fun there => _) = _
      rw [hlong]
      rfl
    rw [readModule_of_text htext, hdocument]
    show (tree.readSymbols path >>= fun symbols => Except.ok { declared with symbols }) = _
    rw [hsymbols]
    rfl

theorem illegible_of_readModule {error : Error} (h : tree.readModule path = .error error)
    (hload : error.isLoad = false) : tree.Illegible path := by
  rcases bind_eq_error h with h | ⟨text, htext, h⟩
  · obtain ⟨cause, hcause, rfl⟩ := mapError_eq_error h
    rcases bind_eq_error hcause with hstorage | ⟨bytes, hbytes, hcause⟩
    · obtain ⟨fault, hfault, rfl⟩ := mapError_eq_error hstorage
      cases fault with
      | nullCharacter => exact .null (readBytes_null_iff.mp hfault)
      | _ => cases hload
    · rcases bind_eq_error hcause with hencoding | ⟨text, -, hcause⟩
      · obtain ⟨fault, hdecode, rfl⟩ := mapError_eq_error hencoding
        exact .encoding bytes fault (mapError_eq_ok hbytes) hdecode
      · cases hcause
  · have htext := mapError_eq_ok htext
    rcases bind_eq_error h with hdocument | ⟨declared, hdocument, h⟩
    · rw [isLoad_of_asLoad (fun _ => rfl) hdocument] at hload
      cases hload
    · rcases bind_eq_error h with h | ⟨symbols, -, h⟩
      · rcases bind_eq_error h with hnone | ⟨companion, hcompanion, h⟩
        · -- a document that is read from a file has a name, so it has a companion
          obtain ⟨fault, hnone, -⟩ := mapError_eq_error hnone
          obtain ⟨bytes, decoded, hbytes, -, -⟩ := readText_eq_ok_iff.mp htext
          obtain ⟨companion, -, hcompanion, -⟩ := exists_companion hbytes
          cases hnone.symm.trans hcompanion
        · rcases bind_eq_error h with hthere | ⟨there, -, h⟩
          · obtain ⟨fault, hlong, -⟩ := mapError_eq_error hthere
            obtain ⟨long, rfl⟩ := contains_eq_error hlong
            exact .companion text declared companion long htext (mapError_eq_ok hdocument)
              (mapError_eq_ok hcompanion) hlong
          · cases there with
            | false => cases h
            | true =>
              obtain ⟨cause, -, rfl⟩ := mapError_eq_error h
              cases hload
      · cases h

/-- **The loading of modules stops** for these reasons. -/
theorem illegible_iff :
    tree.Illegible path ↔ ∃ error, tree.readModule path = .error error ∧ error.isLoad = false := by
  constructor
  · intro h
    obtain ⟨error, herror, hraw⟩ := h.exists_error
    exact ⟨error, herror, hraw.isLoad_eq_false⟩
  · rintro ⟨error, herror, hload⟩
    exact illegible_of_readModule herror hload

end FileTree

end JobClosure
