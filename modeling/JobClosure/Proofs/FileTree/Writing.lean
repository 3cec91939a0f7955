import JobClosure.FileTree.Basic
import JobClosure.Proofs.Except

/-!
# What a write changes

Writing a file changes what stands at one place and nothing else (`wrote_of_writeBytes`). No directory is made
or lost, so every path that could be followed before leads to the same place afterwards, and every other path
leads nowhere as before (`SameBut`): a path to the place that was written reads the new content, however it is
spelled, and a path to any other place reads what it read before.

The path of a file ends with a name, not with a double dot, because a double dot leads back into a
directory that was passed on the way (`exists_name_of_readBytes`).
-/

namespace JobClosure

/-- Whether a path cannot be followed because something on its way is no directory. -/
def StorageFault.IsMissing : StorageFault → Prop
  | .notFound _ | .notADirectory _ => True
  | _ => False

namespace FileTree

variable {tree tree' : FileTree} {path : Path} {place : List String} {content : ByteArray}

/-! ## Following a path -/

theorem follow_cons_eq_ok {start result : List String} {part : String} {rest : List String} :
    tree.follow path start (part :: rest) = .ok result ↔
      tree.entry? start = some .directory ∧ part.utf8ByteSize ≤ nameLimit ∧
        tree.follow path (Path.resolveStep start part) rest = .ok result := by
  rw [follow.eq_def]
  dsimp only
  split
  · rename_i hdirectory
    by_cases hlong : nameLimit < part.utf8ByteSize
    · simp [hlong, Nat.not_le.mpr hlong]
    · simp [hlong, hdirectory, Nat.not_lt.mp hlong]
  · rename_i hfile
    simp [hfile]
  · rename_i hnone
    simp [hnone]

theorem follow_append_eq_ok {start result : List String} {parts more : List String} :
    tree.follow path start (parts ++ more) = .ok result ↔
      ∃ place, tree.follow path start parts = .ok place ∧ tree.follow path place more = .ok result := by
  induction parts generalizing start with
  | nil => simp [follow]
  | cons part rest ih =>
    rw [List.cons_append, follow_cons_eq_ok, ih]
    constructor
    · rintro ⟨hdirectory, hshort, place, hrest, hmore⟩
      exact ⟨place, follow_cons_eq_ok.mpr ⟨hdirectory, hshort, hrest⟩, hmore⟩
    · rintro ⟨place, hparts, hmore⟩
      obtain ⟨hdirectory, hshort, hrest⟩ := follow_cons_eq_ok.mp hparts
      exact ⟨hdirectory, hshort, place, hrest, hmore⟩

theorem follow_append_of_ok {start place : List String} {parts : List String}
    (h : tree.follow path start parts = .ok place) (more : List String) :
    tree.follow path start (parts ++ more) = tree.follow path place more := by
  induction parts generalizing start with
  | nil =>
    obtain rfl : start = place := Except.ok.inj h
    rfl
  | cons part rest ih =>
    obtain ⟨hdirectory, hshort, hrest⟩ := follow_cons_eq_ok.mp h
    rw [List.cons_append, follow.eq_def]
    dsimp only
    rw [hdirectory]
    dsimp only
    rw [if_neg (Nat.not_lt.mpr hshort), ih hrest]

/-- Where parts lead does not depend on the path that they are part of. -/
theorem follow_of_follow {other : Path} {start result parts : List String}
    (h : tree.follow path start parts = .ok result) : tree.follow other start parts = .ok result := by
  induction parts generalizing start with
  | nil => exact h
  | cons part rest ih =>
    obtain ⟨hdirectory, hshort, hrest⟩ := follow_cons_eq_ok.mp h
    exact follow_cons_eq_ok.mpr ⟨hdirectory, hshort, ih hrest⟩

theorem locate_eq_ok_iff {result : List String} :
    tree.locate path = .ok result ↔
      path.hasNull = false ∧ path.text.utf8ByteSize ≤ pathLimit ∧ tree.follow path [] path.parts = .ok result := by
  unfold locate
  by_cases hnull : path.hasNull = true
  · simp [hnull]
  · by_cases hlong : pathLimit < path.text.utf8ByteSize
    · simp [hnull, hlong, Nat.not_le.mpr hlong]
    · simp [hnull, hlong, Nat.not_lt.mp hlong]

theorem readBytes_eq_ok_iff :
    tree.readBytes path = .ok content ↔
      tree.locate path = .ok path.resolve.parts ∧ tree.entry? path.resolve.parts = some (.file content) := by
  unfold readBytes
  cases hlocate : tree.locate path with
  | error fault => simp [bind, Except.bind]
  | ok place =>
    obtain rfl := locate_eq_ok hlocate
    cases hentry : tree.entry? path.resolve.parts with
    | none => simp [bind, Except.bind, hentry]
    | some entry => cases entry <;> simp [bind, Except.bind, hentry]

theorem find?_of_locate (h : tree.locate path = .ok place) : tree.find? path = .ok (tree.entry? place) := by
  rw [find?, h]

theorem find?_of_missing {fault : StorageFault} (h : tree.locate path = .error fault) (hmissing : fault.IsMissing) :
    tree.find? path = .ok none := by
  rw [find?, h]
  cases fault with
  | notFound missing => rfl
  | notADirectory missing => rfl
  | _ => exact absurd hmissing id

/-! ## Everywhere else -/

/-- `tree'` has the directories of `tree`, and up to some `touched` places its files. -/
structure SameBut (touched : List (List String)) (tree tree' : FileTree) : Prop where
  directories : ∀ place, tree'.entry? place = some .directory ↔ tree.entry? place = some .directory
  elsewhere : ∀ place, place ∉ touched → tree'.entry? place = tree.entry? place

namespace SameBut

theorem symm {touched : List (List String)} (h : SameBut touched tree tree') : SameBut touched tree' tree where
  directories place := (h.directories place).symm
  elsewhere place hplace := (h.elsewhere place hplace).symm

theorem trans {touched touched' : List (List String)} {tree'' : FileTree} (h : SameBut touched tree tree')
    (h' : SameBut touched' tree' tree'') : SameBut (touched ++ touched') tree tree'' where
  directories place := (h'.directories place).trans (h.directories place)
  elsewhere place hplace := by
    rw [List.mem_append, not_or] at hplace
    rw [h'.elsewhere place hplace.2, h.elsewhere place hplace.1]

variable {touched : List (List String)} (h : SameBut touched tree tree')
include h

theorem follow {parts start result : List String} (hfollow : tree.follow path start parts = .ok result) :
    tree'.follow path start parts = .ok result := by
  induction parts generalizing start with
  | nil => exact hfollow
  | cons part rest ih =>
    obtain ⟨hdirectory, hshort, hrest⟩ := follow_cons_eq_ok.mp hfollow
    exact follow_cons_eq_ok.mpr ⟨(h.directories start).mpr hdirectory, hshort, ih hrest⟩

/-- A path that led somewhere leads to the same place. -/
theorem locate {result : List String} (hlocate : tree.locate path = .ok result) :
    tree'.locate path = .ok result := by
  obtain ⟨hnull, hshort, hfollow⟩ := locate_eq_ok_iff.mp hlocate
  exact locate_eq_ok_iff.mpr ⟨hnull, hshort, h.follow hfollow⟩

theorem follow_error {parts start : List String} {fault : StorageFault}
    (hfollow : tree.follow path start parts = .error fault) :
    tree'.follow path start parts = .error fault ∨
      fault.IsMissing ∧ ∃ fault', tree'.follow path start parts = .error fault' ∧ fault'.IsMissing := by
  induction parts generalizing start with
  | nil => exact nomatch hfollow
  | cons part rest ih =>
    -- the directories are the same, so both trees stop at the same part, though not for the same reason
    by_cases hdirectory : tree.entry? start = some .directory
    · rw [FileTree.follow, hdirectory] at hfollow
      rw [FileTree.follow, (h.directories start).mpr hdirectory]
      dsimp only at hfollow ⊢
      split
      · rename_i hlong
        rw [if_pos hlong] at hfollow
        exact .inl hfollow
      · rename_i hshort
        rw [if_neg hshort] at hfollow
        exact ih hfollow
    · have hstop : ∀ tree : FileTree, tree.entry? start ≠ some .directory →
          ∃ fault, tree.follow path start (part :: rest) = .error fault ∧ fault.IsMissing := by
        intro tree hnot
        rw [FileTree.follow]
        split
        · rename_i hentry
          exact absurd hentry hnot
        · exact ⟨_, rfl, trivial⟩
        · exact ⟨_, rfl, trivial⟩
      obtain ⟨found, hfound, hmissing⟩ := hstop tree hdirectory
      obtain rfl := Except.error.inj (hfollow.symm.trans hfound)
      exact .inr ⟨hmissing, hstop tree' fun hentry => hdirectory ((h.directories start).mp hentry)⟩

/-- A path that led nowhere leads nowhere, and if it was too long it still is. -/
theorem locate_error {fault : StorageFault} (hlocate : tree.locate path = .error fault) :
    tree'.locate path = .error fault ∨
      fault.IsMissing ∧ ∃ fault', tree'.locate path = .error fault' ∧ fault'.IsMissing := by
  unfold FileTree.locate at hlocate ⊢
  split at hlocate
  · rename_i hnull
    rw [if_pos hnull]
    exact .inl hlocate
  · rename_i hnull
    rw [if_neg hnull]
    split at hlocate
    · rename_i hlong
      rw [if_pos hlong]
      exact .inl hlocate
    · rename_i hshort
      rw [if_neg hshort]
      exact h.follow_error hlocate

/-- Every path to another place reads what it read before. -/
theorem readBytes (hne : path.resolve.parts ∉ touched) (hread : tree.readBytes path = .ok content) :
    tree'.readBytes path = .ok content := by
  obtain ⟨hlocate, hentry⟩ := readBytes_eq_ok_iff.mp hread
  exact readBytes_eq_ok_iff.mpr ⟨h.locate hlocate, by rw [h.elsewhere _ hne, hentry]⟩

/-- A path that leads nowhere leads to nothing. -/
theorem find?_of_error {fault : StorageFault} (hlocate : tree.locate path = .error fault) :
    tree'.find? path = tree.find? path := by
  rcases h.locate_error hlocate with hsame | ⟨hmissing, fault', hlocate', hmissing'⟩
  · rw [FileTree.find?, FileTree.find?, hlocate, hsame]
    cases fault <;> rfl
  · rw [find?_of_missing hlocate hmissing, find?_of_missing hlocate' hmissing']

/-- What stands at another place is what stood there. -/
theorem find? (hne : path.resolve.parts ∉ touched) : tree'.find? path = tree.find? path := by
  cases hlocate : tree.locate path with
  | ok found =>
    rw [find?_of_locate hlocate, find?_of_locate (h.locate hlocate), h.elsewhere]
    rwa [locate_eq_ok hlocate]
  | error fault => exact h.find?_of_error hlocate

end SameBut

/-! ## One place -/

/-- `tree'` is `tree` with a file written at a place. -/
structure Wrote (tree tree' : FileTree) (place : List String) (content : ByteArray) : Prop where
  here : tree'.entry? place = some (.file content)
  elsewhere : ∀ other, other ≠ place → tree'.entry? other = tree.entry? other
  noDirectory : tree.entry? place ≠ some .directory

theorem lookup_map_set {entries : List (List String × Entry)} {entry : Entry} (other : List String) :
    (entries.map fun (known, old) => (known, if known == place then entry else old)).lookup other
      = (entries.lookup other).map fun old => if other == place then entry else old := by
  induction entries with
  | nil => rfl
  | cons head rest ih =>
    obtain ⟨known, old⟩ := head
    rw [List.map_cons, List.lookup_cons, List.lookup_cons, ih]
    cases hknown : other == known with
    | false => rfl
    | true =>
      rw [eq_of_beq hknown]
      rfl

theorem lookup_set (tree : FileTree) (place : List String) (entry : Entry) (other : List String) :
    (tree.set place entry).entries.lookup other
      = if other = place then some entry else tree.entries.lookup other := by
  unfold set
  split
  · rename_i hsome
    rw [lookup_map_set]
    by_cases hother : other = place
    · obtain ⟨old, hold⟩ := Option.isSome_iff_exists.mp hsome
      rw [if_pos hother, hother, hold, Option.map_some, if_pos (beq_self_eq_true place)]
    · rw [if_neg hother]
      cases tree.entries.lookup other with
      | none => rfl
      | some old => rw [Option.map_some, if_neg (by simpa using hother)]
  · rename_i hnone
    rw [List.lookup_append]
    by_cases hother : other = place
    · rw [if_pos hother, hother, Option.not_isSome_iff_eq_none.mp hnone]
      simp
    · rw [if_neg hother]
      have hsingle : [(place, entry)].lookup other = none := by
        rw [List.lookup_cons, beq_false_of_ne hother]
        rfl
      rw [hsingle, Option.or_none]

theorem entry?_set (hplace : place ≠ []) (entry : Entry) (other : List String) :
    entry? (tree.set place entry) other = if other = place then some entry else tree.entry? other := by
  unfold entry?
  rw [lookup_set]
  cases other with
  | nil =>
    show some Entry.directory = if [] = place then some entry else some Entry.directory
    rw [if_neg (Ne.symm hplace)]
  | cons part rest => rfl

theorem writeBytes_eq_ok_iff :
    tree.writeBytes path content = .ok tree' ↔
      tree.locate path = .ok path.resolve.parts ∧ tree.entry? path.resolve.parts ≠ some .directory ∧
        tree' = tree.set path.resolve.parts (.file content) := by
  constructor
  · intro h
    obtain ⟨place, hplace, h⟩ := bind_eq_ok h
    obtain rfl := locate_eq_ok hplace
    refine ⟨hplace, fun hdirectory => ?_, ?_⟩
    · rw [hdirectory] at h
      cases h
    · split at h
      · cases h
      · exact (Except.ok.inj h).symm
  · rintro ⟨hplace, hnot, rfl⟩
    -- `hnot` selects the branch
    simp only [writeBytes, hplace, bind, Except.bind]

/-- The root is a directory. -/
theorem ne_nil_of_not_directory (h : tree.entry? place ≠ some .directory) : place ≠ [] := by
  rintro rfl
  exact h rfl

/-- **A write that succeeds changes one place**, the one that its path resolves to. -/
theorem wrote_of_writeBytes (h : tree.writeBytes path content = .ok tree') :
    tree.locate path = .ok path.resolve.parts ∧ tree.Wrote tree' path.resolve.parts content := by
  obtain ⟨hplace, hnot, rfl⟩ := writeBytes_eq_ok_iff.mp h
  have hne := ne_nil_of_not_directory hnot
  refine ⟨hplace, ?_, ?_, hnot⟩
  · rw [entry?_set hne, if_pos rfl]
  · intro other hother
    rw [entry?_set hne, if_neg hother]

namespace Wrote

variable (h : tree.Wrote tree' place content)
include h

theorem sameBut : SameBut [place] tree tree' where
  directories other := by
    by_cases heq : other = place
    · rw [heq, h.here]
      exact iff_of_false nofun h.noDirectory
    · rw [h.elsewhere other heq]
  elsewhere other hother := h.elsewhere other (mt List.mem_singleton.mpr hother)

/-- A path that led somewhere leads to the same place. -/
theorem locate {result : List String} (hlocate : tree.locate path = .ok result) :
    tree'.locate path = .ok result :=
  h.sameBut.locate hlocate

/-- Every path to the place reads what was written. -/
theorem readBytes_here (hlocate : tree.locate path = .ok place) : tree'.readBytes path = .ok content := by
  obtain rfl := locate_eq_ok hlocate
  exact readBytes_eq_ok_iff.mpr ⟨h.locate hlocate, h.here⟩

/-- Every path to another place reads what it read before. -/
theorem readBytes_elsewhere {other : ByteArray} (hne : path.resolve.parts ≠ place)
    (hread : tree.readBytes path = .ok other) : tree'.readBytes path = .ok other :=
  h.sameBut.readBytes (mt List.mem_singleton.mp hne) hread

/-- The file that was written is there. -/
theorem contains_here (hlocate : tree.locate path = .ok place) : tree'.contains path = .ok true := by
  rw [contains, find?_of_locate (h.locate hlocate), h.here]
  rfl

end Wrote

/-! ## Writing what stands there -/

/-- A place has an entry, and every entry for it is this one. -/
structure OnlyHolds (tree : FileTree) (place : List String) (entry : Entry) : Prop where
  there : (tree.entries.lookup place).isSome
  only : ∀ old, (place, old) ∈ tree.entries → old = entry

section

variable {entry : Entry}

/-- Setting what stands there changes nothing. -/
theorem OnlyHolds.set_eq_self (h : tree.OnlyHolds place entry) : tree.set place entry = tree := by
  unfold set
  rw [if_pos h.there]
  refine congrArg FileTree.mk ((List.map_congr_left fun known hknown => ?_).trans (List.map_id _))
  obtain ⟨other, old⟩ := known
  dsimp only
  split
  · rename_i heq
    obtain rfl := eq_of_beq heq
    rw [h.only old hknown]
    rfl
  · rfl

theorem onlyHolds_set (tree : FileTree) (place : List String) (entry : Entry) :
    (tree.set place entry).OnlyHolds place entry := by
  refine ⟨by rw [lookup_set, if_pos rfl]; rfl, fun old hold => ?_⟩
  unfold set at hold
  split at hold
  · obtain ⟨⟨other, found⟩, -, heq⟩ := List.mem_map.mp hold
    obtain ⟨rfl, rfl⟩ := Prod.mk.inj heq
    rw [if_pos (beq_self_eq_true other)]
  · rename_i hnone
    rcases List.mem_append.mp hold with hold | hold
    · have hkey := List.lookup_eq_none_iff.mp (Option.not_isSome_iff_eq_none.mp hnone) _ hold
      exact absurd rfl (bne_iff_ne.mp hkey)
    · exact (Prod.mk.inj (List.mem_singleton.mp hold)).2

/-- Setting another place does not disturb it. -/
theorem OnlyHolds.set {other : List String} {new : Entry} (h : tree.OnlyHolds place entry) (hne : place ≠ other) :
    (tree.set other new).OnlyHolds place entry := by
  refine ⟨by rw [lookup_set, if_neg hne]; exact h.there, fun old hold => h.only old ?_⟩
  unfold FileTree.set at hold
  split at hold
  · obtain ⟨⟨known, found⟩, hmem, heq⟩ := List.mem_map.mp hold
    obtain ⟨rfl, rfl⟩ := Prod.mk.inj heq
    rw [if_neg (by simpa using hne)]
    exact hmem
  · exact (List.mem_append.mp hold).resolve_right fun hnew =>
      hne (Prod.mk.inj (List.mem_singleton.mp hnew)).1

end

/-- **Writing what stands there** leaves the tree as it is. -/
theorem OnlyHolds.writeBytes (h : tree.OnlyHolds path.resolve.parts (.file content))
    (hlocate : tree.locate path = .ok path.resolve.parts)
    (hentry : tree.entry? path.resolve.parts ≠ some .directory) : tree.writeBytes path content = .ok tree :=
  writeBytes_eq_ok_iff.mpr ⟨hlocate, hentry, h.set_eq_self.symm⟩

/-! ## The name of a file -/

/-- Every directory on the way to a place is there. -/
def Rooted (tree : FileTree) (place : List String) : Prop :=
  ∀ n, n < place.length → tree.entry? (place.take n) = some .directory

theorem rooted_nil (tree : FileTree) : tree.Rooted [] := fun n hn => absurd hn (Nat.not_lt_zero n)

theorem Rooted.resolveStep {part : String} (h : tree.Rooted place)
    (hdirectory : tree.entry? place = some .directory) : tree.Rooted (Path.resolveStep place part) := by
  intro n hn
  unfold Path.resolveStep at hn ⊢
  split at hn
  · rename_i hdots
    rw [if_pos hdots, List.dropLast_eq_take, List.take_take]
    rw [List.length_dropLast] at hn
    rw [Nat.min_eq_left (by omega)]
    exact h n (by omega)
  · rename_i hdots
    rw [if_neg hdots]
    rw [List.length_append, List.length_singleton] at hn
    rw [List.take_append_of_le_length (by omega)]
    by_cases hlast : n = place.length
    · rw [hlast, List.take_length, hdirectory]
    · exact h n (by omega)

theorem Rooted.follow {parts start result : List String} (h : tree.Rooted start)
    (hfollow : tree.follow path start parts = .ok result) : tree.Rooted result := by
  induction parts generalizing start with
  | nil =>
    obtain rfl : start = result := Except.ok.inj hfollow
    exact h
  | cons part rest ih =>
    obtain ⟨hdirectory, -, hrest⟩ := follow_cons_eq_ok.mp hfollow
    exact ih (h.resolveStep hdirectory) hrest

theorem Rooted.dropLast (h : tree.Rooted place) : tree.entry? place.dropLast = some .directory := by
  cases hplace : place with
  | nil => rfl
  | cons part rest =>
    rw [← hplace, List.dropLast_eq_take]
    refine h _ ?_
    rw [hplace, List.length_cons]
    omega

/-- **The path of a file ends with a name**, and the way to it is a directory. -/
theorem exists_name_of_readBytes (h : tree.readBytes path = .ok content) :
    ∃ way name, path.parts = way ++ [name] ∧ name ≠ ".." ∧
      tree.follow path [] way = .ok (way.foldl Path.resolveStep []) ∧
      tree.entry? (way.foldl Path.resolveStep []) = some .directory ∧ name.utf8ByteSize ≤ nameLimit := by
  obtain ⟨hlocate, hentry⟩ := readBytes_eq_ok_iff.mp h
  obtain ⟨-, -, hfollow⟩ := locate_eq_ok_iff.mp hlocate
  rcases List.eq_nil_or_concat path.parts with hnil | ⟨way, name, hparts⟩
  · -- the root is no file
    rw [hnil] at hfollow
    obtain hroot : [] = path.resolve.parts := Except.ok.inj hfollow
    rw [← hroot] at hentry
    exact nomatch hentry
  · rw [List.concat_eq_append] at hparts
    rw [hparts] at hfollow
    obtain ⟨place, hway, hname⟩ := follow_append_eq_ok.mp hfollow
    obtain rfl := follow_eq_ok hway
    obtain ⟨hdirectory, hshort, hend⟩ := follow_cons_eq_ok.mp hname
    refine ⟨way, name, hparts, ?_, hway, hdirectory, hshort⟩
    rintro rfl
    -- a double dot leads back into a directory
    have hrooted := (rooted_nil tree).follow hway
    have hback : (way.foldl Path.resolveStep []).dropLast = path.resolve.parts := Except.ok.inj hend
    rw [← hback, hrooted.dropLast] at hentry
    exact nomatch hentry

end FileTree

end JobClosure
