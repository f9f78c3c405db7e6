import Netlist.FileTree
import Netlist.Proofs.Resolution

/-!
# Changes to the files of a tree

Creating directories changes no file (`FileTree.sameFiles_of_makeDirectories`). Writing changes one,
which is found at its path from then on (`FileTree.isWritten_of_write`): a segment can only be
followed through a directory, and no directory is ever replaced.
-/

namespace Netlist

/-- Words of which the last is empty end with a separator when they are joined. -/
theorem getLast?_intercalate_concat_nil {α : Type} (separator : α) (first : List α)
    (words : List (List α)) :
    ([separator].intercalate (first :: (words ++ [[]]))).getLast? = some separator := by
  induction words generalizing first with
  | nil => simp [List.intercalate_cons_of_ne_nil]
  | cons word words ih =>
    have notLast : word :: words ++ [[]] ≠ [] := by simp
    rw [List.intercalate_cons_of_ne_nil notLast, List.getLast?_append, List.cons_append, ih word]
    rfl

/-- A text that does not end with the separator has something behind the last one. -/
theorem getLast?_splitOn_ne_some_nil {separator : Char} {text : List Char} (nonempty : text ≠ [])
    (goesOn : text.getLast? ≠ some separator) :
    (text.splitOn separator).getLast? ≠ some [] := by
  intro closed
  obtain ⟨front, cut⟩ := List.getLast?_eq_some_iff.1 closed
  have joined : [separator].intercalate (text.splitOn separator) = text :=
    List.intercalate_splitOn separator
  rw [cut] at joined
  cases front with
  | nil => exact nonempty joined.symm
  | cons first words =>
    apply goesOn
    rw [← joined]
    exact getLast?_intercalate_concat_nil separator first words

/-- A path without a slash at its end has nothing to trim. -/
theorem Path.trimmedSegments_eq {path : Path} (nonempty : path.text ≠ "")
    (noSlash : path.hasFinalSlash = false) : path.trimmedSegments = path.segments := by
  have goesOn : path.segments.getLast? ≠ some "" := by
    have wordsGoOn : (path.text.toList.splitOn '/').getLast? ≠ some [] :=
      getLast?_splitOn_ne_some_nil (by simpa using nonempty)
        (by simpa [hasFinalSlash] using noSlash)
    simpa [segments] using wordsGoOn
  unfold trimmedSegments
  cases reversed : path.segments.reverse with
  | nil => exact (List.reverse_eq_nil_iff.1 reversed).symm
  | cons last front =>
    have nonemptyLast : last ≠ "" := by
      rintro rfl
      apply goesOn
      rw [← List.head?_reverse, reversed, List.head?_cons]
    rw [List.dropWhile_cons_of_neg (by simpa using nonemptyLast), ← reversed, List.reverse_reverse]

namespace FileTree

variable {tree next : FileTree} {location : Location} {path : Path} {content : List UInt8}

/-- The bytes of the file at a location, if there is one. -/
def fileAt? (tree : FileTree) (location : Location) : Option (List UInt8) :=
  match tree.entry? location with
  | some (.file content) => some content
  | _ => none

/-- Two trees hold the same files. Their directories may differ. -/
def SameFiles (before after : FileTree) : Prop :=
  ∀ location, after.fileAt? location = before.fileAt? location

/-- A file is at the end of a path, and all others are as they were. -/
def IsWritten (path : Path) (content : List UInt8) (before after : FileTree) : Prop :=
  ∃ location, after.resolve path = .ok location ∧ after.fileAt? location = some content ∧
    ∀ other, other ≠ location → after.fileAt? other = before.fileAt? other

theorem SameFiles.refl (tree : FileTree) : tree.SameFiles tree :=
  fun _ => rfl

theorem SameFiles.trans {first second third : FileTree} (start : first.SameFiles second)
    (rest : second.SameFiles third) : first.SameFiles third :=
  fun location => (rest location).trans (start location)

/-- What came before a file was written does not matter if it changed no file. -/
theorem SameFiles.isWritten {first second third : FileTree} (start : first.SameFiles second)
    (rest : second.IsWritten path content third) : first.IsWritten path content third := by
  obtain ⟨location, resolved, found, others⟩ := rest
  exact ⟨location, resolved, found, fun other differs =>
    (others other differs).trans (start other)⟩

/-! ### One entry -/

theorem names_ne_nil (notDirectory : tree.entry? location ≠ some .directory) :
    location.names ≠ [] := by
  intro none
  unfold entry? at notDirectory
  exact notDirectory (if_pos none)

theorem entry?_set (notDirectory : tree.entry? location ≠ some .directory) (entry : Entry)
    (other : Location) :
    FileTree.entry? (tree.set location entry) other =
      if other = location then some entry else tree.entry? other := by
  unfold entry? set
  by_cases none : other.names = []
  · rw [if_pos none, if_pos none, if_neg]
    rintro rfl
    exact names_ne_nil notDirectory none
  · rw [if_neg none, if_neg none]
    exact lookup_of_replaces (setEntry location entry) rfl (fun _ _ _ => rfl) other tree.entries

theorem fileAt?_set_of_ne (notDirectory : tree.entry? location ≠ some .directory) (entry : Entry)
    {other : Location} (differs : other ≠ location) :
    (tree.set location entry).fileAt? other = tree.fileAt? other := by
  rw [fileAt?, fileAt?, entry?_set notDirectory, if_neg differs]

/-! ### Directories -/

theorem sameFiles_set_directory (missing : tree.entry? location = none) :
    tree.SameFiles (tree.set location .directory) := by
  have notDirectory : tree.entry? location ≠ some .directory := by
    rw [missing]
    exact nofun
  intro other
  by_cases same : other = location
  · rw [same, fileAt?, fileAt?, entry?_set notDirectory, if_pos rfl, missing]
  · exact fileAt?_set_of_ne notDirectory _ same

theorem sameFiles_of_makeDirectory (made : tree.makeDirectory path = .ok next) :
    tree.SameFiles next := by
  unfold makeDirectory at made
  obtain ⟨location, -, made⟩ := eq_ok_of_bind made
  split at made
  · cases made
  · next missing =>
    cases made
    exact sameFiles_set_directory missing

theorem sameFiles_of_ensureDirectory (ensured : tree.ensureDirectory path = .ok next) :
    tree.SameFiles next := by
  unfold ensureDirectory at ensured
  split at ensured
  · cases ensured
    exact .refl tree
  · split at ensured
    · next made =>
      cases ensured
      exact sameFiles_of_makeDirectory made
    · split at ensured
      · cases ensured
        exact .refl tree
      · cases ensured

theorem sameFiles_of_ensureDirectories {paths : List Path}
    (ensured : tree.ensureDirectories paths = .ok next) : tree.SameFiles next := by
  induction paths generalizing next with
  | nil =>
    cases ensured
    exact .refl tree
  | cons path above ih =>
    unfold ensureDirectories at ensured
    split at ensured
    · obtain ⟨middle, madeAbove, ensured⟩ := eq_ok_of_bind ensured
      exact (ih madeAbove).trans (sameFiles_of_ensureDirectory ensured)
    · exact sameFiles_of_ensureDirectory ensured

/-- Directories are created without changing a file. -/
theorem sameFiles_of_makeDirectories (made : tree.makeDirectories path = .ok next) :
    tree.SameFiles next :=
  sameFiles_of_ensureDirectories made

/-! ### A file -/

/-- Where one can go on, one still can if something is put where no directory is. -/
theorem follow_set (notDirectory : tree.entry? location ≠ some .directory) {entry : Entry}
    {start last : Location} {segment : String} (followed : tree.follow start segment = .ok last) :
    (tree.set location entry).follow start segment = .ok last := by
  unfold follow at followed ⊢
  cases found : tree.entry? start with
  | none =>
    rw [found] at followed
    cases followed
  | some old =>
    cases old with
    | file content =>
      rw [found] at followed
      cases followed
    | directory =>
      have differs : start ≠ location := by
        rintro rfl
        exact notDirectory found
      rw [entry?_set notDirectory, if_neg differs, found]
      rwa [found] at followed

theorem foldlM_follow_set (notDirectory : tree.entry? location ≠ some .directory) {entry : Entry}
    {start last : Location} {segments : List String}
    (followed : segments.foldlM tree.follow start = .ok last) :
    segments.foldlM (tree.set location entry).follow start = .ok last := by
  induction segments generalizing start with
  | nil => exact followed
  | cons segment rest ih =>
    rw [List.foldlM_cons] at followed ⊢
    obtain ⟨middle, first, followed⟩ := eq_ok_of_bind followed
    rw [follow_set notDirectory first]
    exact ih followed

theorem followAll_eq_ok_iff {segments : List String} :
    tree.followAll path segments = .ok location ↔
      '\x00' ∉ path.text.toList ∧ ¬ maxPathSize < path.text.utf8ByteSize ∧ path.text ≠ "" ∧
        segments.foldlM tree.follow (Location.start path) = .ok location := by
  unfold followAll
  split_ifs <;> simp_all

/-- Paths lead to where they led if something is put where no directory is. -/
theorem followAll_set (notDirectory : tree.entry? location ≠ some .directory) {entry : Entry}
    {last : Location} {segments : List String}
    (followed : tree.followAll path segments = .ok last) :
    (tree.set location entry).followAll path segments = .ok last := by
  rw [followAll_eq_ok_iff] at followed ⊢
  obtain ⟨noNull, size, nonempty, followed⟩ := followed
  exact ⟨noNull, size, nonempty, foldlM_follow_set notDirectory followed⟩

/-- What writing takes, and what it makes of a tree. -/
theorem exists_of_write (written : tree.write path content = .ok next) :
    ∃ location, path.hasFinalSlash = false ∧ tree.destination path = .ok location ∧
      tree.entry? location ≠ some .directory ∧ next = tree.set location (.file content) := by
  unfold write at written
  cases slash : path.hasFinalSlash with
  | true =>
    rw [slash, if_pos rfl] at written
    obtain ⟨_, _, written⟩ := eq_ok_of_bind written
    cases written
  | false =>
    rw [slash, if_neg Bool.false_ne_true] at written
    obtain ⟨location, arrived, written⟩ := eq_ok_of_bind written
    split at written
    · cases written
    · next notDirectory =>
      cases written
      exact ⟨location, rfl, arrived, notDirectory, rfl⟩

/-- A file that is written is at the end of its path, and all others are as they were. -/
theorem isWritten_of_write (written : tree.write path content = .ok next) :
    tree.IsWritten path content next := by
  obtain ⟨location, noSlash, arrived, notDirectory, rfl⟩ := exists_of_write written
  have nonempty : path.text ≠ "" := (followAll_eq_ok_iff.1 arrived).2.2.1
  rw [destination, Path.trimmedSegments_eq nonempty noSlash] at arrived
  refine ⟨location, followAll_set notDirectory arrived, ?_, fun other differs =>
    fileAt?_set_of_ne notDirectory _ differs⟩
  rw [fileAt?, entry?_set notDirectory, if_pos rfl]

/-- A file that was written can be written again, which changes no other file either. -/
theorem exists_write_of_write {old : List UInt8} (written : tree.write path old = .ok next) :
    ∃ last, next.write path content = .ok last ∧ tree.IsWritten path content last := by
  obtain ⟨location, noSlash, arrived, notDirectory, rfl⟩ := exists_of_write written
  have again : (tree.set location (.file old)).destination path = .ok location :=
    followAll_set notDirectory arrived
  have isFile : FileTree.entry? (tree.set location (.file old)) location = some (.file old) := by
    rw [entry?_set notDirectory, if_pos rfl]
  have rewritten : (tree.set location (.file old)).write path content =
      .ok ((tree.set location (.file old)).set location (.file content)) := by
    rw [write, noSlash, if_neg Bool.false_ne_true, again]
    simp only [bind, Except.bind, isFile]
    rfl
  refine ⟨_, rewritten, ?_⟩
  obtain ⟨last, resolved, found, others⟩ := isWritten_of_write rewritten
  have nonempty : path.text ≠ "" := (followAll_eq_ok_iff.1 arrived).2.2.1
  have stillFile : FileTree.entry? (tree.set location (.file old)) location ≠ some .directory := by
    rw [isFile]
    exact nofun
  -- the path leads to the same location both times
  obtain rfl : last = location := by
    rw [resolve, ← Path.trimmedSegments_eq nonempty noSlash] at resolved
    exact Except.ok.inj (resolved.symm.trans (followAll_set stillFile again))
  exact ⟨last, resolved, found, fun other differs =>
    (others other differs).trans (fileAt?_set_of_ne notDirectory _ differs)⟩

end FileTree

end Netlist
