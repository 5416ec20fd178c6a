import GhNet.Base.FileSystem

/-!
# `yy_file.cpp`

Files and directories by their path strings. `RmDir` and `CopyDir` are recursive; the path of a
call is longer than the one of the call it comes from, and the paths are limited, so a run has no
more than `MAXDIRLEN` calls in each other.
-/

namespace GhNet.Base.File

open GhNet

variable (cwd : Path)

/-! ## Checks -/

/-- `filePathCheck`: no path of a file is empty or too long. -/
def filePathCheck (pFilePath : Str) : FileM Unit :=
  if pFilePath = [] then throw .filePathInvalid
  else if pFilePath.length > MAXFILEPATHLEN then
    throw (.filePathTooLong MAXFILEPATHLEN pFilePath.length)
  else pure ()

/-- `dirPathCheck`: no path of a directory is empty or too long. -/
def dirPathCheck (pDirPath : Str) : FileM Unit :=
  if pDirPath = [] then throw .dirPathInvalid
  else if pDirPath.length > MAXDIRLEN then
    throw (.dirPathTooLong MAXDIRLEN pDirPath pDirPath.length)
  else pure ()

/-- The string is the end of `\`. -/
def trailing (s : Str) : Bool := s.getLast? == some '\\'

theorem trailing_child (path : Str) (n : Name) : trailing (path ++ '\\' :: n.val) = false := by
  have h := getLast_child path n
  unfold trailing
  cases hl : (path ++ '\\' :: n.val).getLast? with
  | none => rfl
  | some c =>
    rw [hl, Option.any_some] at h
    refine beq_eq_false_iff_ne.mpr fun hc => ?_
    rw [Option.some.inj hc, isSep_backslash] at h
    cases h

/-- `isDirExist`, which is true of a file too. -/
def isDirExist (pDirPath : Str) : FileM Bool := access cwd pDirPath

/-! ## Making and removing -/

/-- `rmFile` -/
def rmFile (pFilePath : Str) : FileM Unit := do
  filePathCheck pFilePath
  if ← remove cwd pFilePath then pure () else throw (.removeFile pFilePath)

/-- `MkDir` for one directory, of which the path string is there up to the end. -/
def makeOne (path : Str) : FileM Unit := do
  if ← mkdir cwd path then pure () else throw (.makeDir path)

/-- What `MkDir` does at a position of the path string: at a separator it looks at the part in
front of it. -/
def mkParent (tmpDirPath : Str) (i : Nat) : FileM Unit := do
  if tmpDirPath[i]? = some '\\' then
    if ← isDirExist cwd (tmpDirPath.take i) then pure () else makeOne cwd (tmpDirPath.take i)
  else pure ()

/-- `mkDir`, with the directories above. -/
def mkDir (pDirPath : Str) : FileM Unit := do
  dirPathCheck pDirPath
  if ← isDirExist cwd pDirPath then pure ()
  else
    let tmpDirPath ← store pDirPath
    let tmpDirPath := if trailing tmpDirPath then tmpDirPath.dropLast else tmpDirPath
    (List.range pDirPath.length).forM (mkParent cwd tmpDirPath)
    makeOne cwd tmpDirPath

/-- What `RmDir` does with the path of an entry. -/
def rmPath (rmDir : Str → FileM Unit) (subdir : Bool) (path : Str) : FileM Unit :=
  if subdir then rmDir path else rmFile cwd path

/-- What `RmDir` does with an entry. The result is the variable `path`. -/
def rmEntry (rmDir : Str → FileM Unit) (pDirPath path : Str) (c_file : FindData) : FileM Str :=
  if c_file.name ≠ ['.'] ∧ c_file.name ≠ ['.', '.'] then do
    let path ← store (pDirPath ++ '\\' :: c_file.name)
    rmPath cwd rmDir c_file.subdir path
    return path
  else pure path

/-- What `RmDir` prints into `tmpDirPath`. The `%s` is for `tmpDirPath` itself, which is empty. -/
def rmPattern (pDirPath : Str) : Str :=
  if trailing pDirPath then ['*', '.', '*'] else ['\\', '*', '.', '*']

/-- `fuel` is the number of calls in each other. -/
def rmDir : (fuel : Nat) → Str → FileM Unit
  | 0, _ => throw .exhausted
  | fuel + 1, pDirPath => do
    dirPathCheck pDirPath
    let tmpDirPath ← store (rmPattern pDirPath)
    match ← find cwd tmpDirPath with
    | none => pure ()
    | some found =>
      let path ← found.foldlM (rmEntry cwd (rmDir fuel) pDirPath) []
      if ← rmdir cwd pDirPath then pure () else throw (.removeDir path)

/-! ## Copying -/

/-- `str_file.substr(0, str_file.find_last_of('\\'))`; with no separator this is all of it. -/
def parentPath (str_file : Str) : Str :=
  if '\\' ∈ str_file then (str_file.reverse.dropWhile (· != '\\')).tail.reverse else str_file

/-- `copyFile` -/
def copyFile (dst src : Str) : FileM Unit := do
  filePathCheck dst
  filePathCheck src
  if ← copyFileA cwd src dst then pure ()
  else if ← isDirExist cwd (parentPath dst) then pure ()
  else
    mkDir cwd (parentPath dst)
    if ← copyFileA cwd src dst then pure () else throw (.copyFile src dst)

/-- The source path of `CopyDir` as it is listed. -/
def srcDirPath (pDst pSrc : Str) : Str :=
  let srcDirPath := if trailing pSrc then pSrc.dropLast else pSrc
  -- here, too, it is the source path that is cut
  if trailing pDst then srcDirPath.take (pDst.length - 1) else srcDirPath

/-- `CopyDir` makes the directory of the copy where it is missing. -/
def makeTarget (dstDirPath : Str) : FileM Unit := do
  if ← isDirExist cwd dstDirPath then pure () else mkDir cwd dstDirPath

/-- What `CopyDir` does with an entry. -/
def copyEntry (copyDir : Str → Str → FileM Unit) (dstDirPath srcDirPath : Str)
    (c_file : FindData) : FileM Unit :=
  if c_file.name ≠ ['.'] ∧ c_file.name ≠ ['.', '.'] then do
    let subSrcPath ← store (srcDirPath ++ '\\' :: c_file.name)
    let subDstPath ← store (dstDirPath ++ '\\' :: c_file.name)
    if c_file.subdir then copyDir subDstPath subSrcPath else copyFile cwd subDstPath subSrcPath
  else pure ()

/-- `copyDir`, with so many calls left. -/
def copyDir : (fuel : Nat) → Str → Str → FileM Unit
  | 0, _, _ => throw .exhausted
  | fuel + 1, pDst, pSrc => do
    dirPathCheck pDst
    dirPathCheck pSrc
    let _ ← store pSrc
    let dstDirPath ← store pDst
    makeTarget cwd dstDirPath
    let dirPathWC ← store (srcDirPath pDst pSrc ++ ['\\', '*', '.', '*'])
    match ← find cwd dirPathWC with
    | none => pure ()
    | some found => found.forM (copyEntry cwd (copyDir fuel) dstDirPath (srcDirPath pDst pSrc))

/-! ## The depth of the recursion

A path that fits is shorter than `MAXDIRLEN`, and each call's path is longer than the one before.
-/

variable {cwd : Path} {path path' dst src : Str} {c_file : FindData} {s s' : Disk}

theorem never_of_noError {α : Type} {m : FileM α} (h : ∀ s, ∃ a s', m s = .ok a s') :
    Never .exhausted m := by
  intro s s' he
  obtain ⟨a, t, hs⟩ := h s
  rw [hs] at he
  cases he

theorem never_access : Never .exhausted (access cwd path) :=
  never_of_noError fun _ => ⟨_, _, rfl⟩

theorem never_find : Never .exhausted (find cwd path) := never_of_noError fun _ => ⟨_, _, rfl⟩

theorem never_mkdir : Never .exhausted (mkdir cwd path) := by
  refine never_of_noError fun s => ?_
  unfold mkdir
  split
  · exact ⟨_, _, rfl⟩
  · split <;> exact ⟨_, _, rfl⟩

theorem never_rmdir : Never .exhausted (rmdir cwd path) := by
  refine never_of_noError fun s => ?_
  unfold rmdir
  split
  · exact ⟨_, _, rfl⟩
  · split <;> exact ⟨_, _, rfl⟩

theorem never_remove : Never .exhausted (remove cwd path) := by
  refine never_of_noError fun s => ?_
  unfold remove
  split
  · split
    · exact ⟨_, _, rfl⟩
    · split <;> exact ⟨_, _, rfl⟩
  · exact ⟨_, _, rfl⟩

theorem never_copyFileA : Never .exhausted (copyFileA cwd src dst) := by
  refine never_of_noError fun s => ?_
  unfold copyFileA
  split
  · split
    · exact ⟨_, _, rfl⟩
    · split
      · exact ⟨_, _, rfl⟩
      · split <;> exact ⟨_, _, rfl⟩
  · exact ⟨_, _, rfl⟩

theorem never_store : Never .exhausted (store path) := by
  intro s s' h
  unfold store at h
  split at h <;> cases h

theorem never_dirPathCheck : Never .exhausted (dirPathCheck path) := by
  intro s s' h
  unfold dirPathCheck at h
  split at h
  · cases h
  · split at h <;> cases h

theorem never_filePathCheck : Never .exhausted (filePathCheck path) := by
  intro s s' h
  unfold filePathCheck at h
  split at h
  · cases h
  · split at h <;> cases h

theorem never_pure {α : Type} (a : α) : Never .exhausted (pure a : FileM α) := by
  intro s s' h
  cases h

theorem never_throw {α : Type} {e : Exception} (he : e ≠ .exhausted) :
    Never .exhausted (throw e : FileM α) := by
  intro s s' h
  injection h with h
  exact he h

theorem never_ite {α : Type} {p : Prop} [Decidable p] {x y : FileM α}
    (hx : Never .exhausted x) (hy : Never .exhausted y) :
    Never .exhausted (if p then x else y) := by
  split
  · exact hx
  · exact hy

theorem never_makeOne : Never .exhausted (makeOne cwd path) :=
  never_mkdir.bind fun _ => never_ite (never_pure _) (never_throw (by simp))

theorem never_mkDir : Never .exhausted (mkDir cwd path) := by
  refine never_dirPathCheck.bind fun _ => never_access.bind fun _ => never_ite (never_pure _) ?_
  refine never_store.bind fun tmp => Never.bind ?_ fun _ => never_makeOne
  exact Never.forM fun i _ => never_ite
    (never_access.bind fun _ => never_ite (never_pure _) never_makeOne) (never_pure _)

theorem never_rmFile : Never .exhausted (rmFile cwd path) :=
  never_filePathCheck.bind fun _ => never_remove.bind fun _ =>
    never_ite (never_pure _) (never_throw (by simp))

theorem never_copyFile : Never .exhausted (copyFile cwd dst src) := by
  refine never_filePathCheck.bind fun _ => never_filePathCheck.bind fun _ =>
    never_copyFileA.bind fun _ => never_ite (never_pure _) ?_
  refine never_access.bind fun _ => never_ite (never_pure _) (never_mkDir.bind fun _ => ?_)
  exact never_copyFileA.bind fun _ => never_ite (never_pure _) (never_throw (by simp))

/-- A call comes with a path that fits. -/
theorem never_store_bind {α : Type} {f : Str → FileM α}
    (hf : path.length < MAXDIRLEN → Never .exhausted (f path)) :
    Never .exhausted (store path >>= f) := by
  intro s s' h
  unfold store at h
  split at h
  · next hlen => exact hf hlen s s' h
  · cases h

/-- `RmDir` ends for want of a place for a path, if not before. -/
theorem rmDir_never_exhausted : ∀ {fuel : Nat} {path : Str}, 0 < fuel →
    MAXDIRLEN ≤ path.length + fuel → Never .exhausted (rmDir cwd fuel path)
  | 0, _, hpos, _ => absurd hpos (Nat.lt_irrefl 0)
  | fuel + 1, path, _, hlen => by
    refine never_dirPathCheck.bind fun _ => never_store.bind fun _ =>
      never_find.bind fun found => ?_
    cases found with
    | none => exact never_pure _
    | some found =>
      refine Never.bind (Never.foldlM fun path' c_file _ => ?_) fun _ =>
        never_rmdir.bind fun _ => never_ite (never_pure _) (never_throw (by simp))
      refine never_ite (never_store_bind fun hfits => ?_) (never_pure _)
      refine Never.bind (never_ite ?_ never_rmFile) fun _ => never_pure _
      rw [List.length_append, List.length_cons] at hfits
      refine rmDir_never_exhausted (by omega) ?_
      rw [List.length_append, List.length_cons]
      omega

/-- `CopyDir` ends for want of a place for a path, if not before. -/
theorem copyDir_never_exhausted : ∀ {fuel : Nat} {dst src : Str}, 0 < fuel →
    MAXDIRLEN ≤ dst.length + fuel → Never .exhausted (copyDir cwd fuel dst src)
  | 0, _, _, hpos, _ => absurd hpos (Nat.lt_irrefl 0)
  | fuel + 1, dst, src, _, hlen => by
    refine never_dirPathCheck.bind fun _ => never_dirPathCheck.bind fun _ =>
      never_store.bind fun _ => never_store_bind fun _ => Never.bind ?_ fun _ =>
        never_store.bind fun _ => never_find.bind fun found => ?_
    · exact never_access.bind fun _ => never_ite (never_pure _) never_mkDir
    · cases found with
      | none => exact never_pure _
      | some found =>
        refine Never.forM fun c_file _ => ?_
        refine never_ite (never_store.bind fun sub => never_store_bind fun hfits => ?_)
          (never_pure _)
        refine never_ite ?_ never_copyFile
        rw [List.length_append, List.length_cons] at hfits
        refine copyDir_never_exhausted (by omega) ?_
        rw [List.length_append, List.length_cons]
        omega

end GhNet.Base.File
