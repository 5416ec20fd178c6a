import GhNet.Infra.Bytes
import GhNet.Infra.FileTree
import GhNet.Infra.Sequencing

/-!
# The file system under `yy_file.cpp`

Path strings are resolved as Windows does it, against a current directory: both separators count,
`.` and empty parts do nothing, `..` goes up as far as the top. At the top are the drives, and one
name for the computers of the network. Names are compared as they are: a file system that does
not tell upper and lower case apart is one whose names are all in lower case.

Strings are what a `char*` points to, up to the end of the string.

A file has the two attributes that make a call refuse it: `CopyFileA` writes over no file that is
read-only or hidden, and `remove` removes none that is read-only. Directories are neither.
-/

namespace GhNet.Base.File

open GhNet

/-! ## Paths -/

/-- A path as the calls get it. -/
abbrev Str := List Char

/-- Both slashes separate names. -/
def isSep (c : Char) : Bool := c == '\\' || c == '/'

/-- What can stand between two separators as a name. -/
def Proper (s : Str) : Prop := s ≠ [] ∧ s ≠ ['.'] ∧ s ≠ ['.', '.'] ∧ ∀ c ∈ s, isSep c = false

instance (s : Str) : Decidable (Proper s) :=
  -- not by a run through all characters there are
  haveI : Decidable (∀ c ∈ s, isSep c = false) := List.decidableBAll _ s
  inferInstanceAs (Decidable (_ ∧ _))

/-- A name, of which `Proper` says what is none. -/
def Name : Type := { s : Str // Proper s }

deriving instance DecidableEq for Name

/-- From the top down. -/
abbrev Path := List Name

/-- What there is of a file: its bytes, `_A_RDONLY` and `_A_HIDDEN`. -/
structure Contents where
  bytes : Bytes
  readOnly : Bool
  hidden : Bool
  deriving DecidableEq

/-- The files and directories of a disk. -/
abbrev Tree := FileTree Name Contents

/-- A file that is not written over. -/
def guarded : Node Contents → Bool
  | .dir => false
  | .file c => c.readOnly || c.hidden

/-- A file that can be removed. -/
def removable : Node Contents → Bool
  | .dir => false
  | .file c => !c.readOnly

/-- `X:` -/
def drive (s : Str) : Path := if h : Proper s then [⟨s, h⟩] else []

/-- What lies behind two separators. -/
def network : Path := [⟨['U', 'N', 'C'], by decide⟩]

/-- One part of a path string. -/
def enter (p : Path) (s : Str) : Path :=
  if h : Proper s then p ++ [⟨s, h⟩]
  else if s = ['.', '.'] ∧ 1 < p.length then p.dropLast
  else p

/-- The parts of a path string, one after the other. -/
def follow (p : Path) (s : Str) : Path := (s.splitOnP isSep).foldl enter p

/-- Where a path string starts, and what is left of it. -/
def start (cwd : Path) (s : Str) : Path × Str :=
  if s.head?.any isSep then
    if s.tail.head?.any isSep then (network, s.drop 2) else (cwd.take 1, s.drop 1)
  else if s.tail.head? = some ':' then
    if (s.drop 2).head?.any isSep then (drive (s.take 2), s.drop 3)
    -- the current directory of another drive is taken for its top
    else if cwd.take 1 = drive (s.take 2) then (cwd, s.drop 2)
    else (drive (s.take 2), s.drop 2)
  else (cwd, s)

/-- The place that a path string names. -/
def resolve (cwd : Path) (s : Str) : Path := follow (start cwd s).1 (start cwd s).2

section Paths

variable {cwd p : Path} {s t : Str} {n : Name}

theorem isSep_backslash : isSep '\\' = true := by decide

theorem enter_name (p : Path) (n : Name) : enter p n.val = p ++ [n] := by
  rw [enter, dif_pos n.property]
  rfl

theorem follow_nil (p : Path) : follow p [] = p := rfl

theorem follow_append (p : Path) (s t : Str) :
    follow p (s ++ '\\' :: t) = follow (follow p s) t := by
  rw [follow, List.splitOnP_append_cons s t isSep_backslash, List.foldl_append]
  rfl

theorem follow_name (p : Path) (n : Name) : follow p n.val = p ++ [n] := by
  rw [follow, List.splitOnP_eq_singleton n.property.2.2.2]
  exact enter_name p n

/-- Behind a separator the start of a path string is over. -/
theorem start_append (cwd : Path) (s : Str) (ht : t.head?.any isSep = false) :
    ∃ q r, (r = [] ∨ ∃ r', r = r' ++ ['\\']) ∧ start cwd (s ++ ['\\']) = (q, r) ∧
      start cwd (s ++ '\\' :: t) = (q, r ++ t) := by
  match s with
  | [] =>
    refine ⟨cwd.take 1, [], .inl rfl, ?_, ?_⟩
    · simp [start, isSep_backslash]
    · simp [start, isSep_backslash, ht]
  | [a] =>
    by_cases ha : isSep a = true
    · refine ⟨network, [], .inl rfl, ?_, ?_⟩ <;> simp [start, isSep_backslash, ha]
    · refine ⟨cwd, [a] ++ ['\\'], .inr ⟨_, rfl⟩, ?_, ?_⟩ <;> simp [start, ha]
  | a :: b :: s =>
    by_cases ha : isSep a = true
    · by_cases hb : isSep b = true
      · refine ⟨network, s ++ ['\\'], .inr ⟨_, rfl⟩, ?_, ?_⟩ <;> simp [start, ha, hb]
      · refine ⟨cwd.take 1, b :: s ++ ['\\'], .inr ⟨_, rfl⟩, ?_, ?_⟩ <;> simp [start, ha, hb]
    · by_cases hb : b = ':'
      · subst hb
        cases s with
        | nil =>
          refine ⟨drive [a, ':'], [], .inl rfl, ?_, ?_⟩ <;> simp [start, ha, isSep_backslash]
        | cons c s =>
          by_cases hc : isSep c = true
          · refine ⟨drive [a, ':'], s ++ ['\\'], .inr ⟨_, rfl⟩, ?_, ?_⟩ <;> simp [start, ha, hc]
          · by_cases hd : cwd.take 1 = drive [a, ':']
            · refine ⟨cwd, c :: s ++ ['\\'], .inr ⟨_, rfl⟩, ?_, ?_⟩ <;> simp [start, ha, hc, hd]
            · refine ⟨drive [a, ':'], c :: s ++ ['\\'], .inr ⟨_, rfl⟩, ?_, ?_⟩ <;>
                simp [start, ha, hc, hd]
      · refine ⟨cwd, a :: b :: s ++ ['\\'], .inr ⟨_, rfl⟩, ?_, ?_⟩ <;> simp [start, ha, hb]

/-- What is said behind a separator goes on from where the path has come to. -/
theorem resolve_append (cwd : Path) (s : Str) (ht : t.head?.any isSep = false) :
    resolve cwd (s ++ '\\' :: t) = follow (resolve cwd (s ++ ['\\'])) t := by
  obtain ⟨q, r, hr, hs, hst⟩ := start_append cwd s ht
  rw [resolve, resolve, hs, hst]
  rcases hr with rfl | ⟨r, rfl⟩
  · rfl
  · rw [List.append_assoc, List.singleton_append, follow_append, follow_append, follow_nil]

theorem Name.head_not_sep (n : Name) : n.val.head?.any isSep = false := by
  cases h : n.val.head? with
  | none => rfl
  | some c => exact n.property.2.2.2 c (List.mem_of_head? h)

theorem child_ne_nil (s : Str) (n : Name) : s ++ '\\' :: n.val ≠ [] :=
  List.append_ne_nil_of_right_ne_nil _ (List.cons_ne_nil _ _)

theorem getLast_child (s : Str) (n : Name) :
    (s ++ '\\' :: n.val).getLast?.any isSep = false := by
  have hne : n.val ≠ [] := n.property.1
  have hlast : (s ++ '\\' :: n.val).getLast? = n.val.getLast? := by
    rw [List.getLast?_append, List.getLast?_cons, List.getLast?_eq_getLast_of_ne_nil hne]
    rfl
  rw [hlast, List.getLast?_eq_getLast_of_ne_nil hne]
  exact n.property.2.2.2 _ (List.getLast_mem hne)

/-- The name of an entry behind the path of its directory. -/
theorem resolve_child (cwd : Path) (s : Str) (n : Name) :
    resolve cwd (s ++ '\\' :: n.val) = resolve cwd (s ++ ['\\']) ++ [n] := by
  rw [resolve_append cwd s n.head_not_sep, follow_name]

/-- A separator behind a name does nothing. -/
theorem resolve_child_sep (cwd : Path) (s : Str) (n : Name) :
    resolve cwd (s ++ '\\' :: n.val ++ ['\\']) = resolve cwd (s ++ '\\' :: n.val) := by
  have hne : n.val ≠ [] := n.property.1
  have ht : (n.val ++ ['\\']).head?.any isSep = false := by
    rw [List.head?_append_of_ne_nil _ hne]
    exact n.head_not_sep
  rw [List.append_assoc, List.cons_append, resolve_append cwd s ht, follow_append, follow_nil,
    ← resolve_append cwd s n.head_not_sep]

end Paths

/-! ## The calls -/

/-- What the code throws. Without `bufferTooSmall`, which is the invalid parameter handler of the
`_s` functions, and `exhausted`, which is where a model of a recursion ends that has gone too
deep. -/
inductive Exception
  /-- `file path is invalid.` -/
  | filePathInvalid
  /-- `file path len limit:%d, current file path len is:%d.` -/
  | filePathTooLong (limit len : Nat)
  /-- `dir path is invalid.` -/
  | dirPathInvalid
  /-- `dir path len limit:%d, current path:%s len is:%d.` -/
  | dirPathTooLong (limit : Nat) (path : Str) (len : Nat)
  /-- `remove file:%s error.errno:%d` -/
  | removeFile (path : Str)
  /-- `make dir:%s error.errno:%d` -/
  | makeDir (path : Str)
  /-- `remove dir:%s error. errorno:%d` -/
  | removeDir (path : Str)
  /-- `copy file from:%s to %s error.errno:%d` -/
  | copyFile (src dst : Str)
  | bufferTooSmall
  | exhausted
  deriving DecidableEq

/-- The file tree, and the directories that have been listed. -/
structure Disk where
  tree : Tree
  listed : List Path

/-- Code that works on the disk and may throw. -/
abbrev FileM := EStateM Exception Disk

/-- No path of a file may be longer. -/
def MAXFILEPATHLEN : Nat := 1024

/-- No path of a directory may be longer. -/
def MAXDIRLEN : Nat := 1024

/-- `strcpy_s` and `sprintf_s` into a buffer of `MAXDIRLEN` bytes. -/
def store (s : Str) : FileM Str := if s.length < MAXDIRLEN then pure s else throw .bufferTooSmall

section Calls

variable (cwd : Path)

/-- What a path string names. A file has no separator behind it. -/
def stat (t : Tree) (path : Str) : Option (Node Contents) :=
  if path = [] then none
  else
    match t.get (resolve cwd path) with
    | some (.file c) => if path.getLast?.any isSep then none else some (.file c)
    | e => e

/-- `_access(path, 0)`, with `true` for 0 -/
def access (path : Str) : FileM Bool := fun s => .ok (stat cwd s.tree path).isSome s

/-- `_mkdir`, with `true` for 0 -/
def mkdir (path : Str) : FileM Bool := fun s =>
  if path = [] then .ok false s
  else
    match s.tree.mkdir (resolve cwd path) with
    | some t => .ok true { s with tree := t }
    | none => .ok false s

/-- `CopyFileA(src, dst, FALSE)`. A file is not copied to itself, and its attributes are copied
with it. -/
def copyFileA (src dst : Str) : FileM Bool := fun s =>
  match stat cwd s.tree src with
  | some (.file c) =>
    if resolve cwd src = resolve cwd dst ∨ dst = [] ∨ dst.getLast?.any isSep then .ok false s
    else if (s.tree.get (resolve cwd dst)).any guarded then .ok false s
    else
      match s.tree.write (resolve cwd dst) c with
      | some t => .ok true { s with tree := t }
      | none => .ok false s
  | _ => .ok false s

/-- `remove`, with `true` for 0 -/
def remove (path : Str) : FileM Bool := fun s =>
  match stat cwd s.tree path with
  | some (.file c) =>
    if c.readOnly then .ok false s
    else
      match s.tree.remove (resolve cwd path) with
      | some t => .ok true { s with tree := t }
      | none => .ok false s
  | _ => .ok false s

/-- `_rmdir`, with `true` for 0. The top of a drive and the current directory stay. -/
def rmdir (path : Str) : FileM Bool := fun s =>
  if path = [] ∨ resolve cwd path = cwd ∨ (resolve cwd path).length ≤ 1 then .ok false s
  else
    match s.tree.rmdir (resolve cwd path) with
    | some t => .ok true { s with tree := t }
    | none => .ok false s

/-- `_finddatai64_t`, with `attrib & _A_SUBDIR` -/
structure FindData where
  name : Str
  subdir : Bool
  deriving DecidableEq

/-- The entries that the system finds in a directory. The top of a drive does not have the two
that stand for the directory itself and the one above it. -/
def entries (t : Tree) (d : Path) : List FindData :=
  (if d.length ≤ 1 then [] else [⟨['.'], true⟩, ⟨['.', '.'], true⟩]) ++
    (t.children d).map fun x => ⟨x.1.val, decide (x.2 = .dir)⟩

/-- `_findfirsti64` and the calls of `_findnexti64`, for a pattern that ends in `*.*`: all entries
of the directory. `none` is the handle -1. -/
def find (pattern : Str) : FileM (Option (List FindData)) := fun s =>
  let d := resolve cwd (pattern.take (pattern.length - 3))
  let found := if s.tree.get d = some .dir then entries s.tree d else []
  .ok (if found = [] then none else some found) { s with listed := d :: s.listed }

end Calls

section Calls

variable {cwd : Path} {s s' : Disk} {path src dst : Str} {c : Contents}

/-- What the system tells of something in a directory. -/
def entryOf (x : Name × Node Contents) : FindData := ⟨x.1.val, decide (x.2 = .dir)⟩

/-- In front of what lies in the directory there can be entries for directories elsewhere. -/
theorem entries_eq (t : Tree) (d : Path) : ∃ dots : List FindData,
    entries t d = dots ++ (t.children d).map entryOf ∧
      ∀ x ∈ dots, x.name = ['.'] ∨ x.name = ['.', '.'] := by
  refine ⟨_, rfl, fun x hx => ?_⟩
  split at hx
  · exact absurd hx List.not_mem_nil
  · rcases List.mem_cons.mp hx with rfl | hx
    · exact .inl rfl
    · exact .inr (List.mem_singleton.mp hx ▸ rfl)

theorem stat_of_get (hne : path ≠ []) (hsep : path.getLast?.any isSep = false)
    (h : s.tree.get (resolve cwd path) = some (.file c)) :
    stat cwd s.tree path = some (.file c) := by
  rw [stat, if_neg hne, h]
  simp [hsep]

end Calls

end GhNet.Base.File
