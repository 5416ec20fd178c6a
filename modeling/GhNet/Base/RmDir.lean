import GhNet.Base.YyFile

/-!
# `RmDir`

The pattern that `RmDir` lists is printed from the buffer it is printed into, so there is no path
in it: what is listed is the current directory, or the top of its drive where the path string has
no separator at its end. The names found there are then looked for in the directory to remove.
-/

namespace GhNet.Base.File

open GhNet

variable {cwd D p q d : Path} {t t' : Tree} {s s' : Disk} {path path' : Str} {n : Name}
  {fuel : Nat} {l : List (Name × Node Contents)} {P : Path → Prop}

/-! ## What is listed -/

/-- More directories have been listed, of which `P` holds. -/
def Lists (P : Path → Prop) (s s' : Disk) : Prop :=
  ∃ l, s'.listed = l ++ s.listed ∧ ∀ d ∈ l, P d

namespace Lists

theorem refl (s : Disk) : Lists P s s := ⟨[], rfl, List.forall_mem_nil _⟩

theorem trans {u : Disk} (h : Lists P s s') (h' : Lists P s' u) : Lists P s u := by
  obtain ⟨l, hl, hP⟩ := h
  obtain ⟨l', hl', hP'⟩ := h'
  refine ⟨l' ++ l, by rw [hl', hl, List.append_assoc], fun d hd => ?_⟩
  exact (List.mem_append.mp hd).elim (hP' d) (hP d)

theorem of_eq (h : s'.listed = s.listed) : Lists P s s' := ⟨[], h, List.forall_mem_nil _⟩

theorem mem (h : Lists P s s') (hd : d ∈ s.listed) : d ∈ s'.listed := by
  obtain ⟨l, hl, -⟩ := h
  rw [hl]
  exact List.mem_append_right _ hd

end Lists

/-- The directory that `RmDir` lists: the current one, or the top of its drive. -/
def listedBy (cwd : Path) (path : Str) : Path := if trailing path then cwd else cwd.take 1

theorem resolve_rmPattern (cwd : Path) (path : Str) :
    resolve cwd ((rmPattern path).take ((rmPattern path).length - 3)) = listedBy cwd path := by
  unfold rmPattern listedBy
  split
  · rfl
  · rfl

/-- What is found in a directory: nothing is the handle -1. -/
def foundIn (t : Tree) (d : Path) : Option (List FindData) :=
  if t.get d = some .dir then
    if entries t d = [] then none else some (entries t d)
  else none

theorem find_rmPattern (cwd : Path) (path : Str) (s : Disk) :
    find cwd (rmPattern path) s = .ok (foundIn s.tree (listedBy cwd path))
      { s with listed := listedBy cwd path :: s.listed } := by
  unfold find foundIn
  dsimp only
  rw [resolve_rmPattern]
  split <;> rfl

/-- `RmDir` behind its listing. -/
def rmFound (cwd : Path) (fuel : Nat) (path : Str) : Option (List FindData) → FileM Unit
  | none => pure ()
  | some found => do
    let path' ← found.foldlM (rmEntry cwd (rmDir cwd fuel) path) []
    if ← rmdir cwd path then pure () else throw (.removeDir path')

theorem rmDir_eq (hne : path ≠ []) (hlen : path.length < MAXDIRLEN) (s : Disk) :
    rmDir cwd (fuel + 1) path s = rmFound cwd fuel path (foundIn s.tree (listedBy cwd path))
      { s with listed := listedBy cwd path :: s.listed } := by
  have hcheck : dirPathCheck path s = .ok () s := by
    rw [dirPathCheck, if_neg hne, if_neg (by omega)]
    rfl
  have hstore : store (rmPattern path) s = .ok (rmPattern path) s := by
    have hfits : (rmPattern path).length < MAXDIRLEN := by
      unfold rmPattern
      split <;> decide
    rw [store, if_pos hfits]
    rfl
  rw [rmDir, bind_ok hcheck, bind_ok hstore, bind_ok (find_rmPattern cwd path s)]
  cases foundIn s.tree (listedBy cwd path) with
  | none => rfl
  | some found => rfl

/-! ### The calls that list nothing -/

theorem lists_of_ite {α : Type} {c : Prop} [Decidable c] {x y : FileM α}
    (hx : Keeps (Lists P) x) (hy : Keeps (Lists P) y) :
    Keeps (Lists P) (if c then x else y) := by
  split
  · exact hx
  · exact hy

theorem lists_pure {α : Type} (a : α) : Keeps (Lists P) (pure a : FileM α) := fun s => .refl s

theorem lists_throw {α : Type} (e : Exception) : Keeps (Lists P) (throw e : FileM α) :=
  fun s => .refl s

theorem lists_store_bind {α : Type} {f : Str → FileM α} (hf : Keeps (Lists P) (f path)) :
    Keeps (Lists P) (store path >>= f) := by
  unfold store
  split
  · exact hf
  · exact fun s => .refl s

theorem lists_remove : Keeps (Lists P) (remove cwd path) := by
  intro s
  refine .of_eq ?_
  unfold remove
  split
  · split
    · rfl
    · split <;> rfl
  · rfl

theorem lists_rmdir : Keeps (Lists P) (rmdir cwd path) := by
  intro s
  refine .of_eq ?_
  unfold rmdir
  split
  · rfl
  · split <;> rfl

theorem lists_rmFile : Keeps (Lists P) (rmFile cwd path) := by
  refine Keeps.bind Lists.trans ?_ fun _ => Keeps.bind Lists.trans lists_remove fun _ =>
    lists_of_ite (lists_pure _) (lists_throw _)
  exact lists_of_ite (lists_throw _) (lists_of_ite (lists_throw _) (lists_pure _))

theorem lists_find (hP : P (listedBy cwd path)) : Keeps (Lists P) (find cwd (rmPattern path)) := by
  intro s
  rw [find_rmPattern]
  exact ⟨[listedBy cwd path], rfl, List.forall_mem_singleton.mpr hP⟩

theorem lists_rmEntry (hrec : ∀ path, Keeps (Lists P) (rmDir cwd fuel path)) (path' : Str)
    (c_file : FindData) : Keeps (Lists P) (rmEntry cwd (rmDir cwd fuel) path path' c_file) := by
  refine lists_of_ite (lists_store_bind ?_) (lists_pure _)
  exact Keeps.bind Lists.trans (lists_of_ite (hrec _) lists_rmFile) fun _ => lists_pure _

theorem lists_rmFound (hrec : ∀ path, Keeps (Lists P) (rmDir cwd fuel path)) :
    ∀ found, Keeps (Lists P) (rmFound cwd fuel path found)
  | none => lists_pure _
  | some found =>
    Keeps.bind Lists.trans (Keeps.foldlM Lists.refl Lists.trans (lists_rmEntry hrec) found [])
      fun _ => Keeps.bind Lists.trans lists_rmdir fun _ => lists_of_ite (lists_pure _)
        (lists_throw _)

/-- **`RmDir` lists the current directory and the top of its drive**, and nothing else. -/
theorem rmDir_lists (hP : ∀ path, P (listedBy cwd path)) :
    ∀ (fuel : Nat) (path : Str), Keeps (Lists P) (rmDir cwd fuel path)
  | 0, _ => lists_throw _
  | fuel + 1, path => by
    have hcheck : Keeps (Lists P) (dirPathCheck path) :=
      lists_of_ite (lists_throw _) (lists_of_ite (lists_throw _) (lists_pure _))
    refine Keeps.bind Lists.trans hcheck fun _ => lists_store_bind ?_
    refine Keeps.bind Lists.trans (lists_find (hP path)) fun found => ?_
    have hfound : Keeps (Lists P) (rmFound cwd fuel path found) :=
      lists_rmFound (rmDir_lists hP fuel) found
    cases found with
    | none => exact hfound
    | some found => exact hfound

/-- More is listed, whatever it is. -/
theorem rmDir_lists_more (cwd : Path) (fuel : Nat) (path : Str) :
    Keeps (Lists fun _ => True) (rmDir cwd fuel path) :=
  rmDir_lists (fun _ => trivial) fuel path

theorem listedBy_mem_rmDir (cwd : Path) (fuel : Nat) (hne : path ≠ [])
    (hlen : path.length < MAXDIRLEN) (s : Disk) :
    listedBy cwd path ∈ (final (rmDir cwd (fuel + 1) path s)).listed := by
  rw [rmDir_eq hne hlen]
  exact (lists_rmFound (rmDir_lists_more cwd fuel) _ _).mem List.mem_cons_self

/-! ## One entry -/

/-- There is a file in the directory `path` under the name of the entry, and it can be removed. -/
def isFile (cwd : Path) (t : Tree) (path : Str) (n : Name) : Bool :=
  (t.get (resolve cwd (path ++ '\\' :: n.val))).any removable

theorem isFile_iff :
    isFile cwd t path n = true ↔
      ∃ c, t.get (resolve cwd (path ++ '\\' :: n.val)) = some (.file c) ∧ c.readOnly = false := by
  unfold isFile
  cases t.get (resolve cwd (path ++ '\\' :: n.val)) with
  | none => simp
  | some e => cases e <;> simp [removable]

variable {e : Node Contents} {rec : Str → FileM Unit}

theorem rmEntry_dots {c_file : FindData} (h : c_file.name = ['.'] ∨ c_file.name = ['.', '.']) :
    rmEntry cwd rec path path' c_file = pure path' := by
  refine if_neg fun hn => ?_
  rcases h with h | h
  · exact hn.1 h
  · exact hn.2 h

theorem rmEntry_child (n : Name) (e : Node Contents) :
    rmEntry cwd rec path path' (entryOf (n, e)) = (do
      let path ← store (path ++ '\\' :: n.val)
      rmPath cwd rec (decide (e = .dir)) path
      return path) :=
  if_pos ⟨n.property.2.1, n.property.2.2.1⟩

theorem rmEntry_long (h : ¬(path ++ '\\' :: n.val).length < MAXDIRLEN) :
    rmEntry cwd rec path path' (entryOf (n, e)) s = .error .bufferTooSmall s := by
  rw [rmEntry_child]
  refine bind_error ?_
  rw [store, if_neg h]
  rfl

theorem rmEntry_fits (h : (path ++ '\\' :: n.val).length < MAXDIRLEN) :
    rmEntry cwd rec path path' (entryOf (n, e)) s = (do
      rmPath cwd rec (decide (e = .dir)) (path ++ '\\' :: n.val)
      return path ++ '\\' :: n.val : FileM Str) s := by
  rw [rmEntry_child]
  refine bind_ok ?_
  rw [store, if_pos h]
  rfl

/-- A subdirectory, as the listing says: then the top of the drive is listed. -/
theorem rmEntry_dir (h : (path ++ '\\' :: n.val).length < MAXDIRLEN) :
    cwd.take 1 ∈
      (final (rmEntry cwd (rmDir cwd (fuel + 1)) path path' (entryOf (n, .dir)) s)).listed := by
  have hmem := listedBy_mem_rmDir cwd fuel (child_ne_nil path n) h s
  rw [listedBy, trailing_child, if_neg Bool.false_ne_true] at hmem
  rw [rmEntry_fits h]
  exact Lists.mem (P := fun _ => True) (final_bind Lists.refl (fun _ => lists_pure _) s) hmem

theorem filePathCheck_child (h : (path ++ '\\' :: n.val).length < MAXDIRLEN) (s : Disk) :
    filePathCheck (path ++ '\\' :: n.val) s = .ok () s := by
  have hlimit : MAXDIRLEN = MAXFILEPATHLEN := rfl
  rw [filePathCheck, if_neg (child_ne_nil path n), if_neg (by omega)]
  rfl

theorem get_eq_of_stat (h : stat cwd t path = some e) : t.get (resolve cwd path) = some e := by
  unfold stat at h
  split at h
  · cases h
  · split at h
    · next hget =>
      rw [hget]
      split at h
      · cases h
      · exact h
    · exact h

/-- A file in the listing, and in the directory. -/
theorem rmEntry_file (h : (path ++ '\\' :: n.val).length < MAXDIRLEN) (he : e ≠ .dir)
    (hfile : isFile cwd s.tree path n = true) :
    ∃ t, rmEntry cwd rec path path' (entryOf (n, e)) s =
        .ok (path ++ '\\' :: n.val) { s with tree := t } ∧
      ∀ q, t.get q = if q = resolve cwd (path ++ '\\' :: n.val) then none else s.tree.get q := by
  obtain ⟨c, hc, hfree⟩ := isFile_iff.mp hfile
  obtain ⟨t, ht, hget⟩ := FileTree.remove_of_file hc
  refine ⟨t, ?_, hget⟩
  have hstat := stat_of_get (child_ne_nil path n) (getLast_child path n) hc
  have hremove : remove cwd (path ++ '\\' :: n.val) s = .ok true { s with tree := t } := by
    rw [remove, hstat]
    dsimp only
    rw [hfree, if_neg Bool.false_ne_true, ht]
  have hrm : rmPath cwd rec false (path ++ '\\' :: n.val) s = .ok () { s with tree := t } := by
    rw [rmPath, if_neg Bool.false_ne_true, rmFile, bind_ok (filePathCheck_child h s),
      bind_ok hremove]
    rfl
  rw [rmEntry_fits h, decide_eq_false he, bind_ok hrm]
  rfl

/-- A file in the listing that is none in the directory, or a read-only one. -/
theorem rmEntry_noFile (h : (path ++ '\\' :: n.val).length < MAXDIRLEN) (he : e ≠ .dir)
    (hfile : isFile cwd s.tree path n = false) :
    rmEntry cwd rec path path' (entryOf (n, e)) s =
      .error (.removeFile (path ++ '\\' :: n.val)) s := by
  have hremove : remove cwd (path ++ '\\' :: n.val) s = .ok false s := by
    unfold remove
    split
    · next c hc =>
      refine if_pos ((Bool.not_eq_false _).mp fun hfree => ?_)
      rw [isFile_iff.mpr ⟨c, get_eq_of_stat hc, hfree⟩] at hfile
      cases hfile
    · rfl
  rw [rmEntry_fits h, decide_eq_false he]
  refine bind_error ?_
  rw [rmPath, if_neg Bool.false_ne_true, rmFile, bind_ok (filePathCheck_child h s),
    bind_ok hremove]
  rfl

/-! ## The loop -/

/-- The loop comes to a subdirectory: in front of it there are only files that are in the
directory `path`, too, and can be removed there. -/
def reaches (cwd : Path) (t : Tree) (path : Str) : List (Name × Node Contents) → Bool
  | [] => false
  | (n, e) :: l => decide ((path ++ '\\' :: n.val).length < MAXDIRLEN) &&
    (decide (e = .dir) || isFile cwd t path n && reaches cwd t path l)

theorem reaches_congr : ∀ {l : List (Name × Node Contents)},
    (∀ x ∈ l, isFile cwd t' path x.1 = isFile cwd t path x.1) →
    reaches cwd t' path l = reaches cwd t path l
  | [], _ => rfl
  | (n, e) :: l, h => by
    rw [reaches, reaches, h _ List.mem_cons_self,
      reaches_congr fun x hx => h x (List.mem_cons_of_mem _ hx)]

/-- A file that has gone is none of the others. -/
theorem reaches_of_removed (hn : n ∉ l.map Prod.fst)
    (hget : ∀ q, t'.get q = if q = resolve cwd (path ++ '\\' :: n.val) then none else t.get q) :
    reaches cwd t' path l = reaches cwd t path l := by
  refine reaches_congr fun x hx => ?_
  rw [isFile, isFile, hget, if_neg]
  intro h
  rw [resolve_child, resolve_child, List.append_cancel_left_eq] at h
  injection h with h
  exact hn (h ▸ List.mem_map_of_mem hx)

/-- The loop of `RmDir`. -/
def rmEntries (cwd : Path) (fuel : Nat) (path path' : Str) (l : List (Name × Node Contents)) :
    FileM Str :=
  (l.map entryOf).foldlM (rmEntry cwd (rmDir cwd fuel) path) path'

theorem rmEntries_cons (x : Name × Node Contents) (l : List (Name × Node Contents)) :
    rmEntries cwd fuel path path' (x :: l) =
      (rmEntry cwd (rmDir cwd fuel) path path' (entryOf x) >>= fun p =>
        rmEntries cwd fuel path p l) := rfl

theorem lists_rmEntries (cwd : Path) (fuel : Nat) (path path' : Str)
    (l : List (Name × Node Contents)) :
    Keeps (Lists fun _ => True) (rmEntries cwd fuel path path' l) :=
  Keeps.foldlM Lists.refl Lists.trans (lists_rmEntry (rmDir_lists_more cwd fuel)) _ _

theorem top_mem_of_reaches : ∀ {l : List (Name × Node Contents)} {s : Disk} {path' : Str},
    (l.map Prod.fst).Nodup → reaches cwd s.tree path l = true →
    cwd.take 1 ∈ (final (rmEntries cwd (fuel + 1) path path' l s)).listed
  | [], _, _, _, h => by cases h
  | (n, e) :: l, s, path', hnd, h => by
    obtain ⟨hn, hnd⟩ := List.nodup_cons.mp hnd
    rw [reaches, Bool.and_eq_true, decide_eq_true_eq] at h
    obtain ⟨hfits, h⟩ := h
    rw [rmEntries_cons]
    by_cases he : e = .dir
    · subst he
      exact Lists.mem (final_bind Lists.refl (fun p => lists_rmEntries cwd (fuel + 1) path p l) s)
        (rmEntry_dir hfits)
    · rw [decide_eq_false he, Bool.false_or, Bool.and_eq_true] at h
      obtain ⟨t, hrun, hget⟩ := rmEntry_file hfits he h.1
      rw [bind_ok hrun]
      exact top_mem_of_reaches hnd ((reaches_of_removed hn hget).trans h.2)

/-- A loop that comes to no subdirectory removes files, up to the first that it cannot remove. -/
theorem rmEntries_of_not_reaches (fuel : Nat) : ∀ {l : List (Name × Node Contents)} (s : Disk)
    (path' : Str), (l.map Prod.fst).Nodup → reaches cwd s.tree path l = false →
    (final (rmEntries cwd fuel path path' l s)).listed = s.listed ∧
      ∀ q, s.tree.get q = some .dir →
        (final (rmEntries cwd fuel path path' l s)).tree.get q = some .dir
  | [], _, _, _, _ => ⟨rfl, fun _ hq => hq⟩
  | (n, e) :: l, s, path', hnd, h => by
    obtain ⟨hn, hnd⟩ := List.nodup_cons.mp hnd
    rw [rmEntries_cons]
    by_cases hfits : (path ++ '\\' :: n.val).length < MAXDIRLEN
    · rw [reaches, decide_eq_true hfits, Bool.true_and, Bool.or_eq_false_iff,
        decide_eq_false_iff_not] at h
      obtain ⟨he, h⟩ := h
      cases hfile : isFile cwd s.tree path n with
      | false =>
        rw [bind_error (rmEntry_noFile hfits he hfile)]
        exact ⟨rfl, fun _ hq => hq⟩
      | true =>
        rw [hfile, Bool.true_and] at h
        obtain ⟨t, hrun, hget⟩ := rmEntry_file hfits he hfile
        rw [bind_ok hrun]
        obtain ⟨hlisted, hdirs⟩ := rmEntries_of_not_reaches fuel { s with tree := t }
          (path ++ '\\' :: n.val) hnd ((reaches_of_removed hn hget).trans h)
        refine ⟨hlisted, fun q hq => hdirs q ?_⟩
        obtain ⟨c, hc, -⟩ := isFile_iff.mp hfile
        rw [hget, if_neg, hq]
        rintro rfl
        rw [hq] at hc
        cases hc
    · rw [bind_error (rmEntry_long hfits)]
      exact ⟨rfl, fun _ hq => hq⟩

/-! ## The directory that is listed -/

theorem take_prefix_listedBy (cwd : Path) (path : Str) : cwd.take 1 <+: listedBy cwd path := by
  unfold listedBy
  split
  · exact List.take_prefix 1 cwd
  · exact List.prefix_refl _

theorem length_listedBy :
    (listedBy cwd path).length ≤ 1 ↔ listedBy cwd path = cwd.take 1 := by
  constructor
  · intro h
    unfold listedBy at h ⊢
    split at h
    · next ht => rw [if_pos ht, List.take_of_length_le h]
    · next ht => rw [if_neg ht]
  · intro h
    rw [h, List.length_take]
    exact Nat.min_le_left _ _

theorem get_listedBy (hcwd : t.get cwd = some .dir) (path : Str) :
    t.get (listedBy cwd path) = some .dir := by
  have hne : t.get cwd ≠ none := hcwd ▸ Option.some_ne_none _
  unfold listedBy
  split
  · exact hcwd
  · by_cases htop : cwd.take 1 = cwd
    · rw [htop, hcwd]
    · refine FileTree.get_of_prefix hne (fun h => ?_) (List.take_prefix 1 cwd) htop
      rcases List.take_eq_nil_iff.mp h with h | h
      · cases h
      · exact FileTree.ne_nil hne h

theorem entries_eq_nil (d : Path) : entries t d = [] ↔ d.length ≤ 1 ∧ t.children d = [] := by
  unfold entries
  rw [List.append_eq_nil_iff, List.map_eq_nil_iff]
  refine and_congr_left fun _ => ?_
  split
  · next h => exact ⟨fun _ => h, fun _ => rfl⟩
  · next h => exact ⟨fun h' => (List.cons_ne_nil _ _ h').elim, fun h' => absurd h' h⟩

/-- The entries that stand for directories elsewhere are left out. -/
theorem foldlM_entries (cwd : Path) (t : Tree) (path path' : Str) (d : Path) :
    (entries t d).foldlM (rmEntry cwd (rmDir cwd fuel) path) path' =
      rmEntries cwd fuel path path' (t.children d) := by
  obtain ⟨dots, heq, hdots⟩ := entries_eq t d
  have hskip : ∀ l : List FindData, (∀ x ∈ l, x.name = ['.'] ∨ x.name = ['.', '.']) →
      l.foldlM (rmEntry cwd (rmDir cwd fuel) path) path' = pure path' := by
    intro l
    induction l with
    | nil => exact fun _ => rfl
    | cons x l ih =>
      intro hl
      rw [List.foldlM_cons, rmEntry_dots (hl x List.mem_cons_self), pure_bind,
        ih fun y hy => hl y (List.mem_cons_of_mem _ hy)]
  rw [heq, List.foldlM_append, hskip dots hdots, pure_bind]
  rfl

/-! ## The removal of a directory -/

/-- Only the directory `D` and what lies in it has been listed. If the call has returned, `D` is
gone with all that was in it, and everything else is as it was. -/
structure Removes (D : Path) (t : Tree) (r : EStateM.Result Exception Disk Unit) : Prop where
  inside : ∀ d ∈ (final r).listed, D <+: d
  gone : ∀ u s', r = .ok u s' → ∀ p, D <+: p → s'.tree.get p = none
  kept : ∀ u s', r = .ok u s' → ∀ p, ¬D <+: p → s'.tree.get p = t.get p

/-- The listing does not leave the directory that `path` names. -/
structure Confined (cwd : Path) (t : Tree) (path : Str) : Prop where
  /-- `path` names what is listed, or something above it -/
  above : resolve cwd path <+: listedBy cwd path
  /-- the top of the drive is not listed, or it is what `path` names -/
  deep : resolve cwd path = cwd.take 1 ∨
    reaches cwd t path (t.children (listedBy cwd path)) = false
  /-- `path` is not the top of an empty drive -/
  entry : ¬(listedBy cwd path = cwd.take 1 ∧ t.children (listedBy cwd path) = [])

theorem foundIn_listedBy (hcwd : t.get cwd = some .dir)
    (hentry : ¬(listedBy cwd path = cwd.take 1 ∧ t.children (listedBy cwd path) = [])) :
    foundIn t (listedBy cwd path) = some (entries t (listedBy cwd path)) := by
  rw [foundIn, if_pos (get_listedBy hcwd path), if_neg]
  rw [entries_eq_nil, length_listedBy]
  exact hentry

/-- `_rmdir` does not work above the current directory. -/
theorem rmdir_above (hcwd : s.tree.get cwd = some .dir) (hpre : resolve cwd path <+: cwd) :
    rmdir cwd path s = .ok false s := by
  unfold rmdir
  split
  · rfl
  · next hn =>
    rw [not_or, not_or] at hn
    obtain ⟨r, hr⟩ := hpre
    cases r with
    | nil => exact absurd ((List.append_nil _).symm.trans hr) hn.2.1
    | cons n r =>
      have hlow : s.tree.get (resolve cwd path ++ n :: r) ≠ none := by
        rw [hr, hcwd]
        exact Option.some_ne_none _
      rw [FileTree.rmdir_of_child (FileTree.get_child_ne_none hlow)]

theorem rmdir_top (h : (resolve cwd path).length ≤ 1) (s : Disk) :
    rmdir cwd path s = .ok false s := by
  rw [rmdir, if_pos (.inr (.inr h))]

/-- **`RmDir` does not return where it is confined**: `_rmdir` is for the directory that it has
listed, or for one above it. -/
theorem Confined.throws (hc : Confined cwd t path) (fuel : Nat) (hcwd : t.get cwd = some .dir)
    (hne : path ≠ []) (hlen : path.length < MAXDIRLEN) (u : Unit) (s' : Disk) :
    rmDir cwd (fuel + 1) path ⟨t, []⟩ ≠ .ok u s' := by
  intro h
  rw [rmDir_eq hne hlen, foundIn_listedBy hcwd hc.entry, rmFound, foldlM_entries] at h
  obtain ⟨p, s1, hloop, h⟩ := exists_of_bind h
  have hfalse : rmdir cwd path s1 = .ok false s1 := by
    rcases hc.deep with htop | hdeep
    · refine rmdir_top ?_ s1
      rw [htop, List.length_take]
      exact Nat.min_le_left _ _
    · -- the loop has removed files only
      have hdirs := (rmEntries_of_not_reaches fuel ⟨t, [listedBy cwd path]⟩ []
        (FileTree.nodup_children t _) hdeep).2 cwd hcwd
      rw [hloop] at hdirs
      have habove := hc.above
      unfold listedBy at habove
      split at habove
      · exact rmdir_above hdirs habove
      · refine rmdir_top (Nat.le_trans habove.length_le ?_) s1
        rw [List.length_take]
        exact Nat.min_le_left _ _
  obtain ⟨b, s2, hb, h⟩ := exists_of_bind h
  rw [hfalse] at hb
  injection hb with hb _
  subst hb
  cases h

/-- Where it is confined it lists nothing outside. -/
theorem Confined.inside (hc : Confined cwd t path) (hcwd : t.get cwd = some .dir)
    (hne : path ≠ []) (hlen : path.length < MAXDIRLEN) :
    ∀ d ∈ (final (rmDir cwd (fuel + 1) path ⟨t, []⟩)).listed, resolve cwd path <+: d := by
  have hlists : Lists (fun d => resolve cwd path <+: d) ⟨t, []⟩
      (final (rmDir cwd (fuel + 1) path ⟨t, []⟩)) := by
    rcases hc.deep with htop | hdeep
    · exact rmDir_lists (fun path' => htop ▸ take_prefix_listedBy cwd path') (fuel + 1) path _
    · rw [rmDir_eq hne hlen, foundIn_listedBy hcwd hc.entry, rmFound, foldlM_entries]
      have hfind : Lists (fun d => resolve cwd path <+: d) ⟨t, []⟩ ⟨t, [listedBy cwd path]⟩ :=
        ⟨[listedBy cwd path], rfl, List.forall_mem_singleton.mpr hc.above⟩
      have hloop := (rmEntries_of_not_reaches fuel ⟨t, [listedBy cwd path]⟩ []
        (FileTree.nodup_children t _) hdeep).1
      refine hfind.trans (.trans (.of_eq hloop) ?_)
      exact final_bind Lists.refl (fun _ => Keeps.bind Lists.trans lists_rmdir fun _ =>
        lists_of_ite (lists_pure _) (lists_throw _)) _
  obtain ⟨l, hl, hP⟩ := hlists
  rw [hl, List.append_nil]
  exact hP

/-- A subdirectory that the loop comes to leads to the top of the drive. -/
theorem top_mem_rmDir (fuel : Nat) (hcwd : t.get cwd = some .dir) (hne : path ≠ [])
    (hlen : path.length < MAXDIRLEN)
    (hreach : reaches cwd t path (t.children (listedBy cwd path)) = true) :
    cwd.take 1 ∈ (final (rmDir cwd (fuel + 2) path ⟨t, []⟩)).listed := by
  have hentry : ¬(listedBy cwd path = cwd.take 1 ∧ t.children (listedBy cwd path) = []) := by
    rintro ⟨-, hnil⟩
    rw [hnil] at hreach
    cases hreach
  rw [rmDir_eq hne hlen, foundIn_listedBy hcwd hentry, rmFound, foldlM_entries]
  refine Lists.mem (P := fun _ => True) (final_bind Lists.refl (fun _ => ?_) _)
    (top_mem_of_reaches (FileTree.nodup_children t _) hreach)
  exact Keeps.bind Lists.trans lists_rmdir fun _ => lists_of_ite (lists_pure _) (lists_throw _)

/-- **When `RmDir` stays in its argument**: exactly where its listing is confined. -/
theorem rmDir_removes_iff (hcwd : t.get cwd = some .dir) (hpath : stat cwd t path = some .dir)
    (hlen : path.length < MAXDIRLEN) (hfuel : 1 < fuel) :
    Removes (resolve cwd path) t (rmDir cwd fuel path ⟨t, []⟩) ↔ Confined cwd t path := by
  have hne : path ≠ [] := by
    rintro rfl
    cases hpath
  have hD : t.get (resolve cwd path) = some .dir := get_eq_of_stat hpath
  obtain ⟨fuel, rfl⟩ : ∃ k, fuel = k + 2 := ⟨fuel - 2, by omega⟩
  constructor
  · intro h
    have habove := h.inside _ (listedBy_mem_rmDir cwd _ hne hlen _)
    refine ⟨habove, ?_, ?_⟩
    · refine or_iff_not_imp_right.mpr fun hreach => ?_
      have hmem := top_mem_rmDir fuel hcwd hne hlen (Bool.not_eq_false _ ▸ hreach)
      have hpos := List.length_pos_iff.mpr (FileTree.ne_nil (hD ▸ Option.some_ne_none _))
      refine (h.inside _ hmem).eq_of_length_le ?_
      rw [List.length_take]
      omega
    · rintro ⟨htop, hnil⟩
      have hrun : rmDir cwd (fuel + 2) path ⟨t, []⟩ = .ok () ⟨t, [listedBy cwd path]⟩ := by
        rw [rmDir_eq hne hlen, foundIn, if_pos (get_listedBy hcwd path),
          if_pos ((entries_eq_nil _).mpr ⟨length_listedBy.mpr htop, hnil⟩)]
        rfl
      have hgone := h.gone _ _ hrun _ (List.prefix_refl _)
      rw [hD] at hgone
      cases hgone
  · intro hc
    have hthrows := hc.throws (fuel + 1) hcwd hne hlen
    exact ⟨hc.inside hcwd hne hlen, fun u s' h => absurd h (hthrows u s'),
      fun u s' h => absurd h (hthrows u s')⟩

/-! ### Two runs -/

/-- The disk `X:`. -/
def diskX : Name := ⟨['X', ':'], by decide⟩

/-- The name of a directory and of the file in it. -/
def nameW : Name := ⟨['w'], by decide⟩

/-- `X:\w\w` is a file. -/
def workFile? : Option Tree := do
  let t ← (FileTree.ofTop diskX : Tree).mkdir [diskX, nameW]
  t.write [diskX, nameW, nameW] ⟨[1], false, false⟩

theorem workFile?_isSome : workFile?.isSome = true := by decide +kernel

/-- The disk with the directory and the file. -/
def workFile : Tree := workFile?.get workFile?_isSome

/-- `.\` in `X:\w` is confined, `w` in `X:\` is not. -/
theorem rmDir_removes_workFile :
    Removes [diskX, nameW] workFile
        (rmDir [diskX, nameW] MAXDIRLEN ['.', '\\'] ⟨workFile, []⟩) ∧
      ¬Removes [diskX, nameW] workFile (rmDir [diskX] MAXDIRLEN ['w'] ⟨workFile, []⟩) := by
  constructor
  · have hc : Confined [diskX, nameW] workFile ['.', '\\'] :=
      ⟨by decide +kernel, .inr (by decide +kernel), by decide +kernel⟩
    exact (rmDir_removes_iff (by decide +kernel) (by decide +kernel) (by decide)
      (by decide)).mpr hc
  · intro h
    have hc : Confined [diskX] workFile ['w'] :=
      (rmDir_removes_iff (by decide +kernel) (by decide +kernel) (by decide) (by decide)).mp h
    exact absurd hc.above (by decide +kernel)

/-- **`RmDir` lists the top of the drive** for a directory below it. -/
theorem not_rmDir_removes :
    ¬∀ (cwd : Path) (t : Tree) (path : Str), t.get cwd = some .dir →
      stat cwd t path = some .dir → path.length < MAXDIRLEN →
      Removes (resolve cwd path) t (rmDir cwd MAXDIRLEN path ⟨t, []⟩) := by
  intro h
  have hr := h [diskX] workFile ['w'] (by decide +kernel) (by decide +kernel) (by decide)
  have hmem : [diskX] ∈ (final (rmDir [diskX] MAXDIRLEN ['w'] ⟨workFile, []⟩)).listed :=
    listedBy_mem_rmDir _ _ (by simp) (by decide) _
  exact absurd (hr.inside _ hmem) (by decide +kernel)

end GhNet.Base.File
