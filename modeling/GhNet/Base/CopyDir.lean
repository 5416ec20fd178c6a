import GhNet.Base.YyFile

/-!
# `CopyDir`

`CopyDir` copies the entries of a directory one after the other. After some of them the tree is
the one before with the copies of these, and missing directories above: that is `Progress`, and
what is left when all are done is `Copied`. `CopyFile` says nothing when `CopyFileA` refuses a file
and the directory is there, so nothing may be in the way of the copies.

The path strings are cut by hand. The separator at the end of the destination is looked for in
the destination and taken off the source, so the strings must be such that this does no harm.
-/

namespace GhNet.Base.File

open GhNet

variable {cwd S D p q : Path} {s s' : Disk} {path dst src : Str} {n : Name} {fuel : Nat}

/-! ## What `MkDir` makes -/

/-- What lies under `S` lies under `D`, too, with the same content. Nothing else has changed, but
directories may have been made above `D`. -/
structure Copied (S D : Path) (t t' : Tree) : Prop where
  copied : ∀ rel, t.get (S ++ rel) ≠ none → t'.get (D ++ rel) = t.get (S ++ rel)
  kept : ∀ p, t'.get p = t.get p ∨ (t.get p = none ∧ t'.get p = some .dir ∧ p <+: D) ∨
    ∃ rel, p = D ++ rel ∧ t.get (S ++ rel) ≠ none

/-- A directory that can be copied: none of its places in the copy is in it again, and what is
there already is of the same kind and can be written over. -/
structure Apart (S D : Path) (t : Tree) : Prop where
  dir : t.get S = some .dir
  outside : ∀ rel, t.get (S ++ rel) ≠ none → ¬S <+: D ++ rel
  agree : ∀ rel e e', t.get (S ++ rel) = some e → t.get (D ++ rel) = some e' →
    (e = .dir ↔ e' = .dir)
  free : ∀ rel, t.get (S ++ rel) ≠ none → (t.get (D ++ rel)).any guarded = false

/-- A file in its place. -/
theorem Copied.file {t t' : Tree} {c : Contents} (hS : t.get S = some (.file c))
    (h : ∀ q, t'.get q = if q = D then some (.file c) else t.get q) : Copied S D t t' := by
  refine ⟨fun rel hne => ?_, fun p => ?_⟩
  · by_cases hrel : rel = []
    · rw [hrel, List.append_nil, List.append_nil, h, if_pos rfl, hS]
    · -- nothing is in a file
      rw [FileTree.get_of_append hne (FileTree.ne_nil (hS ▸ Option.some_ne_none _)) hrel] at hS
      cases hS
  · rw [h p]
    split
    · next hp =>
      refine .inr (.inr ⟨[], by rw [hp, List.append_nil], ?_⟩)
      rw [List.append_nil, hS]
      exact Option.some_ne_none _
    · exact .inl rfl

/-- The entries `done` of `S` have been copied. -/
structure Progress (S D : Path) (done : List Name) (t t' : Tree) : Prop where
  copied : ∀ n ∈ done, ∀ rel, t.get (S ++ n :: rel) ≠ none →
    t'.get (D ++ n :: rel) = t.get (S ++ n :: rel)
  kept : ∀ p, t'.get p = t.get p ∨
    ∃ n ∈ done, ∃ rel, p = D ++ n :: rel ∧ t.get (S ++ n :: rel) ≠ none

section Progress

variable {t t' t'' u : Tree} {done : List Name} {rel : Path}

theorem Progress.refl (S D : Path) (t : Tree) : Progress S D [] t t where
  copied _ h := absurd h List.not_mem_nil
  kept _ := .inl rfl

/-- The source stays as it was. -/
theorem Progress.source (h : Progress S D done t t') (ha : Apart S D t) (rel : Path) :
    t'.get (S ++ rel) = t.get (S ++ rel) := by
  rcases h.kept (S ++ rel) with hk | ⟨n, -, rel', hp, hne⟩
  · exact hk
  · exact absurd (hp ▸ List.prefix_append S rel) (ha.outside _ hne)

/-- The places of the entries that are still to come stay as they were. -/
theorem Progress.target (h : Progress S D done t t') (hn : n ∉ done) (rel : Path) :
    t'.get (D ++ n :: rel) = t.get (D ++ n :: rel) := by
  rcases h.kept (D ++ n :: rel) with hk | ⟨m, hm, rel', hp, -⟩
  · exact hk
  · rw [List.append_cancel_left_eq, List.cons.injEq] at hp
    exact absurd (hp.1 ▸ hm) hn

/-- Directories stay directories. -/
theorem Progress.dir (h : Progress S D done t t') (ha : Apart S D t)
    (hp : t.get p = some .dir) : t'.get p = some .dir := by
  rcases h.kept p with hk | ⟨n, hn, rel, rfl, hne⟩
  · rw [hk, hp]
  · obtain ⟨e, he⟩ := Option.ne_none_iff_exists'.mp hne
    rw [h.copied n hn rel hne, he, (ha.agree _ e .dir he hp).mpr rfl]

theorem Apart.child (ha : Apart S D t) (h : Progress S D done t t') (hn : n ∉ done)
    (hdir : t.get (S ++ [n]) = some .dir) : Apart (S ++ [n]) (D ++ [n]) t' := by
  have hsrc : ∀ rel, t'.get (S ++ [n] ++ rel) = t.get (S ++ n :: rel) := fun rel => by
    rw [List.append_assoc]
    exact h.source ha _
  have hdst : ∀ rel, t'.get (D ++ [n] ++ rel) = t.get (D ++ n :: rel) := fun rel => by
    rw [List.append_assoc]
    exact h.target hn _
  refine ⟨(h.source ha _).trans hdir, fun rel hne hpre => ?_, fun rel e e' he he' => ?_,
    fun rel hne => ?_⟩
  · rw [hsrc] at hne
    refine ha.outside _ hne ((List.prefix_append S [n]).trans ?_)
    rw [List.append_assoc] at hpre
    exact hpre
  · exact ha.agree (n :: rel) e e' (hsrc rel ▸ he) (hdst rel ▸ he')
  · rw [hdst]
    exact ha.free (n :: rel) (hsrc rel ▸ hne)

/-- One more entry. -/
theorem Progress.step (h : Progress S D done t t') (ha : Apart S D t) (hD : t.get D = some .dir)
    (hn : n ∉ done) (hc : Copied (S ++ [n]) (D ++ [n]) t' t'') (hne : t.get (S ++ [n]) ≠ none) :
    Progress S D (n :: done) t t'' := by
  have hsrc : ∀ rel, t'.get (S ++ [n] ++ rel) = t.get (S ++ n :: rel) := fun rel => by
    rw [List.append_assoc]
    exact h.source ha _
  refine ⟨fun m hm rel hmne => ?_, fun p => ?_⟩
  · rcases List.mem_cons.mp hm with rfl | hm
    · have hcop := hc.copied rel ((hsrc rel).symm ▸ hmne)
      rw [List.append_assoc, hsrc] at hcop
      exact hcop
    · have hold := h.copied m hm rel hmne
      rcases hc.kept (D ++ m :: rel) with hk | ⟨hnone, -, -⟩ | ⟨rel', hp, -⟩
      · rw [hk, hold]
      · exact absurd (hold ▸ hnone) hmne
      · rw [List.append_assoc, List.append_cancel_left_eq] at hp
        injection hp with hp _
        exact absurd (hp ▸ hm) hn
  · rcases hc.kept p with hk | ⟨hnone, hdir, hpre⟩ | ⟨rel, rfl, hrel⟩
    · rw [hk]
      exact (h.kept p).imp_right fun ⟨m, hm, hrest⟩ => ⟨m, List.mem_cons_of_mem _ hm, hrest⟩
    · rcases List.prefix_concat_iff.mp hpre with rfl | hpre
      · exact .inr ⟨n, List.mem_cons_self, [], rfl, hne⟩
      · -- `D` is there, and so is all above it
        have hD' : t'.get D = some .dir := h.dir ha hD
        have hpne : p ≠ [] := FileTree.ne_nil (hdir ▸ Option.some_ne_none _)
        by_cases hpD : p = D
        · rw [hpD, hD'] at hnone
          cases hnone
        · rw [FileTree.get_of_prefix (hD' ▸ Option.some_ne_none _) hpne hpre hpD] at hnone
          cases hnone
    · refine .inr ⟨n, List.mem_cons_self, rel, ?_, hsrc rel ▸ hrel⟩
      rw [List.append_assoc]
      rfl

end Progress

/-! ## Path strings of entries -/

/-- The way to an entry goes through its directory. -/
theorem onTheWay_child {pre : Str} (h : pre ++ ['\\'] <+: path ++ '\\' :: n.val) :
    pre ++ ['\\'] <+: path ∨ pre = path := by
  have hpath : path <+: path ++ '\\' :: n.val := List.prefix_append _ _
  have hpre : pre <+: path ++ '\\' :: n.val := (List.prefix_append _ _).trans h
  rcases Nat.lt_trichotomy pre.length path.length with hlt | heq | hgt
  · refine .inl (List.prefix_of_prefix_length_le h hpath ?_)
    rw [List.length_append, List.length_singleton]
    omega
  · exact .inr ((List.prefix_of_prefix_length_le hpre hpath (Nat.le_of_eq heq)).eq_of_length heq)
  · -- the separator would be one of the name
    obtain ⟨r, hr⟩ := List.prefix_of_prefix_length_le hpath hpre (Nat.le_of_lt hgt)
    obtain ⟨r', hr'⟩ := h
    rw [← hr, List.append_assoc, List.append_assoc, List.append_cancel_left_eq] at hr'
    cases r with
    | nil => exact absurd (hr ▸ hgt) (by simp)
    | cons c r =>
      injection hr' with _ hr'
      have hmem : '\\' ∈ n.val := by
        rw [← hr']
        simp
      have hsep := n.property.2.2.2 _ hmem
      rw [isSep_backslash] at hsep
      cases hsep

/-! ## The calls in `CopyDir` -/

/-- The strings name the two directories, and the one for the copy takes no detour through
directories that are not there. -/
structure Spelled (cwd S D : Path) (dst src : Str) (t : Tree) : Prop where
  listed : resolve cwd (srcDirPath dst src ++ ['\\']) = S
  named : resolve cwd dst = D
  named_sep : resolve cwd (dst ++ ['\\']) = D
  way : ∀ pre, pre ++ ['\\'] <+: dst → resolve cwd pre <+: D ∨ t.get (resolve cwd pre) ≠ none

variable {t : Tree} {done : List Name} {rec : Str → Str → FileM Unit}

/-- The strings of an entry, while the tree is being copied. -/
theorem Spelled.child (hs : Spelled cwd S D dst src t)
    (hk : ∀ p, t.get p ≠ none → s.tree.get p ≠ none) (n : Name) :
    Spelled cwd (S ++ [n]) (D ++ [n]) (dst ++ '\\' :: n.val)
      (srcDirPath dst src ++ '\\' :: n.val) s.tree := by
  have hdst : resolve cwd (dst ++ '\\' :: n.val) = D ++ [n] := by
    rw [resolve_child, hs.named_sep]
  refine ⟨?_, hdst, (resolve_child_sep cwd dst n).trans hdst, fun pre hpre => ?_⟩
  · have hcut : srcDirPath (dst ++ '\\' :: n.val) (srcDirPath dst src ++ '\\' :: n.val) =
        srcDirPath dst src ++ '\\' :: n.val := by
      rw [srcDirPath, trailing_child, trailing_child]
      rfl
    rw [hcut, resolve_child_sep, resolve_child, hs.listed]
  · rcases onTheWay_child hpre with hpre | rfl
    · exact (hs.way pre hpre).imp (fun h => h.trans (List.prefix_append _ _)) (hk _)
    · exact .inl (hs.named ▸ List.prefix_append _ _)

theorem Progress.get_ne_none (h : Progress S D done t s.tree) (hp : t.get p ≠ none) :
    s.tree.get p ≠ none := by
  rcases h.kept p with hk | ⟨n, hn, rel, rfl, hne⟩
  · rw [hk]
    exact hp
  · rw [h.copied n hn rel hne]
    exact hne

/-- The condition on the two strings and the tree. -/
structure Safe (cwd : Path) (dst src : Str) (t : Tree) : Prop where
  /-- the source string, as it is cut, still names the source directory -/
  listed : resolve cwd (srcDirPath dst src ++ ['\\']) = resolve cwd src
  /-- a separator behind `dst` does not change what it names -/
  named : resolve cwd (dst ++ ['\\']) = resolve cwd dst
  /-- `dst` takes no detour through directories that are not there -/
  way : ∀ pre, pre ++ ['\\'] <+: dst →
    resolve cwd pre <+: resolve cwd dst ∨ t.get (resolve cwd pre) ≠ none
  /-- nothing of the source is copied into the source -/
  outside : ∀ rel, rel ≠ [] → t.get (resolve cwd src ++ rel) ≠ none →
    ¬resolve cwd src <+: resolve cwd dst ++ rel
  /-- no path is a file on one side and a directory on the other -/
  agree : ∀ rel e e', t.get (resolve cwd src ++ rel) = some e →
    t.get (resolve cwd dst ++ rel) = some e' → (e = .dir ↔ e' = .dir)
  /-- no file that is written over is read-only or hidden -/
  free : ∀ rel, t.get (resolve cwd src ++ rel) ≠ none →
    (t.get (resolve cwd dst ++ rel)).any guarded = false

/-- What is left by a call that returns. -/
def returned (m : FileM Unit) (s : Disk) : Option Tree :=
  match m s with
  | .ok _ s' => some s'.tree
  | .error _ _ => none

end GhNet.Base.File
