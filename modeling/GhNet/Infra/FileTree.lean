import Mathlib.Data.List.AList
import Mathlib.Data.List.Induction

/-!
# File trees

A file tree has its directories and files under their paths, lists of names from the top down. All
that lies in something lies in a directory; what has one name only lies at the top.

The operations are those of a file system: they do nothing but what they say, and where they
cannot do it they fail.
-/

namespace GhNet

/-- A directory, or a file with what is in it. -/
inductive Node (β : Type*)
  | dir
  | file (content : β)
  deriving DecidableEq

/-- What is at each path. What is there is in a directory. -/
structure FileTree (ν β : Type*) [DecidableEq ν] where
  nodes : AList fun _ : List ν => Node β
  top : [] ∉ nodes
  parent : ∀ d n, d ++ [n] ∈ nodes → d ≠ [] → nodes.lookup d = some .dir

namespace FileTree

variable {ν β : Type*} [DecidableEq ν] {t t' : FileTree ν β} {p q d rel : List ν} {n : ν}
  {e : Node β} {c : β}

/-- One empty directory at the top. -/
def ofTop (n : ν) : FileTree ν β where
  nodes := AList.singleton [n] .dir
  top h := by simp [AList.mem_keys] at h
  parent d m h hd := by
    rw [AList.mem_keys, AList.keys_singleton, List.mem_singleton] at h
    have hlen := congrArg List.length h
    rw [List.length_append, List.length_singleton, List.length_singleton] at hlen
    exact absurd (List.length_eq_zero_iff.mp (by omega)) hd

/-- What is there under a path. -/
def get (t : FileTree ν β) (p : List ν) : Option (Node β) := t.nodes.lookup p

theorem get_ne_none : t.get p ≠ none ↔ p ∈ t.nodes := by
  rw [get, Ne, AList.lookup_eq_none, not_not]

theorem ne_nil (h : t.get p ≠ none) : p ≠ [] := by
  rintro rfl
  exact t.top (get_ne_none.mp h)

/-- Above everything there are directories. -/
theorem get_of_append (h : t.get (d ++ rel) ≠ none) (hd : d ≠ []) (hrel : rel ≠ []) :
    t.get d = some .dir := by
  induction rel using List.reverseRecOn with
  | nil => exact absurd rfl hrel
  | append_singleton rel n ih =>
    rw [← List.append_assoc] at h
    have hp : t.get (d ++ rel) = some .dir :=
      t.parent _ n (get_ne_none.mp h) (List.append_ne_nil_of_left_ne_nil hd _)
    by_cases hr : rel = []
    · rw [hr, List.append_nil] at hp
      exact hp
    · exact ih (by rw [hp]; exact Option.some_ne_none _) hr

theorem get_of_prefix (h : t.get p ≠ none) (hd : d ≠ []) (hpre : d <+: p) (hne : d ≠ p) :
    t.get d = some .dir := by
  obtain ⟨rel, rfl⟩ := hpre
  refine get_of_append h hd ?_
  rintro rfl
  exact hne (List.append_nil d).symm

/-- On the way to anything below a directory there is something in it. -/
theorem get_child_ne_none (h : t.get (d ++ n :: rel) ≠ none) : t.get (d ++ [n]) ≠ none := by
  by_cases hrel : rel = []
  · exact hrel ▸ h
  · rw [List.append_cons] at h
    rw [get_of_append h (by simp) hrel]
    exact Option.some_ne_none _

/-! ## Directories -/

/-- What lies in a directory, in the order of the entries. -/
def children (t : FileTree ν β) (d : List ν) : List (ν × Node β) :=
  t.nodes.entries.filterMap fun x =>
    if x.1.dropLast = d then x.1.getLast?.map fun n => (n, x.2) else none

omit [DecidableEq ν] in
theorem eq_concat_iff : p = d ++ [n] ↔ p.dropLast = d ∧ p.getLast? = some n := by
  constructor
  · rintro rfl
    exact ⟨List.dropLast_concat, List.getLast?_concat⟩
  · rintro ⟨rfl, hl⟩
    obtain ⟨ys, hys⟩ := List.getLast?_eq_some_iff.mp hl
    rw [hys, List.dropLast_concat]

theorem mem_childOf {x : Sigma fun _ : List ν => Node β} :
    (n, e) ∈ (if x.1.dropLast = d then x.1.getLast?.map fun n => (n, x.2) else none) ↔
      x = ⟨d ++ [n], e⟩ := by
  obtain ⟨p, e'⟩ := x
  rw [Sigma.mk.injEq, heq_eq_eq, eq_concat_iff]
  split
  · next h => simp [h]
  · next h => simp [h]

theorem mem_children : (n, e) ∈ t.children d ↔ t.get (d ++ [n]) = some e := by
  rw [children, List.mem_filterMap, get, ← Option.mem_def, AList.mem_lookup_iff]
  constructor
  · rintro ⟨x, hx, hm⟩
    exact mem_childOf.mp hm ▸ hx
  · intro h
    exact ⟨_, h, mem_childOf.mpr rfl⟩

/-- No name is there twice. -/
theorem nodup_children (t : FileTree ν β) (d : List ν) : ((t.children d).map Prod.fst).Nodup := by
  have hnd : (t.children d).Nodup := by
    refine List.Nodup.filterMap ?_ (List.NodupKeys.nodup t.nodes.nodupKeys)
    rintro x y ⟨n, e⟩ hx hy
    exact (mem_childOf.mp hx).trans (mem_childOf.mp hy).symm
  refine hnd.map_on ?_
  rintro ⟨n, e⟩ hx ⟨m, e'⟩ hy hnm
  obtain rfl : n = m := hnm
  have he := (mem_children.mp hx).symm.trans (mem_children.mp hy)
  rw [Option.some.inj he]

theorem children_of_file (h : t.get p = some (.file c)) : t.children p = [] := by
  rw [List.eq_nil_iff_forall_not_mem]
  rintro ⟨n, e⟩ hm
  have hdir : t.get p = some .dir := by
    have hchild : t.get (p ++ [n]) ≠ none := by
      rw [mem_children.mp hm]
      exact Option.some_ne_none e
    exact get_of_append hchild (ne_nil (h ▸ Option.some_ne_none _)) (List.cons_ne_nil _ _)
  rw [h] at hdir
  cases hdir

theorem exists_file (h : t.get p ≠ none) (hd : t.get p ≠ some .dir) :
    ∃ c, t.get p = some (.file c) := by
  cases he : t.get p with
  | none => exact absurd he h
  | some e =>
    cases e with
    | dir => exact absurd he hd
    | file c => exact ⟨c, rfl⟩

/-! ## Changes -/

/-- A new entry, or a file with new content. -/
def insert (t : FileTree ν β) (p : List ν) (e : Node β) (hp : t.get p.dropLast = some .dir)
    (hkeep : t.get p = some .dir → e = .dir) : FileTree ν β where
  nodes := t.nodes.insert p e
  top hm := by
    rcases (AList.mem_insert _).mp hm with rfl | hm
    · exact ne_nil (hp ▸ Option.some_ne_none _) rfl
    · exact t.top hm
  parent d n hm hd := by
    have hold : t.get d = some .dir := by
      rcases (AList.mem_insert _).mp hm with rfl | hm
      · rw [List.dropLast_concat] at hp
        exact hp
      · exact t.parent d n hm hd
    by_cases hdp : d = p
    · subst hdp
      rw [AList.lookup_insert, hkeep hold]
    · rw [AList.lookup_insert_ne hdp]
      exact hold

/-- What has nothing in it is gone. -/
def erase (t : FileTree ν β) (p : List ν) (h : t.children p = []) : FileTree ν β where
  nodes := t.nodes.erase p
  top hm := t.top (AList.mem_erase.mp hm).2
  parent d n hm hd := by
    have hold := (AList.mem_erase.mp hm).2
    have hdp : d ≠ p := by
      rintro rfl
      obtain ⟨e, he⟩ := Option.ne_none_iff_exists'.mp (get_ne_none.mpr hold)
      exact List.not_mem_nil (h ▸ mem_children.mpr he)
    rw [AList.lookup_erase_ne hdp]
    exact t.parent d n hold hd

theorem get_erase {h : t.children p = []} (q : List ν) :
    (t.erase p h).get q = if q = p then none else t.get q := by
  unfold erase get
  split
  · next h => rw [h, AList.lookup_erase]
  · next h => rw [AList.lookup_erase_ne h]

/-- There are more directories, at places that `P` tells, and nothing else has changed. -/
def Grown (P : List ν → Prop) (t t' : FileTree ν β) : Prop :=
  ∀ q, t'.get q = t.get q ∨ t.get q = none ∧ t'.get q = some .dir ∧ P q

section Grown

variable {P Q : List ν → Prop} {u : FileTree ν β}

theorem Grown.refl (t : FileTree ν β) : Grown P t t := fun _ => .inl rfl

theorem Grown.trans (h : Grown P t t') (h' : Grown P t' u) : Grown P t u := by
  intro q
  rcases h' q with hq' | ⟨hn', hd', hP'⟩
  · rw [hq']
    exact h q
  · rcases h q with hq | ⟨-, hd, -⟩
    · exact .inr ⟨hq ▸ hn', hd', hP'⟩
    · rw [hd] at hn'
      cases hn'

theorem Grown.get (h : Grown P t t') (hq : t.get q ≠ none) : t'.get q = t.get q :=
  (h q).resolve_right fun hn => hq hn.1

/-- Places that are taken do not count. -/
theorem Grown.mono (h : Grown P t t') (hPQ : ∀ q, P q → t.get q = none → q ≠ [] → Q q) :
    Grown Q t t' := by
  intro q
  rcases h q with hq | ⟨hn, hd, hP⟩
  · exact .inl hq
  · exact .inr ⟨hn, hd, hPQ q hP hn (ne_nil (hd ▸ Option.some_ne_none _))⟩

end Grown

/-! ## The operations -/

variable [DecidableEq β]

/-- A new directory, where its parent is one and nothing is there. -/
def mkdir (t : FileTree ν β) (p : List ν) : Option (FileTree ν β) :=
  if h : t.get p = none ∧ t.get p.dropLast = some .dir then
    some (t.insert p .dir h.2 fun _ => rfl)
  else none

/-- Writes a file, a new one or over an old one. -/
def write (t : FileTree ν β) (p : List ν) (c : β) : Option (FileTree ν β) :=
  if h : t.get p ≠ some .dir ∧ t.get p.dropLast = some .dir then
    some (t.insert p (.file c) h.2 fun hd => absurd hd h.1)
  else none

/-- Removes a file. -/
def remove (t : FileTree ν β) (p : List ν) : Option (FileTree ν β) :=
  if h : t.get p ≠ none ∧ t.get p ≠ some .dir then
    some (t.erase p (by
      obtain ⟨c, hc⟩ := exists_file h.1 h.2
      exact children_of_file hc))
  else none

theorem remove_of_file (h : t.get p = some (.file c)) :
    ∃ t', t.remove p = some t' ∧ ∀ q, t'.get q = if q = p then none else t.get q := by
  have hp : t.get p ≠ none ∧ t.get p ≠ some .dir := by
    rw [h]
    exact ⟨Option.some_ne_none _, by simp⟩
  exact ⟨_, dif_pos hp, get_erase⟩

/-- Removes a directory with nothing in it. -/
def rmdir (t : FileTree ν β) (p : List ν) : Option (FileTree ν β) :=
  if h : t.get p = some .dir ∧ t.children p = [] then some (t.erase p h.2) else none

theorem rmdir_of_child (h : t.get (p ++ [n]) ≠ none) : t.rmdir p = none := by
  obtain ⟨e, he⟩ := Option.ne_none_iff_exists'.mp h
  refine dif_neg fun hp => ?_
  exact absurd (hp.2 ▸ mem_children.mpr he) List.not_mem_nil

end FileTree

end GhNet
