import GhNet.Base.BsTree

/-!
# `CBsTree::remove`

`remove` does what its name says for a key that is not in the tree and for a tree of one node. Of
any other tree it loses all nodes when the root has the key. Under the root it stops at a null
pointer when the node has not two children; when it has them, they are hung under the node's
parent on both sides, although all their keys belong on one.
-/

namespace GhNet.Base.BsTree

open GhNet GhNet.SearchTree

variable {K V : Type} [LinearOrder K] {T T' : CBsTree K V} {c d e p : Cell K V} {k : K}
  {t l r : BinaryTree (Cell K V)}

/-- A removal: nothing changes when no node has the key, and otherwise the node that is found goes
and the others are still a search tree. -/
def RemovesExactly (T : CBsTree K V) (t : BinaryTree (Cell K V)) (k : K) : Prop :=
  ∃ T', T.remove k = .ok T' ∧ (SearchTree.search Cell.key k t = none → T' = T) ∧
    ∀ c, SearchTree.search Cell.key k t = some c →
      ∃ t', Represents T' t' ∧ Ordered Cell.key t' ∧ (c :: elements t').Perm (elements t)

theorem remove_of_search_none (h : Represents T t)
    (hk : SearchTree.search Cell.key k t = none) : T.remove k = .ok T := by
  rw [CBsTree.remove, searchNode_spec h, hk]
  rfl

theorem remove_of_search_some (h : Represents T t)
    (hk : SearchTree.search Cell.key k t = some c) : T.remove k = T.unlink c.addr := by
  rw [CBsTree.remove, searchNode_spec h, hk]
  rfl

/-! ## The root -/

omit [LinearOrder K] in
theorem unlink_root (h : Represents T (.node c l r)) :
    T.unlink c.addr = .ok { T.delete c.addr with m_pRoot := none } := by
  obtain ⟨hc, -, -⟩ := h.linked
  simp [CBsTree.unlink, CBsTree.deref, hc, bind, Except.bind, pure, Except.pure]

omit [LinearOrder K] in
/-- What is left when the root is removed is an empty tree. -/
theorem eq_nil_of_root_none (h : Represents { T.delete c.addr with m_pRoot := none } t) :
    t = .nil :=
  root_eq_none.mp h.root.symm

/-! ## Under the root -/

omit [LinearOrder K] in
/-- Under a parent `unlink` comes back only with two children, and then they are the parent's. -/
theorem unlink_child {pp pl pr : Option Nat}
    (hp : T.nodes p.addr = some ⟨p.key, p.val, pp, pl, pr⟩)
    (hlinked : Linked T.nodes (some p.addr) (.node c l r))
    (hnodup : (addrs (.node c l r)).Nodup) (hpnot : p.addr ∉ addrs (.node c l r))
    (h : T.unlink c.addr = .ok T') :
    ∃ d e l₁ r₁ l₂ r₂, l = .node d l₁ r₁ ∧ r = .node e l₂ r₂ ∧
      T'.nodes p.addr = some ⟨p.key, p.val, pp, some d.addr, some e.addr⟩ ∧
      (T'.nodes d.addr).map CBsTreeNode.key = some d.key ∧
      (T'.nodes e.addr).map CBsTreeNode.key = some e.key := by
  obtain ⟨hc, hl, hr⟩ := hlinked
  obtain ⟨-, -, hcl, hcr, hdisj⟩ := nodup_node hnodup
  rw [addrs_node, List.mem_append, List.mem_cons, not_or, not_or] at hpnot
  obtain ⟨hpl, hpc, hpr⟩ := hpnot
  cases l with
  | nil =>
    simp [CBsTree.unlink, CBsTree.deref, CBsTree.setNode, CBsTree.adopt, hc, hp, root, bind,
      Except.bind, Ne.symm hpc] at h
  | node d l₁ r₁ =>
    have hd := hl.1
    rw [addrs_node] at hcl hpl hdisj
    have hdc : d.addr ≠ c.addr := fun he => hcl (by simp [he])
    have hdp : d.addr ≠ p.addr := fun he => hpl (by simp [he])
    cases r with
    | nil =>
      simp [CBsTree.unlink, CBsTree.deref, CBsTree.setNode, CBsTree.adopt, hc, hp, hd, root, bind,
        Except.bind, Ne.symm hpc, hdp, Ne.symm hdc] at h
    | node e l₂ r₂ =>
      have he := hr.1
      rw [addrs_node] at hcr hpr hdisj
      have hec : e.addr ≠ c.addr := fun h => hcr (by simp [h])
      have hep : e.addr ≠ p.addr := fun h => hpr (by simp [h])
      have hde : d.addr ≠ e.addr := fun h => hdisj (a := d.addr) (by simp) (by simp [h])
      refine ⟨d, e, l₁, r₁, l₂, r₂, rfl, rfl, ?_⟩
      simp [CBsTree.unlink, CBsTree.deref, CBsTree.setNode, CBsTree.adopt, CBsTree.delete, hc, hp,
        hd, he, root, bind, Except.bind, pure, Except.pure, Ne.symm hpc, hdp, hep, Ne.symm hdc,
        Ne.symm hde] at h
      obtain rfl := h
      simp [hdc, hec, hde, Ne.symm hdp, Ne.symm hep, hpc]

/-- The keys of the children of a node in memory are in order around its own. -/
theorem key_order (h : Represents T t) (ho : Ordered Cell.key t) (hmem : p ∈ elements t)
    {pp : Option Nat} {a b : Nat} {x y : K}
    (hp : T.nodes p.addr = some ⟨p.key, p.val, pp, some a, some b⟩)
    (ha : (T.nodes a).map CBsTreeNode.key = some x)
    (hb : (T.nodes b).map CBsTreeNode.key = some y) : p.key < x ∧ y ≤ p.key := by
  obtain ⟨l, r, hs⟩ := exists_subtree hmem
  obtain ⟨parent, hlinked⟩ := h.linked.subtree hs
  obtain ⟨hnode, hl, hr⟩ := hlinked
  obtain ⟨hol, hor, -, -⟩ := hs.ordered ho
  rw [hp] at hnode
  injection hnode with hnode
  injection hnode with _ _ _ hla hrb
  cases l with
  | nil => cases hla
  | node d l₁ r₁ =>
    cases r with
    | nil => cases hrb
    | node e l₂ r₂ =>
      obtain rfl : a = d.addr := Option.some.inj hla
      obtain rfl : b = e.addr := Option.some.inj hrb
      rw [hl.1] at ha
      rw [hr.1] at hb
      obtain rfl : d.key = x := Option.some.inj ha
      obtain rfl : e.key = y := Option.some.inj hb
      exact ⟨hol d (by simp [elements]), hor e (by simp [elements])⟩

/-- **A node under the root is never removed exactly.** -/
theorem not_removes_child (h : Represents T t) (ho : Ordered Cell.key t)
    (hk : SearchTree.search Cell.key k t = some c) {l' r' : BinaryTree (Cell K V)}
    (hparent : Subtree (.node p l' r') t) (hside : .node c l r = l' ∨ .node c l r = r') :
    ¬RemovesExactly T t k := by
  rintro ⟨T', hT, -, hsome⟩
  obtain ⟨t', hrep', ho', hperm⟩ := hsome c hk
  rw [remove_of_search_some h hk] at hT
  obtain ⟨parent, hp, hl', hr'⟩ := h.linked.subtree hparent
  obtain ⟨hol, hor, -, -⟩ := hparent.ordered ho
  have hnodup := nodup_subtree hparent h.nodup
  obtain ⟨hndl, hndr, hpl, hpr, -⟩ := nodup_node hnodup
  have hlinked : Linked T.nodes (some p.addr) (.node c l r) := by
    rcases hside with rfl | rfl
    · exact hl'
    · exact hr'
  have hnd : (addrs (.node c l r)).Nodup := by
    rcases hside with rfl | rfl
    · exact hndl
    · exact hndr
  have hpnot : p.addr ∉ addrs (.node c l r) := by
    rcases hside with rfl | rfl
    · exact hpl
    · exact hpr
  obtain ⟨d, e, l₁, r₁, l₂, r₂, rfl, rfl, hp', hd', he'⟩ := unlink_child hp hlinked hnd hpnot hT
  -- the parent is still there, now with both children of the node
  have hpc : p ≠ c := by
    rintro rfl
    exact hpnot (by simp [addrs_node])
  have hpt : p ∈ elements t := hparent.mem
  have hpt' : p ∈ elements t' := by
    rcases List.mem_cons.mp (hperm.mem_iff.mpr hpt) with heq | hmem
    · exact absurd heq hpc
    · exact hmem
  obtain ⟨hdkey, hekey⟩ := key_order hrep' ho' hpt' hp' hd' he'
  -- but before they were both on one side of it
  rcases hside with rfl | rfl
  · exact absurd (hol e (by simp [elements])) (not_lt_of_ge hekey)
  · exact absurd hdkey (not_lt_of_ge (hor d (by simp [elements])))

/-- **The root is removed exactly only when it is alone.** -/
theorem removes_root_iff (h : Represents T (.node c l r))
    (hk : SearchTree.search Cell.key k (.node c l r) = some c) :
    RemovesExactly T (.node c l r) k ↔ l = .nil ∧ r = .nil := by
  have hremove := (remove_of_search_some h hk).trans (unlink_root h)
  constructor
  · rintro ⟨T', hT, -, hsome⟩
    obtain ⟨t', hrep', -, hperm⟩ := hsome c hk
    obtain rfl := Except.ok.inj (hremove.symm.trans hT)
    obtain rfl := eq_nil_of_root_none hrep'
    have hlen := hperm.length_eq
    simp only [elements, List.length_append, List.length_cons, List.length_nil] at hlen
    constructor
    · exact eq_nil_of_length (by omega)
    · exact eq_nil_of_length (by omega)
  · rintro ⟨rfl, rfl⟩
    refine ⟨_, hremove, fun hnone => ?_, fun d hd => ?_⟩
    · rw [hk] at hnone
      cases hnone
    · obtain rfl := Option.some.inj (hk.symm.trans hd)
      exact ⟨.nil, ⟨rfl, trivial, List.nodup_nil, fun a ha => (List.not_mem_nil ha).elim⟩, trivial,
        List.Perm.refl _⟩

/-! ## Every tree that is built by insertions -/

/-- In a search tree, a removal is exact when the key is absent or the tree is a single node. -/
theorem removesExactly_iff (h : Represents T t) (ho : Ordered Cell.key t) :
    RemovesExactly T t k ↔ SearchTree.search Cell.key k t = none ∨ (elements t).length = 1 := by
  cases hk : SearchTree.search Cell.key k t with
  | none =>
    refine iff_of_true ⟨T, remove_of_search_none h hk, fun _ => rfl, fun c hc => ?_⟩ (.inl rfl)
    rw [hk] at hc
    cases hc
  | some c =>
    obtain ⟨l, r, hs⟩ := exists_subtree (mem_of_search hk).1
    rcases hs.cases_parent with rfl | ⟨p, l', r', hparent, hside⟩
    · rw [removes_root_iff h hk]
      constructor
      · rintro ⟨rfl, rfl⟩
        exact .inr rfl
      · rintro (hnone | hlen)
        · cases hnone
        · simp only [elements, List.length_append, List.length_cons] at hlen
          exact ⟨eq_nil_of_length (by omega), eq_nil_of_length (by omega)⟩
    · refine iff_of_false (not_removes_child h ho hk hparent hside) ?_
      rintro (hnone | hlen)
      · cases hnone
      · -- the parent and the node are two
        have hle := hparent.sublist.length_le
        rcases hside with rfl | rfl
        · simp only [elements, List.length_append, List.length_cons] at hle
          omega
        · simp only [elements, List.length_append, List.length_cons] at hle
          omega

/-- **In the tree of a list of insertions, `remove` removes exactly the node that is found if and
only if the key was never inserted or there was only one insertion.** -/
theorem remove_insertAll_iff (ops : List (K × V)) (k : K) :
    ∃ T t, CBsTree.insertAll ops = .ok T ∧ IsTreeOf T t ops ∧
      (RemovesExactly T t k ↔ k ∉ ops.map Prod.fst ∨ ops.length = 1) := by
  obtain ⟨T, hT, hrep, -⟩ := insertAll_spec ops
  have htree := hrep.isTreeOf
  refine ⟨T, treeOf ops, hT, htree, ?_⟩
  obtain ⟨p, hp, hnone, -⟩ := htree.search k
  rw [searchNode_spec htree.represents, Except.ok.injEq] at hp
  have hlen := htree.pairs.length_eq
  rw [List.length_map] at hlen
  rw [removesExactly_iff htree.represents htree.ordered, hlen, ← hnone, ← hp,
    Option.map_eq_none_iff]

/-- The tree of the keys 2, 1 and 3. -/
def threeKeys : List (Nat × Nat) := [(2, 20), (1, 10), (3, 30)]

/-- **Removing the leaf 1 follows a null child.** -/
theorem not_removes_leaf :
    ∃ T t, CBsTree.insertAll threeKeys = .ok T ∧ IsTreeOf T t threeKeys ∧
      T.remove 1 = .error .nullPointer ∧ ¬RemovesExactly T t 1 := by
  obtain ⟨T, hT, hrep, -⟩ := insertAll_spec threeKeys
  have hremove : T.remove 1 = .error .nullPointer := by
    have h : (CBsTree.insertAll threeKeys).bind (fun T => T.remove 1) = .error .nullPointer := rfl
    rw [hT] at h
    exact h
  refine ⟨T, treeOf threeKeys, hT, hrep.isTreeOf, hremove, ?_⟩
  rintro ⟨T', hT', -⟩
  rw [hremove] at hT'
  cases hT'

end GhNet.Base.BsTree
