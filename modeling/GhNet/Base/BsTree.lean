import Mathlib.Data.List.Perm.Subperm
import Mathlib.Logic.Function.Basic
import GhNet.Infra.SearchTree

/-!
# `CBsTree`

The binary search tree of `libbase`: nodes in memory that point to their parents and children. The
larger keys are on the left. A tree in memory is related to the search tree whose elements are its
nodes; insertion and search do on the one what they do on the other.

`remove` takes the place of the node to be its parent's: it hangs both children of the node under
the parent, in the place of the parent's own two, and of the root it leaves nothing.
-/

namespace GhNet.Base.BsTree

open GhNet GhNet.SearchTree

/-! ## The nodes -/

/-- A node, with the addresses of its neighbours. -/
structure CBsTreeNode (K V : Type) where
  key : K
  val : V
  parent : Option Nat
  left : Option Nat
  right : Option Nat

/-- The nodes by address. `new` gives the address `next`. -/
structure CBsTree (K V : Type) where
  nodes : Nat → Option (CBsTreeNode K V)
  next : Nat
  m_pRoot : Option Nat

/-- Why a call does not come back. -/
inductive Fault
  | nullPointer
  /-- A node that has been deleted is used. -/
  | dangling
  /-- The rounds of a loop run out. -/
  | rounds
  deriving DecidableEq, Repr

namespace CBsTree

variable {K V : Type}

/-- A tree without nodes. -/
def empty : CBsTree K V := ⟨fun _ => none, 0, none⟩

/-- A node is written. -/
def setNode (T : CBsTree K V) (a : Nat) (n : CBsTreeNode K V) : CBsTree K V :=
  { T with nodes := Function.update T.nodes a (some n) }

/-- `new CBsTreeNode`, at the next address. -/
def new (T : CBsTree K V) (n : CBsTreeNode K V) : CBsTree K V :=
  { T.setNode T.next n with next := T.next + 1 }

/-- `delete`, behind which the address is not valid any more. -/
def delete (T : CBsTree K V) (a : Nat) : CBsTree K V :=
  { T with nodes := Function.update T.nodes a none }

/-- `*p` -/
def deref (T : CBsTree K V) : Option Nat → Except Fault (CBsTreeNode K V)
  | none => .error .nullPointer
  | some a =>
    match T.nodes a with
    | none => .error .dangling
    | some n => .ok n

variable [LinearOrder K]

/-- The loop of `insert` -/
def insertLoop (T : CBsTree K V) (pKey : K) (pVal : V) :
    Nat → Option Nat → Except Fault (CBsTree K V)
  | 0, _ => .error .rounds
  | _ + 1, none => .ok T
  | fuel + 1, some tmp =>
    match T.nodes tmp with
    | none => .error .dangling
    | some node =>
      if node.key < pKey then
        match node.left with
        | none =>
          .ok ((T.setNode tmp { node with left := some T.next }).new
            ⟨pKey, pVal, some tmp, none, none⟩)
        | some left => insertLoop T pKey pVal fuel (some left)
      else
        match node.right with
        | none =>
          .ok ((T.setNode tmp { node with right := some T.next }).new
            ⟨pKey, pVal, some tmp, none, none⟩)
        | some right => insertLoop T pKey pVal fuel (some right)

/-- `insert`: a new leaf, whether the key is there or not. -/
def insert (T : CBsTree K V) (pKey : K) (pVal : V) : Except Fault (CBsTree K V) :=
  match T.m_pRoot with
  | none => .ok { T.new ⟨pKey, pVal, none, none, none⟩ with m_pRoot := some T.next }
  | some root => T.insertLoop pKey pVal (T.next + 1) (some root)

/-- The loop of `searchNode` -/
def searchLoop (T : CBsTree K V) (pKey : K) : Nat → Option Nat → Except Fault (Option Nat)
  | 0, _ => .error .rounds
  | _ + 1, none => .ok none
  | fuel + 1, some tmp =>
    match T.nodes tmp with
    | none => .error .dangling
    | some node =>
      if node.key = pKey then .ok (some tmp)
      else if node.key < pKey then searchLoop T pKey fuel node.left
      else searchLoop T pKey fuel node.right

/-- `searchNode`: the first node with the key on the way down. -/
def searchNode (T : CBsTree K V) (pKey : K) : Except Fault (Option Nat) :=
  T.searchLoop pKey (T.next + 1) T.m_pRoot

omit [LinearOrder K] in
/-- `if(child->parent) child->parent=parent;` -/
def adopt (T : CBsTree K V) (child : Option Nat) (parent : Nat) : Except Fault (CBsTree K V) :=
  match child with
  | none => .error .nullPointer
  | some c =>
    match T.nodes c with
    | none => .error .dangling
    | some n =>
      if n.parent.isSome then .ok (T.setNode c { n with parent := some parent }) else .ok T

omit [LinearOrder K] in
/-- `remove` for a node that has been found -/
def unlink (T : CBsTree K V) (tmp : Nat) : Except Fault (CBsTree K V) := do
  let node ← T.deref (some tmp)
  match node.parent with
  | none => return { T.delete tmp with m_pRoot := none }
  | some parent =>
    let p ← T.deref (some parent)
    let T := T.setNode parent { p with left := node.left, right := node.right }
    let node ← T.deref (some tmp)
    let T ← T.adopt node.left parent
    let node ← T.deref (some tmp)
    let T ← T.adopt node.right parent
    return T.delete tmp

/-- `remove`, which does nothing if the key is not found. -/
def remove (T : CBsTree K V) (pKey : K) : Except Fault (CBsTree K V) := do
  match ← T.searchNode pKey with
  | none => return T
  | some tmp => T.unlink tmp

/-- A list of insertions into an empty tree. -/
def insertAll (ops : List (K × V)) : Except Fault (CBsTree K V) :=
  ops.foldlM (fun T e => T.insert e.1 e.2) empty

end CBsTree

/-! ## The search tree in memory -/

/-- A node as an element of the search tree. -/
structure Cell (K V : Type) where
  addr : Nat
  key : K
  val : V
  deriving DecidableEq

variable {K V : Type}

/-- The pointer to a tree. -/
def root : BinaryTree (Cell K V) → Option Nat
  | .nil => none
  | .node c _ _ => some c.addr

/-- The addresses of the nodes. -/
def addrs (t : BinaryTree (Cell K V)) : List Nat := (elements t).map Cell.addr

/-- The nodes of the tree are in memory, linked to their children and to their parents. -/
def Linked (nodes : Nat → Option (CBsTreeNode K V)) : Option Nat → BinaryTree (Cell K V) → Prop
  | _, .nil => True
  | parent, .node c l r =>
    nodes c.addr = some ⟨c.key, c.val, parent, root l, root r⟩ ∧
      Linked nodes (some c.addr) l ∧ Linked nodes (some c.addr) r

/-- The tree in memory is the search tree. -/
structure Represents (T : CBsTree K V) (t : BinaryTree (Cell K V)) : Prop where
  root : T.m_pRoot = BsTree.root t
  linked : Linked T.nodes none t
  nodup : (addrs t).Nodup
  below : ∀ a ∈ addrs t, a < T.next

/-! ## Trees in memory -/

variable {T T' : CBsTree K V} {nodes nodes' : Nat → Option (CBsTreeNode K V)}
  {parent : Option Nat} {c : Cell K V} {t l r s : BinaryTree (Cell K V)}

theorem addrs_node : addrs (.node c l r) = addrs l ++ c.addr :: addrs r := by
  rw [addrs, elements, List.map_append, List.map_cons]
  rfl

/-- What a tree is in memory depends on its own nodes only. -/
theorem Linked.congr (h : Linked nodes parent t) (heq : ∀ a ∈ addrs t, nodes' a = nodes a) :
    Linked nodes' parent t := by
  induction t generalizing parent with
  | nil => trivial
  | node c l r ihl ihr =>
    obtain ⟨hc, hl, hr⟩ := h
    rw [addrs_node] at heq
    refine ⟨(heq _ (by simp)).trans hc, ihl hl fun a ha => ?_, ihr hr fun a ha => ?_⟩
    · exact heq a (List.mem_append_left _ ha)
    · exact heq a (List.mem_append_right _ (List.mem_cons_of_mem _ ha))

/-- The addresses of the node and of its two subtrees are apart. -/
theorem nodup_node (h : (addrs (.node c l r)).Nodup) :
    (addrs l).Nodup ∧ (addrs r).Nodup ∧ c.addr ∉ addrs l ∧ c.addr ∉ addrs r ∧
      (addrs l).Disjoint (addrs r) := by
  rw [addrs_node, List.nodup_append] at h
  obtain ⟨hl, hcr, hdisj⟩ := h
  obtain ⟨hc, hr⟩ := List.nodup_cons.mp hcr
  refine ⟨hl, hr, fun hmem => ?_, hc, fun a hal har => ?_⟩
  · exact hdisj _ hmem _ (List.mem_cons_self ..) rfl
  · exact hdisj _ hal _ (List.mem_cons_of_mem _ har) rfl

theorem root_eq_none : root t = none ↔ t = .nil := by
  cases t <;> simp [root]

/-- A subtree is linked, to the parent of the whole tree or to the element that it hangs under. -/
theorem Linked.subtree (h : Linked nodes parent t) (hs : Subtree s t) :
    ∃ parent', Linked nodes parent' s := by
  induction hs generalizing parent with
  | refl => exact ⟨parent, h⟩
  | left _ ih => exact ih h.2.1
  | right _ ih => exact ih h.2.2

theorem Linked.node_eq (h : Linked nodes parent t) (hs : Subtree (.node c l r) t) :
    ∃ parent', nodes c.addr = some ⟨c.key, c.val, parent', root l, root r⟩ := by
  obtain ⟨parent', hc, -⟩ := h.subtree hs
  exact ⟨parent', hc⟩

theorem nodup_subtree (hs : Subtree s t) (h : (addrs t).Nodup) : (addrs s).Nodup :=
  List.Nodup.sublist (hs.sublist.map Cell.addr) h

/-- There are no more nodes than addresses have been given out. -/
theorem Represents.length_le (h : Represents T t) : (elements t).length ≤ T.next := by
  have hsub : addrs t ⊆ List.range T.next := fun a ha => List.mem_range.mpr (h.below a ha)
  have hle := (List.Nodup.subperm h.nodup hsub).length_le
  rw [List.length_range, addrs, List.length_map] at hle
  exact hle

/-! ## Insertion -/

/-- Where a node gets a new child, only these two addresses change. -/
theorem nodes_hang {a b : Nat} {n m : CBsTreeNode K V} (hnext : b ≠ T.next) (ha : b ≠ a) :
    ((T.setNode a n).new m).nodes b = T.nodes b := by
  simp [CBsTree.new, CBsTree.setNode, hnext, ha]

theorem Linked.hang {a : Nat} {n m : CBsTreeNode K V} (h : Linked T.nodes parent t)
    (hnext : T.next ∉ addrs t) (ha : a ∉ addrs t) :
    Linked ((T.setNode a n).new m).nodes parent t :=
  h.congr fun _ hb => nodes_hang (fun he => hnext (he ▸ hb)) fun he => ha (he ▸ hb)

section Insertion

variable [LinearOrder K]

/-- What a round does that comes to a node on whose side there is no child. -/
theorem insertLoop_nil {k : K} {v : V} {fuel : Nat}
    (hc : T.nodes c.addr = some ⟨c.key, c.val, parent, root l, root r⟩) :
    (c.key < k → root l = none → T.insertLoop k v (fuel + 1) (some c.addr) =
      .ok ((T.setNode c.addr ⟨c.key, c.val, parent, some T.next, root r⟩).new
        ⟨k, v, some c.addr, none, none⟩)) ∧
    (¬c.key < k → root r = none → T.insertLoop k v (fuel + 1) (some c.addr) =
      .ok ((T.setNode c.addr ⟨c.key, c.val, parent, root l, some T.next⟩).new
        ⟨k, v, some c.addr, none, none⟩)) := by
  constructor <;> intro hside hroot <;> simp [CBsTree.insertLoop, hc, hside, hroot]

/-- A round that comes to a node goes on with the child on the key's side. -/
theorem insertLoop_node {k : K} {v : V} {fuel : Nat}
    (hc : T.nodes c.addr = some ⟨c.key, c.val, parent, root l, root r⟩) :
    (c.key < k → l ≠ .nil →
      T.insertLoop k v (fuel + 1) (some c.addr) = T.insertLoop k v fuel (root l)) ∧
    (¬c.key < k → r ≠ .nil →
      T.insertLoop k v (fuel + 1) (some c.addr) = T.insertLoop k v fuel (root r)) := by
  constructor <;> intro hside hne
  · cases l with
    | nil => exact absurd rfl hne
    | node d l' r' => simp [CBsTree.insertLoop, hc, hside, root]
  · cases r with
    | nil => exact absurd rfl hne
    | node d l' r' => simp [CBsTree.insertLoop, hc, hside, root]

theorem root_insert {a : Cell K V} (hne : t ≠ .nil) :
    root (SearchTree.insert Cell.key a t) = root t := by
  cases t with
  | nil => exact absurd rfl hne
  | node c l r =>
    rw [SearchTree.insert]
    split <;> rfl

/-- The loop hangs a new node into the subtree that it stands at and changes no other subtree. -/
theorem insertLoop_spec (k : K) (v : V) {fuel : Nat} (hne : t ≠ .nil)
    (hlinked : Linked T.nodes parent t) (hnodup : (addrs t).Nodup)
    (hbelow : ∀ a ∈ addrs t, a < T.next) (hfuel : (elements t).length ≤ fuel) :
    ∃ T', T.insertLoop k v fuel (root t) = .ok T' ∧ T'.next = T.next + 1 ∧
      T'.m_pRoot = T.m_pRoot ∧
      Linked T'.nodes parent (SearchTree.insert Cell.key ⟨T.next, k, v⟩ t) ∧
      ∀ a, a ≠ T.next → a ∉ addrs t → T'.nodes a = T.nodes a := by
  induction t generalizing parent fuel with
  | nil => exact absurd rfl hne
  | node c l r ihl ihr =>
    obtain ⟨hc, hl, hr⟩ := hlinked
    obtain ⟨hndl, hndr, hcl, hcr, hdisj⟩ := nodup_node hnodup
    rw [addrs_node] at hbelow
    rw [elements, List.length_append, List.length_cons] at hfuel
    obtain ⟨fuel, rfl⟩ : ∃ n, fuel = n + 1 := ⟨fuel - 1, by omega⟩
    have hfl : (elements l).length ≤ fuel := by omega
    have hfr : (elements r).length ≤ fuel := by omega
    have hcnext : c.addr ≠ T.next := Nat.ne_of_lt (hbelow _ (by simp))
    have hbl : ∀ a ∈ addrs l, a < T.next := fun a ha => hbelow a (List.mem_append_left _ ha)
    have hbr : ∀ a ∈ addrs r, a < T.next := fun a ha =>
      hbelow a (List.mem_append_right _ (List.mem_cons_of_mem _ ha))
    have hlnext : T.next ∉ addrs l := fun h => absurd (hbl _ h) (Nat.lt_irrefl _)
    have hrnext : T.next ∉ addrs r := fun h => absurd (hbr _ h) (Nat.lt_irrefl _)
    rw [SearchTree.insert]
    by_cases hside : c.key < k
    · rw [if_pos hside]
      by_cases hnil : l = .nil
      · -- the new node is the left child
        subst hnil
        refine ⟨_, (insertLoop_nil hc).1 hside rfl, rfl, rfl,
          ⟨?_, ⟨?_, trivial, trivial⟩, hr.hang hrnext hcr⟩, fun a hnext ha => ?_⟩
        · simp [CBsTree.new, CBsTree.setNode, hcnext, root, SearchTree.insert]
        · simp [CBsTree.new, CBsTree.setNode, root]
        · rw [addrs_node] at ha
          exact nodes_hang hnext fun h => ha (by simp [h])
      · obtain ⟨T', hT, hn, hroot, hlink, hframe⟩ := ihl hnil hl hndl hbl hfl
        refine ⟨T', ((insertLoop_node hc).1 hside hnil).trans hT, hn, hroot, ⟨?_, hlink, ?_⟩, ?_⟩
        · rw [hframe _ hcnext hcl, hc, root_insert hnil]
        · refine hr.congr fun a ha => hframe a (fun h => hrnext (h ▸ ha)) ?_
          exact fun h => hdisj h ha
        · intro a hnext ha
          rw [addrs_node] at ha
          exact hframe a hnext fun h => ha (List.mem_append_left _ h)
    · rw [if_neg hside]
      by_cases hnil : r = .nil
      · -- the new node is the right child
        subst hnil
        refine ⟨_, (insertLoop_nil hc).2 hside rfl, rfl, rfl,
          ⟨?_, hl.hang hlnext hcl, ⟨?_, trivial, trivial⟩⟩, fun a hnext ha => ?_⟩
        · simp [CBsTree.new, CBsTree.setNode, hcnext, root, SearchTree.insert]
        · simp [CBsTree.new, CBsTree.setNode, root]
        · rw [addrs_node] at ha
          exact nodes_hang hnext fun h => ha (by simp [h])
      · obtain ⟨T', hT, hn, hroot, hlink, hframe⟩ := ihr hnil hr hndr hbr hfr
        refine ⟨T', ((insertLoop_node hc).2 hside hnil).trans hT, hn, hroot, ⟨?_, ?_, hlink⟩, ?_⟩
        · rw [hframe _ hcnext hcr, hc, root_insert hnil]
        · refine hl.congr fun a ha => hframe a (fun h => hlnext (h ▸ ha)) ?_
          exact fun h => hdisj ha h
        · intro a hnext ha
          rw [addrs_node] at ha
          exact hframe a hnext fun h => ha
            (List.mem_append_right _ (List.mem_cons_of_mem _ h))

theorem addrs_insert {a : Cell K V} :
    (addrs (SearchTree.insert Cell.key a t)).Perm (a.addr :: addrs t) :=
  (perm_insert a t).map Cell.addr

/-- **`insert` puts the pair into the search tree**, as a node with a new address. -/
theorem insert_spec (h : Represents T t) (k : K) (v : V) :
    ∃ T', T.insert k v = .ok T' ∧
      Represents T' (SearchTree.insert Cell.key ⟨T.next, k, v⟩ t) ∧ T'.next = T.next + 1 := by
  have hnew : T.next ∉ addrs t := fun hmem => absurd (h.below _ hmem) (Nat.lt_irrefl _)
  have hshape : ∀ T' : CBsTree K V, T'.next = T.next + 1 →
      T'.m_pRoot = root (SearchTree.insert Cell.key ⟨T.next, k, v⟩ t) →
      Linked T'.nodes none (SearchTree.insert Cell.key ⟨T.next, k, v⟩ t) →
      Represents T' (SearchTree.insert Cell.key ⟨T.next, k, v⟩ t) := by
    intro T' hn hroot hlink
    refine ⟨hroot, hlink, ?_, fun a ha => ?_⟩
    · rw [addrs_insert.nodup_iff, List.nodup_cons]
      exact ⟨hnew, h.nodup⟩
    · rw [hn]
      rcases List.mem_cons.mp (addrs_insert.mem_iff.mp ha) with rfl | ha
      · exact Nat.lt_succ_self _
      · exact Nat.lt_succ_of_lt (h.below a ha)
  rw [CBsTree.insert, h.root]
  by_cases hnil : t = .nil
  · subst hnil
    refine ⟨_, rfl, hshape _ rfl rfl ⟨?_, trivial, trivial⟩, rfl⟩
    simp [CBsTree.new, CBsTree.setNode, root]
  · obtain ⟨T', hT, hn, hroot, hlink, -⟩ := insertLoop_spec k v hnil h.linked h.nodup h.below
      (Nat.le_succ_of_le h.length_le)
    obtain ⟨c, hc⟩ : ∃ a, root t = some a := by
      cases t with
      | nil => exact absurd rfl hnil
      | node c l r => exact ⟨c.addr, rfl⟩
    rw [hc] at hT ⊢
    refine ⟨T', hT, hshape T' hn ?_ hlink, hn⟩
    rw [hroot, h.root, root_insert hnil]

/-! ## Search -/

/-- The loop finds the node that the search tree finds. -/
theorem searchLoop_spec (k : K) {fuel : Nat} (hlinked : Linked T.nodes parent t)
    (hfuel : (elements t).length < fuel) :
    T.searchLoop k fuel (root t) = .ok ((SearchTree.search Cell.key k t).map Cell.addr) := by
  induction t generalizing parent fuel with
  | nil =>
    obtain ⟨fuel, rfl⟩ : ∃ n, fuel = n + 1 := ⟨fuel - 1, by omega⟩
    rfl
  | node c l r ihl ihr =>
    obtain ⟨hc, hl, hr⟩ := hlinked
    rw [elements, List.length_append, List.length_cons] at hfuel
    obtain ⟨fuel, rfl⟩ : ∃ n, fuel = n + 1 := ⟨fuel - 1, by omega⟩
    rw [root, CBsTree.searchLoop, hc, SearchTree.search]
    dsimp only
    split
    · rfl
    · split
      · exact ihl hl (by omega)
      · exact ihr hr (by omega)

theorem searchNode_spec (h : Represents T t) (k : K) :
    T.searchNode k = .ok ((SearchTree.search Cell.key k t).map Cell.addr) := by
  rw [CBsTree.searchNode, h.root]
  exact searchLoop_spec k h.linked (Nat.lt_succ_of_le h.length_le)

/-! ## A list of insertions -/

omit [LinearOrder K] in
/-- The nodes that a list of insertions makes. -/
def cells (ops : List (K × V)) : List (Cell K V) :=
  ops.mapIdx fun i e => ⟨i, e.1, e.2⟩

omit [LinearOrder K] in
theorem map_cells (ops : List (K × V)) : (cells ops).map (fun c => (c.key, c.val)) = ops := by
  refine List.ext_getElem ?_ fun i hi hi' => ?_
  · simp [cells]
  · simp [cells]

/-- The search tree that a list of insertions builds. -/
def treeOf (ops : List (K × V)) : BinaryTree (Cell K V) := SearchTree.ofList Cell.key (cells ops)

theorem insertAll_spec (ops : List (K × V)) :
    ∃ T, CBsTree.insertAll ops = .ok T ∧ Represents T (treeOf ops) ∧ T.next = ops.length := by
  induction ops using List.reverseRecOn with
  | nil =>
    exact ⟨_, rfl, ⟨rfl, trivial, List.nodup_nil, fun a ha => (List.not_mem_nil ha).elim⟩, rfl⟩
  | append_singleton ops e ih =>
    obtain ⟨T, hT, hrep, hnext⟩ := ih
    obtain ⟨T', hT', hrep', hnext'⟩ := insert_spec hrep e.1 e.2
    refine ⟨T', ?_, ?_, ?_⟩
    · rw [CBsTree.insertAll] at hT ⊢
      rw [List.foldlM_append, hT]
      simp [hT', bind, Except.bind, pure, Except.pure]
    · rw [hnext] at hrep'
      rw [treeOf, cells, List.mapIdx_append, List.mapIdx_cons, List.mapIdx_nil,
        SearchTree.ofList_concat, Nat.zero_add]
      exact hrep'
    · rw [hnext', hnext, List.length_append]
      rfl

/-- The search finds the first pair with the key. -/
theorem search_treeOf (k : K) (ops : List (K × V)) :
    (SearchTree.search Cell.key k (treeOf ops)).map (fun c => (c.key, c.val)) =
      ops.find? fun e => e.1 = k := by
  rw [treeOf, SearchTree.search_ofList]
  conv_rhs => rw [← map_cells ops, List.find?_map]
  rfl

/-- **The tree of a list of insertions**: it keeps the order and the links, it has the pairs, and it
finds the first one with a key. -/
structure IsTreeOf (T : CBsTree K V) (t : BinaryTree (Cell K V)) (ops : List (K × V)) : Prop where
  represents : Represents T t
  ordered : Ordered Cell.key t
  pairs : ((elements t).map fun c => (c.key, c.val)).Perm ops
  search : ∀ k, ∃ p, T.searchNode k = .ok p ∧ (p = none ↔ k ∉ ops.map Prod.fst) ∧
    ∀ a, p = some a → ∃ n, T.nodes a = some n ∧ n.key = k ∧
      (ops.find? fun e => e.1 = k).map Prod.snd = some n.val

theorem Represents.isTreeOf {ops : List (K × V)} (h : Represents T (treeOf ops)) :
    IsTreeOf T (treeOf ops) ops := by
  refine ⟨h, ordered_ofList _, ?_, fun k => ?_⟩
  · have hperm := (perm_ofList Cell.key (cells ops)).map fun c => (c.key, c.val)
    rw [map_cells] at hperm
    exact hperm
  · refine ⟨_, searchNode_spec h k, ?_, fun a ha => ?_⟩
    · rw [Option.map_eq_none_iff, ← Option.map_eq_none_iff, search_treeOf, List.find?_eq_none]
      constructor
      · intro hall hmem
        obtain ⟨e, he, hk⟩ := List.mem_map.mp hmem
        exact hall e he (decide_eq_true hk)
      · intro hnot e he hk
        exact hnot (List.mem_map.mpr ⟨e, he, of_decide_eq_true hk⟩)
    · obtain ⟨c, hc, rfl⟩ := Option.map_eq_some_iff.mp ha
      obtain ⟨hmem, hkey⟩ := mem_of_search hc
      obtain ⟨l, r, hs⟩ := exists_subtree hmem
      obtain ⟨parent', hnode⟩ := h.linked.node_eq hs
      refine ⟨_, hnode, hkey, ?_⟩
      rw [← search_treeOf, hc]
      rfl

/-- **`insert` and `searchNode` are a search tree, for every list of insertions.** -/
theorem isTreeOf_insertAll (ops : List (K × V)) :
    ∃ T t, CBsTree.insertAll ops = .ok T ∧ IsTreeOf T t ops := by
  obtain ⟨T, hT, hrep, -⟩ := insertAll_spec ops
  exact ⟨T, treeOf ops, hT, hrep.isTreeOf⟩

end Insertion

end GhNet.Base.BsTree
