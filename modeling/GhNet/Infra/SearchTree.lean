import Mathlib.Data.List.Induction
import Mathlib.Data.List.Perm.Basic
import Mathlib.Data.Tree.Basic
import Mathlib.Order.Lattice

/-!
# Search trees with the larger keys on the left

A new element goes to the left of an element with a smaller key and to the right of any other, so
elements with one key lie along one path. `search` follows that path and stops at the first of
them, which is the one that was inserted first.
-/

namespace GhNet.SearchTree

open BinaryTree

variable {α K : Type*} [LinearOrder K] (key : α → K)

/-! ## The operations -/

/-- The elements, the largest keys in front. -/
def elements : BinaryTree α → List α
  | nil => []
  | node a l r => elements l ++ a :: elements r

/-- A new leaf. Larger keys go to the left. -/
def insert (a : α) : BinaryTree α → BinaryTree α
  | nil => node a nil nil
  | node b l r => if key b < key a then node b (insert a l) r else node b l (insert a r)

/-- The first element with the key on the path of the key. -/
def search (k : K) : BinaryTree α → Option α
  | nil => none
  | node b l r => if key b = k then some b else if key b < k then search k l else search k r

/-- Left of an element are the larger keys, right of it those that are not larger. -/
def Ordered : BinaryTree α → Prop
  | nil => True
  | node a l r =>
    (∀ x ∈ elements l, key a < key x) ∧ (∀ x ∈ elements r, key x ≤ key a) ∧ Ordered l ∧ Ordered r

/-- Inserts a list into an empty tree. -/
def ofList (as : List α) : BinaryTree α := as.foldl (fun t a => insert key a t) nil

variable {key} {a b c : α} {t l r : BinaryTree α}

/-! ## What insertion keeps -/

theorem perm_insert (a : α) (t : BinaryTree α) :
    (elements (insert key a t)).Perm (a :: elements t) := by
  induction t with
  | nil => exact List.Perm.refl _
  | node b l r ihl ihr =>
    rw [insert]
    split
    · rw [elements, elements]
      exact ihl.append_right _
    · rw [elements, elements]
      refine ((ihr.cons b).append_left _).trans ?_
      refine ((List.Perm.swap a b (elements r)).append_left (elements l)).trans ?_
      exact List.perm_middle

theorem mem_insert {x : α} : x ∈ elements (insert key a t) ↔ x = a ∨ x ∈ elements t := by
  rw [(perm_insert a t).mem_iff, List.mem_cons]

theorem ordered_insert (a : α) (h : Ordered key t) : Ordered key (insert key a t) := by
  induction t with
  | nil => exact ⟨fun x hx => (List.not_mem_nil hx).elim, fun x hx => (List.not_mem_nil hx).elim,
      trivial, trivial⟩
  | node b l r ihl ihr =>
    obtain ⟨hl, hr, hol, hor⟩ := h
    rw [insert]
    split
    · next hlt =>
      refine ⟨fun x hx => ?_, hr, ihl hol, hor⟩
      rcases mem_insert.mp hx with rfl | hx
      · exact hlt
      · exact hl x hx
    · next hnot =>
      refine ⟨hl, fun x hx => ?_, hol, ihr hor⟩
      rcases mem_insert.mp hx with rfl | hx
      · exact le_of_not_gt hnot
      · exact hr x hx

/-- **Insertion does not change what is found**, except that a key that was not found is. -/
theorem search_insert (k : K) (a : α) (t : BinaryTree α) :
    search key k (insert key a t) =
      (search key k t).or (if key a = k then some a else none) := by
  induction t with
  | nil => simp [insert, search]
  | node b l r ihl ihr =>
    rw [insert, search]
    by_cases heq : key b = k
    · -- the search stops here, above where the element goes
      rw [if_pos heq]
      split <;> rw [search, if_pos heq, Option.some_or]
    · rw [if_neg heq]
      by_cases hside : key b < k <;> by_cases hdir : key b < key a
      · rw [if_pos hside, if_pos hdir, search, if_neg heq, if_pos hside, ihl]
      · -- the element goes to the other side, so its key is not the one that is searched
        have hne : key a ≠ k := fun h => hdir (h ▸ hside)
        rw [if_pos hside, if_neg hdir, search, if_neg heq, if_pos hside, if_neg hne, Option.or_none]
      · have hne : key a ≠ k := fun h => hside (h ▸ hdir)
        rw [if_neg hside, if_pos hdir, search, if_neg heq, if_neg hside, if_neg hne, Option.or_none]
      · rw [if_neg hside, if_neg hdir, search, if_neg heq, if_neg hside, ihr]

theorem ofList_concat (as : List α) (a : α) :
    ofList key (as ++ [a]) = insert key a (ofList key as) := by
  rw [ofList, List.foldl_append]
  rfl

theorem perm_ofList (key : α → K) (as : List α) : (elements (ofList key as)).Perm as := by
  induction as using List.reverseRecOn with
  | nil => exact List.Perm.refl _
  | append_singleton as a ih =>
    rw [ofList_concat]
    exact (perm_insert a _).trans ((ih.cons a).trans (List.perm_append_singleton a as).symm)

theorem ordered_ofList (as : List α) : Ordered key (ofList key as) := by
  induction as using List.reverseRecOn with
  | nil => trivial
  | append_singleton as a ih =>
    rw [ofList_concat]
    exact ordered_insert a ih

/-- **The first one inserted with the key is found.** -/
theorem search_ofList (k : K) (as : List α) :
    search key k (ofList key as) = as.find? fun a => key a = k := by
  induction as using List.reverseRecOn with
  | nil => rfl
  | append_singleton as a ih =>
    rw [ofList_concat, search_insert, ih, List.find?_append, List.find?_singleton]
    simp

theorem mem_of_search {k : K} (h : search key k t = some c) : c ∈ elements t ∧ key c = k := by
  induction t with
  | nil => cases h
  | node b l r ihl ihr =>
    rw [search] at h
    rw [elements, List.mem_append, List.mem_cons]
    split at h
    · next heq =>
      obtain rfl := Option.some.inj h
      exact ⟨.inr (.inl rfl), heq⟩
    · split at h
      · exact ⟨.inl (ihl h).1, (ihl h).2⟩
      · exact ⟨.inr (.inr (ihr h).1), (ihr h).2⟩

/-! ## Subtrees -/

/-- A tree hangs somewhere in another one. -/
inductive Subtree : BinaryTree α → BinaryTree α → Prop
  | refl (t : BinaryTree α) : Subtree t t
  | left {s l r : BinaryTree α} {a : α} (h : Subtree s l) : Subtree s (node a l r)
  | right {s l r : BinaryTree α} {a : α} (h : Subtree s r) : Subtree s (node a l r)

variable {s : BinaryTree α}

theorem exists_subtree (h : c ∈ elements t) : ∃ l r, Subtree (node c l r) t := by
  induction t with
  | nil => cases h
  | node b l r ihl ihr =>
    rw [elements, List.mem_append, List.mem_cons] at h
    rcases h with h | rfl | h
    · obtain ⟨l', r', hs⟩ := ihl h
      exact ⟨l', r', hs.left⟩
    · exact ⟨l, r, .refl _⟩
    · obtain ⟨l', r', hs⟩ := ihr h
      exact ⟨l', r', hs.right⟩

theorem Subtree.sublist (h : Subtree s t) : (elements s).Sublist (elements t) := by
  induction h with
  | refl => exact List.Sublist.refl _
  | left _ ih => exact ih.trans (List.sublist_append_left _ _)
  | right _ ih => exact ih.trans ((List.sublist_cons_self _ _).trans (List.sublist_append_right _ _))

theorem Subtree.mem (h : Subtree (node c l r) t) : c ∈ elements t :=
  h.sublist.subset (List.mem_append_right _ (List.mem_cons_self ..))

theorem eq_nil_of_length (h : (elements t).length = 0) : t = nil := by
  cases t with
  | nil => rfl
  | node a l r => simp [elements] at h

theorem Subtree.ordered (h : Subtree s t) (ho : Ordered key t) : Ordered key s := by
  induction h with
  | refl => exact ho
  | left _ ih => exact ih ho.2.2.1
  | right _ ih => exact ih ho.2.2.2

/-- A subtree is the whole tree, or it hangs to the left or to the right of an element. -/
theorem Subtree.cases_parent (h : Subtree s t) :
    s = t ∨ ∃ p l r, Subtree (node p l r) t ∧ (s = l ∨ s = r) := by
  induction h with
  | refl => exact .inl rfl
  | @left l r a hl ih =>
    rcases ih with rfl | ⟨p, l', r', hs, hside⟩
    · exact .inr ⟨a, s, r, .refl _, .inl rfl⟩
    · exact .inr ⟨p, l', r', hs.left, hside⟩
  | @right l r a hr ih =>
    rcases ih with rfl | ⟨p, l', r', hs, hside⟩
    · exact .inr ⟨a, l, s, .refl _, .inr rfl⟩
    · exact .inr ⟨p, l', r', hs.right, hside⟩

end GhNet.SearchTree
