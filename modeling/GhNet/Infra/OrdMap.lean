import Mathlib.Order.Lattice
import Mathlib.Tactic.Common

/-!
# Ordered maps

`std::map`: entries with distinct keys, kept in the order of the keys. Iterating over the map is
going through `entries`.
-/

namespace GhNet

/-- Entries in the order of their keys. -/
structure OrdMap (κ ν : Type*) [LinearOrder κ] where
  entries : List (κ × ν)
  sorted : entries.Pairwise fun a b => a.1 < b.1

namespace OrdMap

variable {κ ν : Type*} [LinearOrder κ]

/-- Nothing is there. -/
def empty : OrdMap κ ν := ⟨[], List.Pairwise.nil⟩

/-- Looks a key up in a list of entries. -/
def findIn (k : κ) : List (κ × ν) → Option ν
  | [] => none
  | e :: es => if e.1 = k then some e.2 else findIn k es

/-- What is there for a key. -/
def find (m : OrdMap κ ν) (k : κ) : Option ν := findIn k m.entries

/-- Puts an entry in its place, in front of those with larger keys. An entry that has the key is
kept. -/
def insertIn (k : κ) (v : ν) : List (κ × ν) → List (κ × ν)
  | [] => [(k, v)]
  | e :: es =>
    if k < e.1 then (k, v) :: e :: es
    else if e.1 = k then e :: es
    else e :: insertIn k v es

theorem mem_insertIn {k : κ} {v : ν} {es : List (κ × ν)} {x : κ × ν}
    (h : x ∈ insertIn k v es) : x = (k, v) ∨ x ∈ es := by
  induction es with
  | nil => exact Or.inl (List.mem_singleton.mp h)
  | cons e es ih =>
    rw [insertIn] at h
    split at h
    · exact List.mem_cons.mp h
    · split at h
      · exact Or.inr h
      · rcases List.mem_cons.mp h with rfl | h
        · exact Or.inr (List.mem_cons_self ..)
        · rcases ih h with h | h
          · exact Or.inl h
          · exact Or.inr (List.mem_cons_of_mem _ h)

theorem sorted_insertIn {k : κ} {v : ν} {es : List (κ × ν)}
    (h : es.Pairwise fun a b => a.1 < b.1) :
    (insertIn k v es).Pairwise fun a b => a.1 < b.1 := by
  induction es with
  | nil => exact List.pairwise_singleton _ _
  | cons e es ih =>
    obtain ⟨he, hes⟩ := List.pairwise_cons.mp h
    rw [insertIn]
    split
    · next hlt =>
      refine List.pairwise_cons.mpr ⟨fun x hx => ?_, h⟩
      rcases List.mem_cons.mp hx with rfl | hx
      · exact hlt
      · exact lt_trans hlt (he x hx)
    · next hnot =>
      split
      · exact h
      · next hne =>
        refine List.pairwise_cons.mpr ⟨fun x hx => ?_, ih hes⟩
        rcases mem_insertIn hx with rfl | hx
        · exact lt_of_le_of_ne (le_of_not_gt hnot) hne
        · exact he x hx

/-- `insert`: a key that is there keeps its value. -/
def insert (m : OrdMap κ ν) (k : κ) (v : ν) : OrdMap κ ν :=
  ⟨insertIn k v m.entries, sorted_insertIn m.sorted⟩

/-- Nothing is there for the key any more. -/
def erase (m : OrdMap κ ν) (k : κ) : OrdMap κ ν :=
  ⟨m.entries.filter fun e => e.1 ≠ k, m.sorted.filter _⟩

/-! ## What is found -/

theorem findIn_insertIn_self {k : κ} {v : ν} {es : List (κ × ν)} (h : findIn k es = none) :
    findIn k (insertIn k v es) = some v := by
  induction es with
  | nil => rw [insertIn, findIn, if_pos rfl]
  | cons e es ih =>
    rw [findIn] at h
    rw [insertIn]
    split
    · rw [findIn, if_pos rfl]
    · split
      · next heq => rw [if_pos heq] at h; cases h
      · next hne =>
        rw [if_neg hne] at h
        rw [findIn, if_neg hne]
        exact ih h

theorem findIn_insertIn_ne {k k' : κ} {v : ν} {es : List (κ × ν)} (h : k' ≠ k) :
    findIn k' (insertIn k v es) = findIn k' es := by
  induction es with
  | nil => exact if_neg (Ne.symm h)
  | cons e es ih =>
    rw [insertIn]
    split
    · exact if_neg (Ne.symm h)
    · split
      · rfl
      · rw [findIn, findIn, ih]

theorem findIn_filter_self {k : κ} {es : List (κ × ν)} :
    findIn k (es.filter fun e => e.1 ≠ k) = none := by
  induction es with
  | nil => rfl
  | cons e es ih =>
    by_cases h : e.1 = k
    · rw [List.filter_cons_of_neg (by simpa using h)]
      exact ih
    · rw [List.filter_cons_of_pos (by simpa using h), findIn, if_neg h]
      exact ih

theorem findIn_filter_ne {k k' : κ} {es : List (κ × ν)} (h : k' ≠ k) :
    findIn k' (es.filter fun e => e.1 ≠ k) = findIn k' es := by
  induction es with
  | nil => rfl
  | cons e es ih =>
    by_cases he : e.1 = k
    · rw [List.filter_cons_of_neg (by simpa using he), findIn,
        if_neg (fun h' => h (h'.symm.trans he))]
      exact ih
    · rw [List.filter_cons_of_pos (by simpa using he), findIn, findIn, ih]

theorem ne_of_findIn_eq_none {k : κ} {es : List (κ × ν)} (h : findIn k es = none) :
    ∀ e ∈ es, e.1 ≠ k := by
  induction es with
  | nil => exact fun e he => absurd he List.not_mem_nil
  | cons e es ih =>
    rw [findIn] at h
    split at h
    · cases h
    · next hne =>
      intro x hx
      rcases List.mem_cons.mp hx with rfl | hx
      · exact hne
      · exact ih h x hx

variable {m : OrdMap κ ν} {k k' : κ} {v : ν}

theorem find_insert_self (h : m.find k = none) : (m.insert k v).find k = some v :=
  findIn_insertIn_self h

theorem find_insert_ne (h : k' ≠ k) : (m.insert k v).find k' = m.find k' :=
  findIn_insertIn_ne h

@[simp] theorem find_erase_self : (m.erase k).find k = none := findIn_filter_self

theorem find_erase_ne (h : k' ≠ k) : (m.erase k).find k' = m.find k' := findIn_filter_ne h

/-- Nothing is erased where there is nothing. -/
theorem erase_of_find_none (h : m.find k = none) : m.erase k = m := by
  have hkeep : m.entries.filter (fun e => e.1 ≠ k) = m.entries :=
    List.filter_eq_self.mpr fun e he => decide_eq_true (ne_of_findIn_eq_none h e he)
  cases m
  simp only [erase, hkeep]

/-- What is found behind an insertion of a new key is the new value or was there. -/
theorem find_insert_cases {w : ν} (hnew : m.find k = none) (h : (m.insert k v).find k' = some w) :
    (k' = k ∧ w = v) ∨ m.find k' = some w := by
  by_cases hk : k' = k
  · subst hk
    rw [find_insert_self hnew] at h
    exact Or.inl ⟨rfl, (Option.some.inj h).symm⟩
  · rw [find_insert_ne hk] at h
    exact Or.inr h

/-- The entries are what can be found. -/
theorem mem_entries_iff : (k, v) ∈ m.entries ↔ m.find k = some v := by
  obtain ⟨es, hsorted⟩ := m
  show (k, v) ∈ es ↔ findIn k es = some v
  induction es with
  | nil => exact ⟨fun h => absurd h List.not_mem_nil, nofun⟩
  | cons e es ih =>
    obtain ⟨he, hes⟩ := List.pairwise_cons.mp hsorted
    rw [findIn, List.mem_cons]
    by_cases hk : e.1 = k
    · rw [if_pos hk]
      constructor
      · rintro (rfl | hmem)
        · rfl
        · exact absurd (he _ hmem) (not_lt_of_ge (le_of_eq hk.symm))
      · intro h
        exact Or.inl (Prod.ext hk.symm (Option.some.inj h).symm)
    · rw [if_neg hk, ← ih hes]
      exact or_iff_right (by rintro rfl; exact hk rfl)

/-- What is found behind an erasure was there under another key. -/
theorem find_of_find_erase {w : ν} (h : (m.erase k).find k' = some w) :
    k' ≠ k ∧ m.find k' = some w := by
  by_cases hk : k' = k
  · subst hk
    rw [find_erase_self] at h
    cases h
  · rw [find_erase_ne hk] at h
    exact ⟨hk, h⟩

end OrdMap

end GhNet
