import Mathlib.Data.List.Basic
import Mathlib.Tactic.Common

/-!
# Reading in blocks

Data is taken in blocks of `n` elements, each of which changes a state, and what is left at the end
is less than a block. It does not matter in which pieces the data comes, as long as what is left of
one piece is put in front of the next.
-/

namespace GhNet.Blocks

variable {α σ : Type*} {n : Nat} {f : σ → List α → σ} {s : σ} {xs ys : List α}

/-- Takes the whole blocks. -/
def absorb (n : Nat) (f : σ → List α → σ) (s : σ) (xs : List α) : σ :=
  if 0 < n ∧ n ≤ xs.length then absorb n f (f s (xs.take n)) (xs.drop n) else s
termination_by xs.length
decreasing_by
  rw [List.length_drop]
  omega

/-- What is left behind the whole blocks. -/
def rest (n : Nat) (xs : List α) : List α :=
  if 0 < n ∧ n ≤ xs.length then rest n (xs.drop n) else xs
termination_by xs.length
decreasing_by
  rw [List.length_drop]
  omega

theorem absorb_short (h : xs.length < n) : absorb n f s xs = s := by
  rw [absorb, if_neg fun hn => Nat.not_le.mpr h hn.2]

theorem rest_short (h : xs.length < n) : rest n xs = xs := by
  rw [rest, if_neg fun hn => Nat.not_le.mpr h hn.2]

theorem absorb_long (hn : 0 < n) (h : n ≤ xs.length) :
    absorb n f s xs = absorb n f (f s (xs.take n)) (xs.drop n) := by
  rw [absorb, if_pos ⟨hn, h⟩]

theorem rest_long (hn : 0 < n) (h : n ≤ xs.length) : rest n xs = rest n (xs.drop n) := by
  rw [rest, if_pos ⟨hn, h⟩]

/-- One block and what is behind it. -/
theorem absorb_block (hn : 0 < n) (h : xs.length = n) :
    absorb n f s (xs ++ ys) = absorb n f (f s xs) ys := by
  have hlong : n ≤ (xs ++ ys).length := by
    rw [List.length_append]
    omega
  rw [absorb_long hn hlong, ← h, List.take_left, List.drop_left]

theorem rest_block (hn : 0 < n) (h : xs.length = n) : rest n (xs ++ ys) = rest n ys := by
  have hlong : n ≤ (xs ++ ys).length := by
    rw [List.length_append]
    omega
  rw [rest_long hn hlong, ← h, List.drop_left]

theorem length_rest (hn : 0 < n) (xs : List α) : (rest n xs).length = xs.length % n := by
  induction hk : xs.length using Nat.strongRecOn generalizing xs with
  | _ k ih =>
    rcases Nat.lt_or_ge xs.length n with h | h
    · rw [rest_short h, ← hk, Nat.mod_eq_of_lt h]
    · have hdrop := List.length_drop (i := n) (l := xs)
      rw [rest_long hn h, ih _ (by omega) _ rfl, hdrop, ← hk, Nat.mod_eq_sub_mod h]

/-- **The state after more data.** What was left comes first. -/
theorem absorb_append (hn : 0 < n) (f : σ → List α → σ) (s : σ) (xs ys : List α) :
    absorb n f s (xs ++ ys) = absorb n f (absorb n f s xs) (rest n xs ++ ys) := by
  induction hk : xs.length using Nat.strongRecOn generalizing xs s with
  | _ k ih =>
    rcases Nat.lt_or_ge xs.length n with h | h
    · rw [absorb_short h, rest_short h]
    · have htake : (xs.take n).length = n := List.length_take_of_le h
      have hdrop := List.length_drop (i := n) (l := xs)
      rw [absorb_long hn h, rest_long hn h, ← ih _ (by omega) _ _ rfl]
      conv_lhs => rw [← List.take_append_drop n xs, List.append_assoc]
      rw [absorb_block hn htake]

theorem rest_append (hn : 0 < n) (xs ys : List α) :
    rest n (xs ++ ys) = rest n (rest n xs ++ ys) := by
  induction hk : xs.length using Nat.strongRecOn generalizing xs with
  | _ k ih =>
    rcases Nat.lt_or_ge xs.length n with h | h
    · rw [rest_short h]
    · have htake : (xs.take n).length = n := List.length_take_of_le h
      have hdrop := List.length_drop (i := n) (l := xs)
      rw [rest_long hn h, ← ih _ (by omega) _ rfl]
      conv_lhs => rw [← List.take_append_drop n xs, List.append_assoc]
      rw [rest_block hn htake]

end GhNet.Blocks
