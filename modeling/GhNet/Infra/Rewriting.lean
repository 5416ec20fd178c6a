import GhNet.Infra.Splitting

/-!
# Rewriting a word with one rule

`rewriteFirst old new s` puts `new` in the place of the first occurrence of `old` in `s`. What one
such step does to a measure says how long it can go on.

Where `new` is longer than `old`, and neither has `old` in it nor shares an end with it, a step makes
no new occurrence: what is in front of the next one is settled, and each occurrence that was there
is rewritten once.
-/

namespace GhNet

variable {α : Type*} [DecidableEq α]

/-- Rewrites the first occurrence. -/
def rewriteFirst (old new s : List α) : Option (List α) :=
  (indexOf old s).map fun i => s.take i ++ new ++ s.drop (i + old.length)

variable {old new s t : List α}

theorem rewriteFirst_eq_none : rewriteFirst old new s = none ↔ ¬old <:+: s := by
  rw [rewriteFirst, Option.map_eq_none_iff, ← isSome_indexOf, Option.not_isSome_iff_eq_none]

/-- What stands around the occurrence stays. -/
theorem exists_of_rewriteFirst (h : rewriteFirst old new s = some t) :
    ∃ u v, s = u ++ old ++ v ∧ t = u ++ new ++ v := by
  obtain ⟨i, hi, rfl⟩ := Option.map_eq_some_iff.mp h
  obtain ⟨⟨v, hv⟩, -, -⟩ := indexOf_eq_some_iff.mp hi
  have hrest : s.drop (i + old.length) = v := by
    rw [← List.drop_drop, ← hv, List.drop_left]
  refine ⟨s.take i, v, ?_, by rw [hrest]⟩
  rw [List.append_assoc, hv, List.take_append_drop]

/-- The rule `old → old` changes nothing. -/
theorem rewriteFirst_self (h : rewriteFirst old old s = some t) : t = s := by
  obtain ⟨u, v, rfl, rfl⟩ := exists_of_rewriteFirst h
  rfl

/-- No occurrence begins in `p`, whatever comes behind it. -/
def Settled (old p : List α) : Prop := ∀ j < p.length, ∀ q, ¬old <+: (p ++ q).drop j

/-- An end of `new` is one that `old` begins with, or a beginning one that it ends with. -/
def Tangled (old new : List α) : Prop :=
  (∃ w ∈ new.tails, w ≠ [] ∧ w <+: old) ∨ ∃ w ∈ new.inits, w ≠ [] ∧ w <:+ old

instance (old new : List α) : Decidable (Tangled old new) := inferInstanceAs (Decidable (_ ∨ _))

variable {p q x y : List α} {i : Nat}

omit [DecidableEq α] in
/-- What a word begins with that begins with `x`: a beginning of `x`, or `x` and more. -/
theorem prefix_append_cases (h : old <+: x ++ y) :
    old <+: x ∨ ∃ w, w ≠ [] ∧ old = x ++ w ∧ w <+: y := by
  obtain ⟨r, hr⟩ := h
  rcases List.append_eq_append_iff.mp hr with ⟨w, rfl, -⟩ | ⟨w, rfl, rfl⟩
  · exact .inl (List.prefix_append _ _)
  · cases w with
    | nil => exact .inl (by rw [List.append_nil])
    | cons a w => exact .inr ⟨a :: w, List.cons_ne_nil _ _, rfl, List.prefix_append _ _⟩

/-- **A step settles the word up to the end of what it has put in.** -/
theorem Settled.step (h : Settled old p) (hi : indexOf old q = some i)
    (hlen : old.length < new.length) (hin : ¬old <:+: new) (ht : ¬Tangled old new) :
    Settled old (p ++ q.take i ++ new) := by
  obtain ⟨-, hle, hmin⟩ := indexOf_eq_some_iff.mp hi
  intro j hj r hpre
  rw [List.length_append, List.length_append, List.length_take, Nat.min_eq_left hle] at hj
  rw [List.append_assoc, List.append_assoc] at hpre
  by_cases hp : j < p.length
  · exact h j hp _ hpre
  obtain ⟨k, rfl⟩ := Nat.exists_eq_add_of_le (Nat.le_of_not_lt hp)
  rw [List.drop_append, List.drop_eq_nil_of_le (Nat.le_add_right _ _), List.nil_append,
    Nat.add_sub_cancel_left] at hpre
  by_cases hk : k < i
  · -- it begins in front of the place of `old`
    have hdrop : (q.take i ++ (new ++ r)).drop k = (q.take i).drop k ++ (new ++ r) :=
      List.drop_append_of_le_length (by rw [List.length_take, Nat.min_eq_left hle]; omega)
    rw [hdrop] at hpre
    rcases prefix_append_cases hpre with hfront | ⟨w, hw, hold, hrest⟩
    · refine hmin k hk (hfront.trans ?_)
      rw [List.drop_take]
      exact List.take_prefix _ _
    · rcases prefix_append_cases hrest with hnew | ⟨z, -, rfl, -⟩
      · exact ht (.inr ⟨w, (List.mem_inits _ _).mpr hnew, hw, hold ▸ List.suffix_append _ _⟩)
      · have := congrArg List.length hold
        simp only [List.length_append] at this
        omega
  · -- it begins in what was put in
    obtain ⟨m, rfl⟩ := Nat.exists_eq_add_of_le (Nat.le_of_not_lt hk)
    have hm : m < new.length := by omega
    have htake : (q.take i).length = i := by rw [List.length_take, Nat.min_eq_left hle]
    rw [List.drop_append, List.drop_eq_nil_of_le (by omega), List.nil_append, htake,
      Nat.add_sub_cancel_left, List.drop_append_of_le_length (Nat.le_of_lt hm)] at hpre
    rcases prefix_append_cases hpre with hnew | ⟨w, -, hold, -⟩
    · exact hin (hnew.isInfix.trans (List.drop_suffix _ _).isInfix)
    · refine ht (.inl ⟨new.drop m, (List.mem_tails _ _).mpr (List.drop_suffix _ _), ?_,
        hold ▸ List.prefix_append _ _⟩)
      exact List.ne_nil_of_length_pos (by rw [List.length_drop]; omega)

end GhNet
