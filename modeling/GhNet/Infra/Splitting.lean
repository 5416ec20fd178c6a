import Mathlib.Data.List.Infix
import GhNet.Infra.Pieces

/-!
# Cutting behind a tag

`indexOf tag s` is where `tag` first occurs in `s`. `splitter tag` is the `Cutter` that takes off
what reaches to the end of that occurrence, so `pieces s` cuts `s` behind each leftmost occurrence
that does not overlap the one before.
-/

namespace GhNet

variable {α : Type*} [DecidableEq α]

/-- The leftmost index at which `tag` occurs. -/
def indexOf (tag : List α) : List α → Option Nat
  | [] => if tag <+: [] then some 0 else none
  | a :: s => if tag <+: a :: s then some 0 else (indexOf tag s).map (· + 1)

variable {tag s t : List α} {i : Nat}

theorem indexOf_eq_some_iff : indexOf tag s = some i ↔
    tag <+: s.drop i ∧ i ≤ s.length ∧ ∀ j < i, ¬tag <+: s.drop j := by
  induction s generalizing i with
  | nil =>
    rw [indexOf, List.drop_nil, List.length_nil, Nat.le_zero]
    split
    · constructor
      · intro hi
        cases hi
        exact ⟨by assumption, rfl, fun j hj => absurd hj (Nat.not_lt_zero j)⟩
      · rintro ⟨-, rfl, -⟩
        rfl
    · constructor
      · intro hi
        cases hi
      · rintro ⟨hpre, -, -⟩
        contradiction
  | cons a s ih =>
    rw [indexOf]
    by_cases hpre : tag <+: a :: s
    · rw [if_pos hpre]
      constructor
      · intro hi
        cases hi
        exact ⟨hpre, Nat.zero_le _, fun j hj => absurd hj (Nat.not_lt_zero j)⟩
      · rintro ⟨-, -, hmin⟩
        cases i with
        | zero => rfl
        | succ i => exact absurd hpre (hmin 0 (Nat.succ_pos i))
    · rw [if_neg hpre, Option.map_eq_some_iff]
      constructor
      · rintro ⟨k, hk, rfl⟩
        obtain ⟨hat, hle, hmin⟩ := ih.mp hk
        refine ⟨hat, Nat.succ_le_succ hle, fun j hj => ?_⟩
        cases j with
        | zero => exact hpre
        | succ j => exact hmin j (Nat.lt_of_succ_lt_succ hj)
      · rintro ⟨hat, hle, hmin⟩
        cases i with
        | zero => exact absurd hat hpre
        | succ i =>
          refine ⟨i, ih.mpr ⟨hat, Nat.le_of_succ_le_succ hle, fun j hj => ?_⟩, rfl⟩
          exact hmin (j + 1) (Nat.succ_lt_succ hj)

/-- The index is found exactly when the tag occurs. -/
theorem isSome_indexOf : (indexOf tag s).isSome ↔ tag <:+: s := by
  induction s with
  | nil =>
    rw [List.infix_nil, ← List.prefix_nil, indexOf]
    split <;> simp [*]
  | cons a s ih =>
    rw [indexOf, List.infix_cons_iff, ← ih]
    split <;> simp [*]

theorem indexOf_add_length_le (h : indexOf tag s = some i) : i + tag.length ≤ s.length := by
  obtain ⟨hat, hle, -⟩ := indexOf_eq_some_iff.mp h
  have hlen := hat.length_le
  rw [List.length_drop] at hlen
  omega

theorem indexOf_of_prefix (h : tag <+: s) : indexOf tag s = some 0 :=
  indexOf_eq_some_iff.mpr ⟨h, Nat.zero_le _, fun j hj => absurd hj (Nat.not_lt_zero j)⟩

/-- An occurrence that is not at the front is one of the tail. -/
theorem indexOf_tail (h : ¬tag <+: s) :
    indexOf tag s = (indexOf tag s.tail).map (· + 1) := by
  cases s with
  | nil =>
    rw [List.tail_nil, indexOf, if_neg h]
    rfl
  | cons a s => rw [indexOf, if_neg h, List.tail_cons]

/-- The first occurrence stays the first when more comes behind. -/
theorem indexOf_append (h : indexOf tag s = some i) (t : List α) :
    indexOf tag (s ++ t) = some i := by
  have hlen := indexOf_add_length_le h
  obtain ⟨hat, hle, hmin⟩ := indexOf_eq_some_iff.mp h
  rw [indexOf_eq_some_iff, List.drop_append_of_le_length hle, List.length_append]
  refine ⟨List.prefix_append_of_prefix hat, by omega, fun j hj hpre => hmin j hj ?_⟩
  rw [List.drop_append_of_le_length (by omega)] at hpre
  refine List.prefix_of_prefix_length_le hpre (List.prefix_append _ t) ?_
  rw [List.length_drop]
  omega

/-! ## The pieces -/

/-- Takes off what reaches to the end of the first occurrence. -/
def splitter (tag : List α) (h : tag ≠ []) : Cutter α (List α) where
  Whole s := (indexOf tag s).isSome
  decWhole _ := inferInstance
  total s := (indexOf tag s).getD 0 + tag.length
  piece s := s.take ((indexOf tag s).getD 0 + tag.length)
  total_pos _ _ := Nat.add_pos_right _ (List.length_pos_iff.mpr h)
  total_le s hs := by
    obtain ⟨i, hi⟩ := Option.isSome_iff_exists.mp hs
    rw [hi]
    exact indexOf_add_length_le hi

variable {h : tag ≠ []}

theorem whole_splitter : (splitter tag h).Whole s ↔ tag <:+: s := isSome_indexOf

theorem whole_splitter_of_indexOf (hi : indexOf tag s = some i) : (splitter tag h).Whole s :=
  Option.isSome_of_eq_some hi

theorem total_splitter (hi : indexOf tag s = some i) :
    (splitter tag h).total s = i + tag.length := by
  change (indexOf tag s).getD 0 + tag.length = i + tag.length
  rw [hi, Option.getD_some]

theorem piece_splitter (hi : indexOf tag s = some i) :
    (splitter tag h).piece s = s.take (i + tag.length) := by
  change s.take ((indexOf tag s).getD 0 + tag.length) = s.take (i + tag.length)
  rw [hi, Option.getD_some]

theorem stable_splitter : (splitter tag h).Stable where
  whole s t hs := by
    obtain ⟨i, hi⟩ := Option.isSome_iff_exists.mp hs
    exact whole_splitter_of_indexOf (indexOf_append hi t)
  total s t hs := by
    obtain ⟨i, hi⟩ := Option.isSome_iff_exists.mp hs
    rw [total_splitter hi, total_splitter (indexOf_append hi t)]
  piece s t hs := by
    obtain ⟨i, hi⟩ := Option.isSome_iff_exists.mp hs
    rw [piece_splitter hi, piece_splitter (indexOf_append hi t),
      List.take_append_of_le_length (indexOf_add_length_le hi)]

/-- A tag at the front is a piece of its own. -/
theorem pieces_of_prefix (hs : tag <+: s) : (splitter tag h).pieces s
    = tag :: (splitter tag h).pieces (s.drop tag.length) := by
  have hi := indexOf_of_prefix hs
  rw [Cutter.pieces_of_whole (whole_splitter_of_indexOf hi), piece_splitter hi, total_splitter hi,
    Nat.zero_add, ← List.prefix_iff_eq_take.mp hs]

theorem rest_of_prefix (hs : tag <+: s) :
    (splitter tag h).rest s = (splitter tag h).rest (s.drop tag.length) := by
  have hi := indexOf_of_prefix hs
  rw [Cutter.rest_of_whole (whole_splitter_of_indexOf hi), total_splitter hi, Nat.zero_add]

/-- Nothing is lost. -/
theorem flatten_pieces (s : List α) :
    ((splitter tag h).pieces s).flatten ++ (splitter tag h).rest s = s := by
  induction s using Cutter.pieces_induction (C := splitter tag h) with
  | stop s hs => rw [Cutter.pieces_of_not_whole hs, Cutter.rest_of_not_whole hs]; rfl
  | piece s hs ih =>
    obtain ⟨i, hi⟩ := Option.isSome_iff_exists.mp hs
    rw [Cutter.pieces_of_whole hs, Cutter.rest_of_whole hs, List.flatten_cons, List.append_assoc, ih,
      piece_splitter hi, total_splitter hi, List.take_append_drop]

/-- What is left contains no tag. -/
theorem not_infix_rest (s : List α) : ¬tag <:+: (splitter tag h).rest s := by
  rw [← whole_splitter]
  exact Cutter.not_whole_rest s

end GhNet
