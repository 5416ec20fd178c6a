import Mathlib.Data.List.Basic

/-!
# Taking pieces off the front

A `Cutter` says when a whole piece stands at the front of a list, how long it is and what is made of
it. `pieces s` are the pieces at the front of `s`, one behind the other, and `rest s` is what is
left.

If more elements behind a whole piece do not change it, then a list that arrives in two parts gives
the same pieces as at once: `pieces_append`.
-/

namespace GhNet

/-- How a piece is taken off the front. -/
structure Cutter (α β : Type*) where
  Whole : List α → Prop
  decWhole : DecidablePred Whole
  total : List α → Nat
  piece : List α → β
  total_pos : ∀ s, Whole s → 0 < total s
  total_le : ∀ s, Whole s → total s ≤ s.length

namespace Cutter

variable {α β : Type*} (C : Cutter α β)

instance (s : List α) : Decidable (C.Whole s) := C.decWhole s

/-- Takes at most `fuel` pieces. -/
def take : Nat → List α → List β × List α
  | 0, s => ([], s)
  | fuel + 1, s =>
    if C.Whole s then
      let r := take fuel (s.drop (C.total s))
      (C.piece s :: r.1, r.2)
    else ([], s)

/-- The pieces at the front. A piece has at least one element, so `s.length` rounds are enough. -/
def pieces (s : List α) : List β := (C.take s.length s).1

/-- What is behind the pieces. -/
def rest (s : List α) : List α := (C.take s.length s).2

variable {C} {s : List α}

theorem length_drop_total_lt (h : C.Whole s) : (s.drop (C.total s)).length < s.length := by
  have h1 := C.total_pos s h
  have h2 := C.total_le s h
  rw [List.length_drop]
  omega

/-- Induction along the pieces of a list. -/
theorem pieces_induction {P : List α → Prop} (stop : ∀ s, ¬C.Whole s → P s)
    (piece : ∀ s, C.Whole s → P (s.drop (C.total s)) → P s) (s : List α) : P s := by
  induction hn : s.length using Nat.strongRecOn generalizing s with
  | _ n ih =>
    by_cases hw : C.Whole s
    · exact piece s hw (ih _ (hn ▸ length_drop_total_lt hw) _ rfl)
    · exact stop s hw

/-- More fuel than elements changes nothing. -/
theorem take_fuel (s : List α) : ∀ fuel, s.length ≤ fuel → C.take fuel s = C.take s.length s := by
  induction s using pieces_induction (C := C) with
  | stop s hw =>
    have hstop : ∀ fuel, C.take fuel s = ([], s) := by
      intro fuel
      cases fuel with
      | zero => rfl
      | succ fuel => rw [take, if_neg hw]
    intro fuel _
    rw [hstop, hstop]
  | piece s hw ih =>
    have hlt := length_drop_total_lt hw
    have htake : ∀ fuel, s.length ≤ fuel → C.take fuel s
        = (C.piece s :: (C.take (s.drop (C.total s)).length (s.drop (C.total s))).1,
            (C.take (s.drop (C.total s)).length (s.drop (C.total s))).2) := by
      intro fuel hfuel
      cases fuel with
      | zero => omega
      | succ fuel => rw [take, if_pos hw, ih fuel (by omega)]
    intro fuel hfuel
    rw [htake fuel hfuel, htake s.length (Nat.le_refl _)]

theorem take_of_whole (h : C.Whole s) : C.take s.length s
    = (C.piece s :: C.pieces (s.drop (C.total s)), C.rest (s.drop (C.total s))) := by
  have hlt := length_drop_total_lt h
  have hfuel := take_fuel (C := C) (s.drop (C.total s)) (s.length - 1) (by omega)
  rw [show s.length = (s.length - 1) + 1 by omega, take, if_pos h, hfuel]
  rfl

theorem take_of_not_whole (h : ¬C.Whole s) : C.take s.length s = ([], s) := by
  cases hl : s.length with
  | zero => rfl
  | succ n => rw [take, if_neg h]

theorem pieces_of_whole (h : C.Whole s) :
    C.pieces s = C.piece s :: C.pieces (s.drop (C.total s)) := by
  rw [pieces, take_of_whole h]

theorem rest_of_whole (h : C.Whole s) : C.rest s = C.rest (s.drop (C.total s)) := by
  rw [rest, take_of_whole h]

theorem pieces_of_not_whole (h : ¬C.Whole s) : C.pieces s = [] := by
  rw [pieces, take_of_not_whole h]

theorem rest_of_not_whole (h : ¬C.Whole s) : C.rest s = s := by
  rw [rest, take_of_not_whole h]

/-- What is left begins with no whole piece. -/
theorem not_whole_rest (s : List α) : ¬C.Whole (C.rest s) := by
  induction s using pieces_induction (C := C) with
  | stop s hw =>
    rw [rest_of_not_whole hw]
    exact hw
  | piece s hw ih =>
    rw [rest_of_whole hw]
    exact ih

/-! ## Lists that arrive in parts -/

variable (C) in
/-- More elements behind a whole piece do not change it. -/
structure Stable : Prop where
  whole : ∀ s t, C.Whole s → C.Whole (s ++ t)
  total : ∀ s t, C.Whole s → C.total (s ++ t) = C.total s
  piece : ∀ s t, C.Whole s → C.piece (s ++ t) = C.piece s

/-- **Taking pieces in parts.** What the first part leaves over comes before the second. -/
theorem pieces_append (hC : C.Stable) (s t : List α) :
    C.pieces (s ++ t) = C.pieces s ++ C.pieces (C.rest s ++ t) := by
  induction s using pieces_induction (C := C) with
  | stop s hw => rw [pieces_of_not_whole hw, rest_of_not_whole hw, List.nil_append]
  | piece s hw ih =>
    rw [pieces_of_whole (hC.whole s t hw), hC.piece s t hw, hC.total s t hw,
      List.drop_append_of_le_length (C.total_le s hw), ih, pieces_of_whole hw, rest_of_whole hw,
      List.cons_append]

theorem rest_append (hC : C.Stable) (s t : List α) :
    C.rest (s ++ t) = C.rest (C.rest s ++ t) := by
  induction s using pieces_induction (C := C) with
  | stop s hw => rw [rest_of_not_whole hw]
  | piece s hw ih =>
    rw [rest_of_whole (hC.whole s t hw), hC.total s t hw,
      List.drop_append_of_le_length (C.total_le s hw), ih, rest_of_whole hw]

end Cutter

end GhNet
