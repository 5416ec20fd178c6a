import GhNet.Infra.ByteOrder
import GhNet.Infra.Rewriting

/-!
# `StringReplace`

The loop replaces the first occurrence of `old_value` and searches again from the start, in the
string it has just written. Where the new value is shorter the string shrinks, and where both have
one length the bytes of the string, read as a number, go in one direction. Where it is longer, each
occurrence is replaced once if the new value neither has the old one in it nor shares an end with it.
A new value that has the old one in it is never done with: the loop goes on for ever, or until a
string cannot hold it.

`old_value` and `new_value` are other objects than `str`, as they are where the function is called.
-/

namespace GhNet.Base.StringReplace

open GhNet

/-! ## The loop -/

/-- What `replace` throws. -/
inductive Exception
  /-- `std::length_error` -/
  | length_error
  deriving DecidableEq, Repr

/-- `std::string::replace`, for a range inside the string. No string is longer than `max_size`. -/
def replace (max_size : Nat) (str : Bytes) (pos n : Nat) (value : Bytes) :
    Except Exception Bytes :=
  if max_size < str.length - n + value.length then .error .length_error
  else .ok (str.take pos ++ value ++ str.drop (pos + n))

/-- The loop of `StringReplace`; `none` when the rounds run out. -/
def loop (max_size : Nat) (old_value new_value : Bytes) :
    Nat → Bytes → Option (Except Exception Bytes)
  | 0, _ => none
  | fuel + 1, str =>
    match indexOf old_value str with
    | none => some (.ok str)
    | some pos =>
      match replace max_size str pos old_value.length new_value with
      | .error e => some (.error e)
      | .ok str => loop max_size old_value new_value fuel str

/-- `StringReplace` returns the string. -/
def Returns (max_size : Nat) (old_value new_value str result : Bytes) : Prop :=
  ∃ fuel, loop max_size old_value new_value fuel str = some (.ok result)

/-! ## One round -/

variable {max_size fuel : Nat} {old_value new_value str str' result : Bytes}

/-- A round ends the loop, or goes on with a string that is rewritten once. -/
theorem loop_succ : loop max_size old_value new_value (fuel + 1) str =
    match rewriteFirst old_value new_value str with
    | none => some (.ok str)
    | some str' =>
      if max_size < str'.length then some (.error .length_error)
      else loop max_size old_value new_value fuel str' := by
  rw [loop, rewriteFirst]
  cases hpos : indexOf old_value str with
  | none => rfl
  | some pos =>
    have hle := indexOf_add_length_le hpos
    have hlen : (str.take pos ++ new_value ++ str.drop (pos + old_value.length)).length =
        str.length - old_value.length + new_value.length := by
      simp only [List.length_append, List.length_take, List.length_drop]
      omega
    simp only [replace, Option.map_some, hlen]
    by_cases hlong : max_size < str.length - old_value.length + new_value.length
    · rw [if_pos hlong, if_pos hlong]
    · rw [if_neg hlong, if_neg hlong]

/-- What is returned does not have the old value in it. -/
theorem Returns.not_infix (h : Returns max_size old_value new_value str result) :
    ¬old_value <:+: result := by
  obtain ⟨fuel, hloop⟩ := h
  induction fuel generalizing str with
  | zero => cases hloop
  | succ fuel ih =>
    cases hr : rewriteFirst old_value new_value str with
    | none =>
      rw [loop_succ, hr] at hloop
      obtain rfl : str = result := Except.ok.inj (Option.some.inj hloop)
      exact rewriteFirst_eq_none.mp hr
    | some str' =>
      rw [loop_succ] at hloop
      simp only [hr] at hloop
      split at hloop
      · cases hloop
      · exact ih hloop

/-! ## A new value that is not longer -/

end GhNet.Base.StringReplace
