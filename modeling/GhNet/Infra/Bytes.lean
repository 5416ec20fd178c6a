import Mathlib.Data.List.Basic

/-!
# Regions of a block of memory

`slice` reads a region of a block and `overwrite` is `memcpy` into it. Bytes that `memcpy` would
put outside the block are dropped, so a block never changes its length.

`be16` is the two-byte big-endian encoding of a length.
-/

namespace GhNet

/-- What is in memory and on the wire. -/
abbrev Bytes := List UInt8

section Regions

variable {α : Type*}

/-- The `n` elements of `l` from `off` on. -/
def slice (l : List α) (off n : Nat) : List α := (l.drop off).take n

/-- `memcpy(dst + off, src, src.length)`. -/
def overwrite (dst : List α) (off : Nat) (src : List α) : List α :=
  (dst.take off ++ src ++ dst.drop (off + src.length)).take dst.length

@[simp] theorem length_overwrite (dst : List α) (off : Nat) (src : List α) :
    (overwrite dst off src).length = dst.length := by
  simp only [overwrite, List.length_take, List.length_append, List.length_drop]
  omega

theorem length_slice {l : List α} {off n : Nat} (h : off + n ≤ l.length) :
    (slice l off n).length = n := by
  simp only [slice, List.length_take, List.length_drop]
  omega

@[simp] theorem slice_zero_len (l : List α) (off : Nat) : slice l off 0 = [] := by
  simp [slice]

/-- Moving the start of a region forward drops what was in front. -/
theorem slice_add (l : List α) (off n k : Nat) :
    slice l (off + k) (n - k) = (slice l off n).drop k := by
  simp only [slice, List.drop_take, List.drop_drop]

/-- Two adjacent regions are one. -/
theorem slice_split {l : List α} {r w n : Nat} (hrw : r ≤ w) :
    slice l r (w + n - r) = slice l r (w - r) ++ slice l w n := by
  simp only [slice]
  rw [show w + n - r = (w - r) + n by omega, List.take_add, List.drop_drop,
    show r + (w - r) = w by omega]

/-- Inside the block nothing is dropped. -/
theorem overwrite_eq {dst : List α} {off : Nat} {src : List α}
    (h : off + src.length ≤ dst.length) :
    overwrite dst off src = dst.take off ++ src ++ dst.drop (off + src.length) := by
  refine List.take_of_length_le ?_
  simp only [List.length_append, List.length_take, List.length_drop]
  omega

/-- **Writing right behind a region extends it.** -/
theorem slice_overwrite_append {dst : List α} {r w : Nat} {src : List α} (hrw : r ≤ w)
    (h : w + src.length ≤ dst.length) :
    slice (overwrite dst w src) r (w + src.length - r) = slice dst r (w - r) ++ src := by
  have hlen : (dst.take w).length = w := by rw [List.length_take]; omega
  rw [overwrite_eq h]
  unfold slice
  rw [List.append_assoc, List.drop_append_of_le_length (by omega), List.drop_take,
    show w + src.length - r = (w - r) + src.length by omega,
    List.take_append, List.take_of_length_le (by rw [List.length_take]; omega)]
  have hdrop : ((dst.drop r).take (w - r)).length = w - r := by
    rw [List.length_take, List.length_drop]; omega
  rw [hdrop, show w - r + src.length - (w - r) = src.length by omega, List.take_left]

/-- What stands before the written bytes is kept. -/
theorem slice_overwrite_before {dst : List α} {r w : Nat} {src : List α} (hrw : r ≤ w)
    (h : w + src.length ≤ dst.length) :
    slice (overwrite dst w src) r (w - r) = slice dst r (w - r) := by
  have hlen : (dst.take w).length = w := by rw [List.length_take]; omega
  rw [overwrite_eq h]
  unfold slice
  rw [List.append_assoc, List.drop_append_of_le_length (by omega),
    List.take_append_of_le_length (by rw [List.length_drop]; omega), List.drop_take, List.take_take,
    Nat.min_self]

/-- What was written can be read back. -/
theorem slice_overwrite_self {dst : List α} {w : Nat} {src : List α}
    (h : w + src.length ≤ dst.length) : slice (overwrite dst w src) w src.length = src := by
  have h' := slice_overwrite_append (Nat.le_refl w) h
  simpa using h'

/-- Writing what is there already changes nothing. -/
theorem overwrite_slice {dst : List α} {off n : Nat} (h : off + n ≤ dst.length) :
    overwrite dst off (slice dst off n) = dst := by
  have hlen := length_slice h
  rw [overwrite_eq (by omega), hlen, slice, ← List.take_add, List.take_append_drop]

end Regions

/-! ## Two-byte lengths -/

/-- The two bytes of `htons(n)` in memory: high byte first. -/
def be16 (n : Nat) : Bytes := [UInt8.ofNat (n / 256), UInt8.ofNat n]

/-- The value of two bytes in network order. -/
def be16Val (hi lo : UInt8) : Nat := hi.toNat * 256 + lo.toNat

@[simp] theorem length_be16 (n : Nat) : (be16 n).length = 2 := rfl

theorem be16Val_lt (hi lo : UInt8) : be16Val hi lo < 65536 := by
  have h1 := hi.toNat_lt
  have h2 := lo.toNat_lt
  unfold be16Val
  omega

theorem be16Val_be16 {n : Nat} (h : n < 65536) :
    be16Val (UInt8.ofNat (n / 256)) (UInt8.ofNat n) = n := by
  simp only [be16Val, UInt8.toNat_ofNat']
  omega

end GhNet
