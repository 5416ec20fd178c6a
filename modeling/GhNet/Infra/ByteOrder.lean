import Mathlib.Algebra.Ring.Nat
import Mathlib.Tactic.Common
import GhNet.Infra.Bytes

/-!
# Words in memory

A word of `n` bytes lies in the memory of a little-endian machine with its low byte first:
`leBytes n v`. Reading the bytes back is `ofLeBytes`, and `byteSwap n v` is the word whose bytes are
those of `v` in reverse, which is what the conversion to network byte order does to it.
-/

namespace GhNet

/-- The `n` low bytes of `v`, low byte first. -/
def leBytes : (n v : Nat) → Bytes
  | 0, _ => []
  | n + 1, v => UInt8.ofNat v :: leBytes n (v / 256)

/-- The value of bytes in memory, low byte first. -/
def ofLeBytes : Bytes → Nat
  | [] => 0
  | b :: bs => b.toNat + 256 * ofLeBytes bs

@[simp] theorem length_leBytes (n v : Nat) : (leBytes n v).length = n := by
  induction n generalizing v with
  | zero => rfl
  | succ n ih => simp only [leBytes, List.length_cons, ih]

theorem ofLeBytes_lt (bs : Bytes) : ofLeBytes bs < 256 ^ bs.length := by
  induction bs with
  | nil => exact Nat.one_pos
  | cons b bs ih =>
    have hb := b.toNat_lt
    rw [ofLeBytes, List.length_cons, Nat.pow_succ]
    omega

/-- The bytes of a word have the value of the word. -/
theorem ofLeBytes_leBytes (n v : Nat) : ofLeBytes (leBytes n v) = v % 256 ^ n := by
  induction n generalizing v with
  | zero => rw [Nat.pow_zero, Nat.mod_one]; rfl
  | succ n ih =>
    have hlow : (UInt8.ofNat v).toNat = v % 256 := UInt8.toNat_ofNat'
    rw [leBytes, ofLeBytes, ih, hlow, Nat.pow_succ', Nat.mod_mul]

/-- The word that bytes make has those bytes. -/
theorem leBytes_ofLeBytes (bs : Bytes) : leBytes bs.length (ofLeBytes bs) = bs := by
  induction bs with
  | nil => rfl
  | cons b bs ih =>
    have hb := b.toNat_lt
    have hhead : UInt8.ofNat (b.toNat + 256 * ofLeBytes bs) = b := by
      apply UInt8.toNat_inj.mp
      rw [UInt8.toNat_ofNat']
      omega
    have htail : (b.toNat + 256 * ofLeBytes bs) / 256 = ofLeBytes bs := by omega
    rw [List.length_cons, ofLeBytes, leBytes, hhead, htail, ih]

/-- What is above the `n` bytes is not in memory. -/
theorem leBytes_mod (n v : Nat) : leBytes n (v % 256 ^ n) = leBytes n v := by
  have h := leBytes_ofLeBytes (leBytes n v)
  rwa [length_leBytes, ofLeBytes_leBytes] at h

theorem ofLeBytes_append (xs ys : Bytes) :
    ofLeBytes (xs ++ ys) = ofLeBytes xs + 256 ^ xs.length * ofLeBytes ys := by
  induction xs with
  | nil => simp [ofLeBytes]
  | cons x xs ih =>
    rw [List.cons_append, ofLeBytes, ofLeBytes, ih, List.length_cons, Nat.pow_succ', Nat.mul_add,
      Nat.mul_assoc, Nat.add_assoc]

/-- The high bytes of a word are those of its high part. -/
theorem leBytes_add (m n v : Nat) : leBytes (m + n) v = leBytes m v ++ leBytes n (v / 256 ^ m) := by
  induction m generalizing v with
  | zero => rw [Nat.zero_add, Nat.pow_zero, Nat.div_one]; rfl
  | succ m ih =>
    rw [Nat.succ_add, leBytes, leBytes, ih, List.cons_append, Nat.div_div_eq_div_mul, Nat.pow_succ']

/-! ## The other byte order -/

/-- The word of `n` bytes with the bytes of `v` in reverse. -/
def byteSwap (n v : Nat) : Nat := ofLeBytes (leBytes n v).reverse

theorem byteSwap_lt (n v : Nat) : byteSwap n v < 256 ^ n := by
  have h := ofLeBytes_lt (leBytes n v).reverse
  rwa [List.length_reverse, length_leBytes] at h

@[simp] theorem leBytes_byteSwap (n v : Nat) :
    leBytes n (byteSwap n v) = (leBytes n v).reverse := by
  have h := leBytes_ofLeBytes (leBytes n v).reverse
  rwa [List.length_reverse, length_leBytes] at h

/-- What is above the `n` bytes does not count. -/
theorem byteSwap_mod (n v : Nat) : byteSwap n (v % 256 ^ n) = byteSwap n v := by
  rw [byteSwap, leBytes_mod, byteSwap]

/-- Two swaps are none. -/
theorem byteSwap_byteSwap {n v : Nat} (h : v < 256 ^ n) : byteSwap n (byteSwap n v) = v := by
  rw [byteSwap, leBytes_byteSwap, List.reverse_reverse, ofLeBytes_leBytes, Nat.mod_eq_of_lt h]

/-- Swapping the whole swaps the parts and what is in them. -/
theorem byteSwap_add (m n v : Nat) :
    byteSwap (m + n) v = byteSwap n (v / 256 ^ m) + 256 ^ n * byteSwap m v := by
  rw [byteSwap, leBytes_add, List.reverse_append, ofLeBytes_append, List.length_reverse,
    length_leBytes]
  rfl

/-- The low byte becomes the high one. -/
theorem byteSwap_succ (n v : Nat) :
    byteSwap (n + 1) v = byteSwap n (v / 256) + 256 ^ n * (v % 256) := by
  have hone : byteSwap 1 v = v % 256 := by
    rw [byteSwap, leBytes, leBytes, List.reverse_singleton, ofLeBytes, ofLeBytes,
      UInt8.toNat_ofNat']
    rfl
  rw [Nat.add_comm n 1, byteSwap_add, hone, Nat.pow_one]

/-- `be16` is the word with its high byte first. -/
theorem be16_eq (n : Nat) : be16 n = (leBytes 2 n).reverse := rfl

end GhNet
