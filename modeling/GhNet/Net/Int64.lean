import GhNet.Client.CmdPacket
import GhNet.Net.Fields

/-!
# 64-bit fields

`hton64` swaps the halves of a number and the bytes in each, and puts the result together in a
signed 64-bit number. The halves are signed as well: the one that comes last is extended with its
sign, and if it is negative the one in front of it is lost.

So a number passes unharmed only if neither of its two bytes that become the high byte of a half
has its high bit set, or if all its bits are set.
-/

namespace GhNet

/-! ## Words and their halves -/

section Halves

variable (x y : BitVec 32)

/-- Two signed halves put together: a negative low half sets all bits of the high one. -/
theorem signExtend_or :
    (x.signExtend 64 <<< 32) ||| y.signExtend 64 =
      (if y.msb then BitVec.allOnes 32 else x) ++ y := by
  apply BitVec.eq_of_getLsbD_eq
  intro i hi
  rw [BitVec.getLsbD_or, BitVec.getLsbD_shiftLeft, BitVec.getLsbD_signExtend,
    BitVec.getLsbD_signExtend, BitVec.getLsbD_append]
  by_cases h : i < 32
  · simp [h, hi]
  · have h1 : i - 32 < 32 := by omega
    have h2 : i - 32 < 64 := by omega
    by_cases hm : y.msb = true
    · rw [if_pos hm, BitVec.getLsbD_allOnes]
      simp [h, hm, h1, hi]
    · rw [if_neg hm]
      simp [h, hm, h1, h2, hi]

/-- The mask takes the low half. -/
theorem setWidth_mask (v : BitVec 64) :
    (v &&& 0x00000000FFFFFFFF#64).setWidth 32 = v.setWidth 32 := by
  apply BitVec.eq_of_getLsbD_eq
  intro i hi
  rw [show (0x00000000FFFFFFFF#64) = (BitVec.allOnes 32).setWidth 64 from rfl,
    BitVec.getLsbD_setWidth, BitVec.getLsbD_and, BitVec.getLsbD_setWidth, BitVec.getLsbD_allOnes,
    BitVec.getLsbD_setWidth]
  simp [hi, show i < 64 by omega]

theorem low_half : ((x ++ y) &&& 0x00000000FFFFFFFF#64).setWidth 32 = y := by
  rw [setWidth_mask]
  apply BitVec.eq_of_getLsbD_eq
  intro i hi
  rw [BitVec.getLsbD_setWidth, BitVec.getLsbD_append]
  simp [hi]

theorem high_half : (((x ++ y).sshiftRight 32) &&& 0x00000000FFFFFFFF#64).setWidth 32 = x := by
  rw [setWidth_mask]
  apply BitVec.eq_of_getLsbD_eq
  intro i hi
  rw [BitVec.getLsbD_setWidth, BitVec.getLsbD_sshiftRight, BitVec.getLsbD_append]
  simp [hi, show ¬32 + i < 32 by omega, show 32 + i < 64 by omega,
    show i < 64 by omega]

theorem toNat_halves : (x ++ y).toNat = x.toNat * 2 ^ 32 + y.toNat := by
  rw [BitVec.toNat_append, Nat.shiftLeft_eq, Nat.mul_comm, Nat.two_pow_add_eq_or_of_lt y.isLt]

theorem exists_halves (v : BitVec 64) : ∃ x y : BitVec 32, v = x ++ y :=
  ⟨_, _, (@BitVec.extractLsb'_append_extractLsb' 32 32 v).symm⟩

theorem append_inj {x y x' y' : BitVec 32} (h : x ++ y = x' ++ y') : x = x' ∧ y = y' := by
  have hy := congrArg (fun v : BitVec 64 => (v &&& 0x00000000FFFFFFFF#64).setWidth 32) h
  have hx := congrArg (fun v : BitVec 64 =>
    ((v.sshiftRight 32) &&& 0x00000000FFFFFFFF#64).setWidth 32) h
  simp only [low_half, high_half] at hx hy
  exact ⟨hx, hy⟩

end Halves

namespace Net

/-! ## The conversions -/

/-- `htonl` on values, which is also `ntohl`. -/
def htonl (l : BitVec 32) : BitVec 32 := BitVec.ofNat 32 (byteSwap 4 l.toNat)

/-- `hton64`: the halves change places, and so do the bytes in each. -/
def hton64 (val : BitVec 64) : BitVec 64 :=
  let low : BitVec 32 := (val &&& 0x00000000FFFFFFFF#64).setWidth 32
  let val := val.sshiftRight 32
  let high : BitVec 32 := (val &&& 0x00000000FFFFFFFF#64).setWidth 32
  let low := htonl low
  let high := htonl high
  let nRet : BitVec 64 := low.signExtend 64
  let nRet := nRet <<< 32
  nRet ||| high.signExtend 64

/-- It is written once more, with `ntohl`. -/
def ntoh64 (val : BitVec 64) : BitVec 64 :=
  let low : BitVec 32 := (val &&& 0x00000000FFFFFFFF#64).setWidth 32
  let val := val.sshiftRight 32
  let high : BitVec 32 := (val &&& 0x00000000FFFFFFFF#64).setWidth 32
  let low := htonl low
  let high := htonl high
  let nRet : BitVec 64 := low.signExtend 64
  let nRet := nRet <<< 32
  nRet ||| high.signExtend 64

/-- The number with its eight bytes in reverse. -/
def byteReverse (v : BitVec 64) : BitVec 64 := BitVec.ofNat 64 (byteSwap 8 v.toNat)

namespace CmdPacket

/-- `WriteInt64(l)` -/
def writeInt64 (l : Int64) (p : CmdPacket) : Bool × CmdPacket :=
  p.writeData (leBytes LONGLONG_SIZE (hton64 l.toBitVec).toNat)

/-- `WriteUInt64(l)` -/
def writeUInt64 (l : UInt64) (p : CmdPacket) : Bool × CmdPacket :=
  p.writeData (leBytes LONGLONG_SIZE (hton64 l.toBitVec).toNat)

/-- `ReadInt64(l)` -/
def readInt64 (p : CmdPacket) : Option Int64 × CmdPacket :=
  match p.readData LONGLONG_SIZE with
  | (ret, p) => (ret.map fun b => Int64.ofBitVec (ntoh64 (BitVec.ofNat 64 (ofLeBytes b))), p)

/-- `ReadUInt64(l)` -/
def readUInt64 (p : CmdPacket) : Option UInt64 × CmdPacket :=
  match p.readData LONGLONG_SIZE with
  | (ret, p) => (ret.map fun b => UInt64.ofBitVec (ntoh64 (BitVec.ofNat 64 (ofLeBytes b))), p)

end CmdPacket

/-! ## What they come to -/

theorem toNat_htonl (l : BitVec 32) : (htonl l).toNat = byteSwap 4 l.toNat := by
  rw [htonl, BitVec.toNat_ofNat]
  exact Nat.mod_eq_of_lt (byteSwap_lt 4 l.toNat)

@[simp] theorem htonl_htonl (l : BitVec 32) : htonl (htonl l) = l := by
  apply BitVec.eq_of_toNat_eq
  rw [toNat_htonl, toNat_htonl, byteSwap_byteSwap l.isLt]

@[simp] theorem htonl_allOnes : htonl (BitVec.allOnes 32) = BitVec.allOnes 32 := by decide

/-- The sign is the high bit of the low byte. -/
theorem msb_htonl (l : BitVec 32) : (htonl l).msb = l.getLsbD 7 := by
  have hlow := byteSwap_lt 3 (l.toNat / 256)
  have hsucc := byteSwap_succ 3 l.toNat
  rw [BitVec.msb_eq_decide, toNat_htonl, BitVec.getLsbD, Nat.testBit_eq_decide_div_mod_eq]
  congr 1
  rw [eq_iff_iff, hsucc]
  constructor <;> intro h <;> omega

/-- **`hton64`** swaps the halves, and loses one if the other is negative. -/
theorem hton64_halves (x y : BitVec 32) :
    hton64 (x ++ y) = (if (htonl x).msb then BitVec.allOnes 32 else htonl y) ++ htonl x := by
  rw [hton64]
  simp only [low_half, high_half, signExtend_or]

theorem ntoh64_eq (v : BitVec 64) : ntoh64 v = hton64 v := rfl

theorem byteReverse_halves (x y : BitVec 32) : byteReverse (x ++ y) = htonl y ++ htonl x := by
  apply BitVec.eq_of_toNat_eq
  have hlt : byteSwap 8 (x ++ y).toNat < 2 ^ 64 := byteSwap_lt 8 _
  have hx := x.isLt
  have hy := y.isLt
  rw [byteReverse, BitVec.toNat_ofNat, Nat.mod_eq_of_lt hlt, toNat_halves, toNat_halves,
    toNat_htonl, toNat_htonl, byteSwap_add 4 4, ← byteSwap_mod 4 (x.toNat * 2 ^ 32 + y.toNat)]
  have hhigh : (x.toNat * 2 ^ 32 + y.toNat) / 256 ^ 4 = x.toNat := by omega
  have hlow : (x.toNat * 2 ^ 32 + y.toNat) % 256 ^ 4 = y.toNat := by omega
  rw [hhigh, hlow]
  omega

/-- The two bits that become the sign of a half. -/
def Unsigned (v : BitVec 64) : Prop := v.getLsbD 31 = false ∧ v.getLsbD 39 = false

theorem unsigned_halves (x y : BitVec 32) :
    Unsigned (x ++ y) ↔ y.msb = false ∧ (htonl x).msb = false := by
  rw [Unsigned, BitVec.getLsbD_append, BitVec.getLsbD_append, msb_htonl,
    BitVec.msb_eq_getLsbD_last]
  rfl

/-- **The two conversions give a number back** if neither sign is set, or if all bits are. -/
theorem ntoh64_hton64_iff (v : BitVec 64) :
    ntoh64 (hton64 v) = v ↔ Unsigned v ∨ v = BitVec.allOnes 64 := by
  obtain ⟨x, y, rfl⟩ := exists_halves v
  have hones : BitVec.allOnes 64 = BitVec.allOnes 32 ++ BitVec.allOnes 32 := by decide
  rw [ntoh64_eq, unsigned_halves, hones, hton64_halves]
  by_cases hx : (htonl x).msb = true
  · -- the low half is lost, and its place is taken by set bits
    rw [if_pos hx, hton64_halves, htonl_allOnes, htonl_htonl, if_pos (by decide)]
    constructor
    · intro h
      obtain ⟨h1, h2⟩ := append_inj h
      exact Or.inr (by rw [← h1, ← h2])
    · rintro (⟨-, h⟩ | h)
      · rw [hx] at h
        cases h
      · exact h.symm
  · rw [if_neg hx, hton64_halves, htonl_htonl, htonl_htonl]
    constructor
    · intro h
      refine Or.inl ⟨?_, Bool.eq_false_iff.mpr hx⟩
      by_contra hy
      rw [if_pos (by simpa using hy)] at h
      obtain ⟨h1, -⟩ := append_inj h
      rw [← h1, htonl_allOnes] at hx
      exact hx (by decide)
    · rintro (⟨hy, -⟩ | h)
      · rw [if_neg (by rw [hy]; exact Bool.false_ne_true)]
      · obtain ⟨rfl, -⟩ := append_inj h
        rw [htonl_allOnes] at hx
        exact absurd (by decide) hx

/-- The bytes are then in reverse. -/
theorem hton64_eq_byteReverse {v : BitVec 64} (h : Unsigned v ∨ v = BitVec.allOnes 64) :
    hton64 v = byteReverse v := by
  rcases h with h | rfl
  · obtain ⟨x, y, rfl⟩ := exists_halves v
    obtain ⟨-, hx⟩ := (unsigned_halves x y).mp h
    rw [hton64_halves, byteReverse_halves, if_neg (by rw [hx]; exact Bool.false_ne_true)]
  · decide

/-! ## Fields -/

/-- The eight bytes of a number on the wire. -/
def be64 (v : BitVec 64) : Bytes := (leBytes LONGLONG_SIZE v.toNat).reverse

/-- The number passes from one packet to another, as signed and as unsigned, and the client writes
the same bytes. -/
structure Passes (v : BitVec 64) : Prop where
  reversed : hton64 v = byteReverse v
  back : ntoh64 (hton64 v) = v
  written : ∀ p : CmdPacket, p.Writing → p.m_nLen + LONGLONG_SIZE ≤ p.m_nMaxSize →
    ((p.writeInt64 (.ofBitVec v)).1 = true ∧
        (p.writeInt64 (.ofBitVec v)).2.written = p.written ++ be64 v) ∧
      (p.writeUInt64 (.ofBitVec v)).1 = true ∧
        (p.writeUInt64 (.ofBitVec v)).2.written = p.written ++ be64 v
  client : ∀ w : Client.WriteData,
    w.writeInt64 (.ofBitVec v) = w ++ be64 v ∧ w.writeUInt64 (.ofBitVec v) = w ++ be64 v
  read : ∀ (p : CmdPacket) (rest : Bytes), p.Reading → p.unread = be64 v ++ rest →
    p.readInt64.1 = some (.ofBitVec v) ∧ p.readUInt64.1 = some (.ofBitVec v)

@[simp] theorem length_be64 (v : BitVec 64) : (be64 v).length = LONGLONG_SIZE := by
  rw [be64, List.length_reverse, length_leBytes]

/-- The bytes in memory of the number in reverse. -/
theorem leBytes_byteReverse (v : BitVec 64) :
    leBytes LONGLONG_SIZE (byteReverse v).toNat = be64 v := by
  have hlt : byteSwap LONGLONG_SIZE v.toNat < 2 ^ 64 := byteSwap_lt LONGLONG_SIZE _
  rw [byteReverse, BitVec.toNat_ofNat]
  show leBytes LONGLONG_SIZE (byteSwap LONGLONG_SIZE v.toNat % 2 ^ 64) = _
  rw [Nat.mod_eq_of_lt hlt, leBytes_byteSwap, be64]

/-- **A 64-bit number passes** exactly if neither of the two bits is set, or if all bits are. -/
theorem passes_iff (v : BitVec 64) : Passes v ↔ Unsigned v ∨ v = BitVec.allOnes 64 := by
  refine ⟨fun h => (ntoh64_hton64_iff v).mp h.back, fun h => ?_⟩
  have hrev := hton64_eq_byteReverse h
  have hback := (ntoh64_hton64_iff v).mpr h
  have hbytes : leBytes LONGLONG_SIZE (hton64 v).toNat = be64 v := by
    rw [hrev, leBytes_byteReverse]
  refine ⟨hrev, hback, fun p hw hfits => ?_, fun w => ?_, fun p rest hr hun => ?_⟩
  · obtain ⟨p', heq, -, hwritten, -, -⟩ := CmdPacket.writeData_spec hw
      (show p.m_nLen + (be64 v).length ≤ p.m_nMaxSize by rw [length_be64]; exact hfits)
    have hsigned : p.writeInt64 (.ofBitVec v) = (true, p') := by
      rw [← heq, ← hbytes]
      rfl
    have hunsigned : p.writeUInt64 (.ofBitVec v) = (true, p') := by
      rw [← heq, ← hbytes]
      rfl
    simp only [hsigned, hunsigned, hwritten, and_self]
  · exact ⟨Client.WriteData.addNumber_eq .., Client.WriteData.addNumber_eq ..⟩
  · obtain ⟨hread, -, -⟩ := CmdPacket.readData_append hr hun
    rw [length_be64] at hread
    have hvalue : ntoh64 (BitVec.ofNat 64 (ofLeBytes (be64 v))) = v := by
      rw [hrev] at hback
      exact hback
    rw [CmdPacket.readInt64, CmdPacket.readUInt64, hread]
    simp only [Option.map_some, hvalue, and_self]

/-- **`2^31` comes back negative.** -/
theorem not_all_pass : ¬∀ v, Passes v := by
  intro h
  exact absurd (h 0x80000000#64).back (by decide)

end Net

end GhNet
