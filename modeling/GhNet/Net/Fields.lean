import GhNet.Infra.Run
import GhNet.Net.CmdPacket

/-!
# The fields of a packet

What is written into a packet field by field is read back field by field, from the packet itself or
from another one that was given its bytes.

Each write appends the encoding of its field to what was written, and each read takes the encoding
of its field off the front of what is not read yet. So the order of the fields is all that the two
sides have to agree on.
-/

namespace GhNet.Net

open GhNet

/-! ## Numbers -/

theorem ntohs_be16 {n : Nat} (h : n < 65536) : CmdPacket.ntohs (be16 n) = n := be16Val_be16 h

theorem ntohl_be32 (l : UInt32) : CmdPacket.ntohl (CmdPacket.be32 l) = l := by
  apply UInt32.toBitVec_inj.mp
  apply BitVec.eq_of_getLsbD_eq
  intro i hi
  simp only [CmdPacket.ntohl, CmdPacket.be32, UInt32.toBitVec_or, UInt32.toBitVec_shiftLeft,
    UInt8.toBitVec_toUInt32, UInt32.toBitVec_toUInt8, UInt32.toBitVec_shiftRight]
  -- the byte that the bit is in
  by_cases h8 : i < 8
  · simp [h8, show i < 16 by omega, show i < 24 by omega, hi]
  by_cases h16 : i < 16
  · simp [h8, h16, show i < 24 by omega, hi, show i - 8 < 8 by omega, show i - 8 < 32 by omega,
      show 8 + (i - 8) = i by omega]
  by_cases h24 : i < 24
  · simp [h8, h16, h24, hi, show ¬i - 8 < 8 by omega, show i - 16 < 8 by omega,
      show i - 16 < 32 by omega, show 16 + (i - 16) = i by omega]
  · simp [h8, h16, h24, hi, show ¬i - 8 < 8 by omega, show ¬i - 16 < 8 by omega,
      show i - 24 < 8 by omega, show i - 24 < 32 by omega, show 24 + (i - 24) = i by omega]

theorem int16_ofNat_toUInt16 (s : Int16) : Int16.ofNat s.toUInt16.toNat = s := by
  apply Int16.toBitVec_inj.mp
  simp

/-- A length that is not too large for a `short` comes back as it was. -/
theorem toInt_short {n : Nat} (h : n ≤ 32767) : (Int16.ofNat n).toInt = n :=
  Int16.toInt_ofNat_of_lt (by omega)

theorem be16_short (n : Nat) : be16 (Int16.ofNat n).toUInt16.toNat = be16 (n % 65536) := by
  simp

namespace CmdPacket

variable {p p' : CmdPacket}

/-! ## Writing -/

/-- A write that succeeded has appended its bytes. -/
theorem writeData_true {data : Bytes} (h : p.Writing) (ht : p.writeData data = (true, p')) :
    p'.Writing ∧ p'.written = p.written ++ data := by
  by_cases hfits : p.m_nLen + data.length ≤ p.m_nMaxSize
  · obtain ⟨p₁, heq, hw, hwritten, -, -⟩ := writeData_spec h hfits
    rw [heq] at ht
    obtain ⟨-, rfl⟩ := Prod.mk.inj ht
    exact ⟨hw, hwritten⟩
  · rw [writeData, if_pos (Nat.lt_of_not_le hfits)] at ht
    cases (Prod.mk.inj ht).1

/-! ## Reading -/

/-- The packet is being read: its pointer leads to as many bytes as it says, and the cursor is
among them. -/
structure Reading (p : CmdPacket) : Prop where
  pointed : p.getReadData ≠ none
  holds : p.m_nLen ≤ (p.getReadData.getD []).length
  cursor : p.m_nReadOffset ≤ p.m_nLen

/-- The bytes behind the cursor. -/
def unread (p : CmdPacket) : Bytes :=
  slice (p.getReadData.getD []) p.m_nReadOffset (p.m_nLen - p.m_nReadOffset)

/-- The packet with its cursor moved on. -/
def advance (p : CmdPacket) (n : Nat) : CmdPacket := { p with m_nReadOffset := p.m_nReadOffset + n }

@[simp] theorem getReadData_advance (n : Nat) : (p.advance n).getReadData = p.getReadData := rfl
@[simp] theorem m_nLen_advance (n : Nat) : (p.advance n).m_nLen = p.m_nLen := rfl
@[simp] theorem m_nReadOffset_advance (n : Nat) :
    (p.advance n).m_nReadOffset = p.m_nReadOffset + n := rfl

theorem Reading.length_unread (h : p.Reading) : p.unread.length = p.m_nLen - p.m_nReadOffset := by
  have h1 := h.holds
  have h2 := h.cursor
  exact length_slice (by omega)

/-- A packet that was read to the end. -/
theorem Reading.atEnd (h : p.Reading) (hend : p.unread = []) : p.m_nReadOffset = p.m_nLen := by
  have hlen := h.length_unread
  have hcursor := h.cursor
  rw [hend, List.length_nil] at hlen
  omega

theorem Reading.advance {n : Nat} (h : p.Reading) (hn : n ≤ p.unread.length) :
    (p.advance n).Reading ∧ (p.advance n).unread = p.unread.drop n := by
  rw [h.length_unread] at hn
  have hcursor := h.cursor
  refine ⟨⟨h.pointed, h.holds, ?_⟩, ?_⟩
  · rw [m_nReadOffset_advance, m_nLen_advance]
    omega
  · rw [unread, unread, getReadData_advance, m_nReadOffset_advance, m_nLen_advance, ← slice_add,
      Nat.sub_add_eq]

/-- **`ReadData`** takes bytes off the front, if they are there. -/
theorem readData_eq (h : p.Reading) (len : Nat) :
    p.readData len =
      if len ≤ p.unread.length then (some (p.unread.take len), p.advance len) else (none, p) := by
  have hcursor := h.cursor
  obtain ⟨buf, hbuf⟩ := Option.ne_none_iff_exists'.mp h.pointed
  rw [h.length_unread, readData]
  by_cases hlen : p.m_nReadOffset + len > p.m_nLen
  · rw [if_pos hlen, if_neg (by omega)]
  · have hslice : slice buf p.m_nReadOffset len = p.unread.take len := by
      rw [unread, hbuf, Option.getD_some, slice, slice, List.take_take, Nat.min_eq_left (by omega)]
    rw [if_neg hlen, if_pos (by omega), hbuf, Option.map_some, hslice]
    rfl

theorem readData_append (h : p.Reading) {data rest : Bytes} (hun : p.unread = data ++ rest) :
    p.readData data.length = (some data, p.advance data.length) ∧
      (p.advance data.length).Reading ∧ (p.advance data.length).unread = rest := by
  have hle : data.length ≤ p.unread.length := by
    rw [hun, List.length_append]
    exact Nat.le_add_right _ _
  obtain ⟨hr, hrest⟩ := h.advance hle
  rw [readData_eq h, if_pos hle]
  rw [hun, List.drop_left] at hrest
  exact ⟨by rw [hun, List.take_left], hr, hrest⟩

theorem readShort_append (h : p.Reading) {n : Nat} {rest : Bytes} (hn : n < 65536)
    (hun : p.unread = be16 n ++ rest) :
    p.readShort = (some (Int16.ofNat n), p.advance 2) ∧ (p.advance 2).Reading ∧
      (p.advance 2).unread = rest := by
  obtain ⟨hread, hr, hrest⟩ := readData_append h hun
  refine ⟨?_, hr, hrest⟩
  have hread : p.readData SHORT_SIZE = (some (be16 n), p.advance 2) := hread
  rw [readShort, hread]
  simp only [Option.map_some, ntohs_be16 hn]

/-- Behind the last byte every read fails. -/
theorem readData_atEnd (h : p.Reading) (hend : p.unread = []) {len : Nat} (hlen : 0 < len) :
    p.readData len = (none, p) := by
  rw [readData_eq h, hend, if_neg (by simpa using Nat.pos_iff_ne_zero.mp hlen)]

/-- Behind the cursor stands what is not read yet, and then what is not of the packet. -/
theorem Reading.drop_eq (h : p.Reading) {buf : Bytes} (hbuf : p.getReadData = some buf) :
    buf.drop p.m_nReadOffset = p.unread ++ buf.drop p.m_nLen := by
  have hcursor := h.cursor
  rw [unread, hbuf, Option.getD_some, slice]
  conv_lhs => rw [← List.take_append_drop (p.m_nLen - p.m_nReadOffset) (buf.drop p.m_nReadOffset)]
  rw [List.drop_drop, show p.m_nReadOffset + (p.m_nLen - p.m_nReadOffset) = p.m_nLen by omega]

/-- Setting a byte to what it is changes nothing. -/
theorem pokeRead_same {buf : Bytes} {off : Nat} {c : UInt8} (hbuf : p.getReadData = some buf)
    (hoff : off + 1 ≤ buf.length) (hc : slice buf off 1 = [c]) : p.pokeRead off c = p := by
  have hsame : overwrite buf off [c] = buf := by
    rw [← hc]
    exact overwrite_slice hoff
  obtain ⟨data, ptr, len, readOffset, writeOffset⟩ := p
  cases ptr with
  | own =>
    obtain rfl := Option.some.inj hbuf
    simp only [pokeRead, hsame]
  | bytes b =>
    obtain rfl := Option.some.inj hbuf
    simp only [pokeRead, hsame]
  | unset => rfl
  | freed => rfl

/-- A string ends in front of its terminator. -/
theorem takeWhile_terminated (s : CString) (rest : Bytes) :
    (s.val ++ 0 :: rest).takeWhile (· ≠ 0) = s.val := by
  rw [List.takeWhile_append_of_pos]
  · simp
  · intro c hc
    exact decide_eq_true fun h0 => s.property (h0 ▸ hc)

/-- It ends there at the latest. -/
theorem length_takeWhile_le (front rest : Bytes) :
    ((front ++ 0 :: rest).takeWhile (· ≠ 0)).length ≤ front.length := by
  induction front with
  | nil => exact Nat.le_of_eq rfl
  | cons c front ih =>
    rw [List.cons_append, List.takeWhile_cons]
    split
    · exact Nat.succ_le_succ ih
    · exact Nat.zero_le _

/-- The string ends where its terminator is, and setting that again changes nothing. -/
theorem readString_append (h : p.Reading) (s : CString) {rest : Bytes}
    (hs : s.val.length + 1 ≤ 32767)
    (hun : p.unread = be16 (s.val.length + 1) ++ (s.val ++ 0 :: rest)) :
    p.readString = (some s.val, p.advance (s.val.length + 3)) ∧
      (p.advance (s.val.length + 3)).Reading ∧ (p.advance (s.val.length + 3)).unread = rest := by
  obtain ⟨hshort, hr₁, hun₁⟩ := readShort_append h (by omega) hun
  have hlen : (Int16.ofNat (s.val.length + 1)).toInt = (s.val.length + 1 : Nat) := toInt_short hs
  have hfits := hr₁.length_unread
  rw [hun₁, List.length_append, List.length_cons] at hfits
  obtain ⟨buf, hbuf⟩ := Option.ne_none_iff_exists'.mp hr₁.pointed
  have hholds := hr₁.holds
  have hdrop := hr₁.drop_eq hbuf
  rw [hun₁, List.append_assoc, List.cons_append] at hdrop
  rw [hbuf, Option.getD_some] at hholds
  have hpoke : (p.advance 2).pokeRead ((p.advance 2).m_nReadOffset + s.val.length) 0
      = p.advance 2 := by
    refine pokeRead_same hbuf (by omega) ?_
    rw [slice, ← List.drop_drop, hdrop, List.drop_left]
    rfl
  have hread : p.readString = (some s.val, (p.advance 2).advance (s.val.length + 1)) := by
    rw [readString, hshort]
    simp only [hlen]
    rw [if_neg (by omega), if_neg (by omega), Int.toNat_natCast, Nat.add_succ_sub_one, hpoke, hbuf,
      Option.map_some, hdrop, takeWhile_terminated]
    rfl
  obtain ⟨hr, hrest⟩ := hr₁.advance (n := s.val.length + 1)
    (by rw [hun₁, List.length_append, List.length_cons]; omega)
  rw [hun₁, ← List.drop_drop, List.drop_left] at hrest
  have hadd : (p.advance 2).advance (s.val.length + 1) = p.advance (s.val.length + 3) := by
    rw [advance, advance, advance]
    simp only [Nat.add_assoc, Nat.add_comm 2]
  rw [hadd] at hread hr hrest
  exact ⟨hread, hr, hrest⟩

theorem getReadData_pokeRead {buf : Bytes} (off : Nat) (c : UInt8)
    (hbuf : p.getReadData = some buf) :
    (p.pokeRead off c).getReadData = some (overwrite buf off [c]) := by
  obtain ⟨data, ptr, len, readOffset, writeOffset⟩ := p
  cases ptr with
  | own =>
    obtain rfl := Option.some.inj hbuf
    rfl
  | bytes b =>
    obtain rfl := Option.some.inj hbuf
    rfl
  | unset => cases hbuf
  | freed => cases hbuf

@[simp] theorem m_nReadOffset_pokeRead (off : Nat) (c : UInt8) (p : CmdPacket) :
    (p.pokeRead off c).m_nReadOffset = p.m_nReadOffset := by
  unfold pokeRead
  split <;> rfl

/-- A string is shorter than its length says: the last byte is taken for the terminator. -/
theorem length_readString_lt (h : p.Reading) {data rest str : Bytes} (hdata : data.length ≤ 32767)
    (hun : p.unread = be16 data.length ++ (data ++ rest)) (hstr : p.readString.1 = some str) :
    str.length < data.length := by
  obtain ⟨hshort, hr₁, hun₁⟩ := readShort_append h (by omega) hun
  have hlen : (Int16.ofNat data.length).toInt = (data.length : Nat) := toInt_short hdata
  have hfits := hr₁.length_unread
  rw [hun₁, List.length_append] at hfits
  obtain ⟨buf, hbuf⟩ := Option.ne_none_iff_exists'.mp hr₁.pointed
  have hholds := hr₁.holds
  rw [hbuf, Option.getD_some] at hholds
  rw [readString, hshort] at hstr
  simp only [hlen] at hstr
  split at hstr
  · cases hstr
  · split at hstr
    · cases hstr
    · next hpos _ =>
      have hpos' : 0 < data.length := by omega
      rw [Int.toNat_natCast, m_nReadOffset_pokeRead,
        getReadData_pokeRead _ _ hbuf, Option.map_some] at hstr
      obtain rfl := Option.some.inj hstr
      -- the terminator that was set
      rw [overwrite_eq (by simp only [List.length_singleton]; omega), List.append_assoc,
        List.drop_append_of_le_length (by rw [List.length_take]; omega)]
      refine Nat.lt_of_le_of_lt (length_takeWhile_le _ _) ?_
      rw [List.length_drop, List.length_take]
      omega

theorem readBinary_append (h : p.Reading) {data rest : Bytes} (hpos : 0 < data.length)
    (hdata : data.length ≤ 32767) (hun : p.unread = be16 data.length ++ (data ++ rest)) :
    p.readBinary = (some data, p.advance (data.length + 2)) ∧
      (p.advance (data.length + 2)).Reading ∧ (p.advance (data.length + 2)).unread = rest := by
  obtain ⟨hshort, hr₁, hun₁⟩ := readShort_append h (by omega) hun
  obtain ⟨hread, hr, hrest⟩ := readData_append hr₁ hun₁
  have hlen : (Int16.ofNat data.length).toInt = (data.length : Nat) := toInt_short hdata
  have hfits := hr₁.length_unread
  rw [hun₁, List.length_append] at hfits
  obtain ⟨buf, hbuf⟩ := Option.ne_none_iff_exists'.mp hr₁.pointed
  have hdrop := hr₁.drop_eq hbuf
  rw [hun₁, List.append_assoc] at hdrop
  have hread : p.readBinary = (some data, (p.advance 2).advance data.length) := by
    rw [readBinary, hshort]
    simp only [hlen]
    rw [if_neg (by omega), if_neg (by omega), Int.toNat_natCast, hbuf, Option.map_some, slice, hdrop,
      List.take_left]
    rfl
  have hadd : (p.advance 2).advance data.length = p.advance (data.length + 2) := by
    rw [advance, advance, advance]
    simp only [Nat.add_assoc, Nat.add_comm 2]
  rw [hadd] at hread hr hrest
  exact ⟨hread, hr, hrest⟩

end CmdPacket

/-! ## Fields -/

/-- A field of a packet, with the value that is written. -/
inductive Field
  | byte (c : UInt8)
  | short (s : Int16)
  | ushort (s : UInt16)
  | int (l : Int32)
  | uint (l : UInt32)
  | float (f : FloatBytes)
  | string (str : CString)
  | binary (data : Bytes)

/-- What a read is asked for. -/
inductive Kind
  | byte | short | ushort | int | uint | float | string | binary
  deriving DecidableEq

/-- What a read yields. -/
inductive Value
  | byte (c : UInt8)
  | short (s : Int16)
  | ushort (s : Nat)
  | int (l : Int32)
  | uint (l : UInt32)
  | float (f : Bytes)
  | string (str : Bytes)
  | binary (data : Bytes)
  deriving DecidableEq

namespace Field

/-- The call that reads the field. -/
def kind : Field → Kind
  | .byte _ => .byte
  | .short _ => .short
  | .ushort _ => .ushort
  | .int _ => .int
  | .uint _ => .uint
  | .float _ => .float
  | .string _ => .string
  | .binary _ => .binary

/-- What a call that reads the field should give. -/
def value : Field → Value
  | .byte c => .byte c
  | .short s => .short s
  | .ushort s => .ushort s.toNat
  | .int l => .int l
  | .uint l => .uint l
  | .float f => .float f.val
  | .string str => .string str.val
  | .binary data => .binary data

/-- The bytes of the field in a packet. -/
def encode : Field → Bytes
  | .byte c => [c]
  | .short s => be16 s.toUInt16.toNat
  | .ushort s => be16 s.toNat
  | .int l => CmdPacket.be32 l.toUInt32
  | .uint l => CmdPacket.be32 l
  | .float f => f.val
  | .string str => be16 (str.val.length + 1) ++ (str.val ++ [0])
  | .binary data => be16 data.length ++ data

/-- The length of the field is a positive `short`. -/
def Sized : Field → Prop
  | .string str => str.val.length + 1 ≤ 32767
  | .binary data => 0 < data.length ∧ data.length ≤ 32767
  | _ => True

/-- The call that writes the field. -/
def write : Field → CmdPacket → Option (Bool × CmdPacket)
  | .byte c, p => some (p.writeByte c)
  | .short s, p => some (p.writeShort s)
  | .ushort s, p => some (p.writeUShort s.toNat)
  | .int l, p => some (p.writeInt l)
  | .uint l, p => some (p.writeUInt l)
  | .float f, p => some (p.writeFloat f)
  | .string str, p => p.writeString str
  | .binary data, p => some (p.writeBinary data)

end Field

/-- The call that reads a field. -/
def Kind.read : Kind → CmdPacket → Option Value × CmdPacket
  | .byte, p => p.readByte.map (Option.map .byte) id
  | .short, p => p.readShort.map (Option.map .short) id
  | .ushort, p => p.readUShort.map (Option.map .ushort) id
  | .int, p => p.readInt.map (Option.map .int) id
  | .uint, p => p.readUInt.map (Option.map .uint) id
  | .float, p => p.readFloat.map (Option.map .float) id
  | .string, p => p.readString.map (Option.map .string) id
  | .binary, p => p.readBinary.map (Option.map .binary) id

/-- Writes a field, if that succeeds. -/
def writeField (p : CmdPacket) (f : Field) : Option CmdPacket :=
  match f.write p with
  | some (true, p') => some p'
  | _ => none

/-- Reads fields one after the other, as long as that succeeds. -/
def readFields : List Kind → CmdPacket → Option (List Value) × CmdPacket
  | [], p => (some [], p)
  | k :: ks, p =>
    match k.read p with
    | (none, p) => (none, p)
    | (some v, p) => (readFields ks p).map (Option.map (v :: ·)) id

open CmdPacket

variable {p p' : CmdPacket}

/-- A binary or a string: the length, and then as many bytes. -/
theorem writeBinary_true {data : Bytes} (h : p.Writing) (hdata : data.length ≤ 32767)
    (ht : p.writeBinary data = (true, p')) :
    p'.Writing ∧ p'.written = p.written ++ (be16 data.length ++ data) := by
  rw [writeBinary] at ht
  cases hs : p.writeShort (Int16.ofNat data.length) with
  | mk ok p₁ =>
    rw [hs] at ht
    cases ok with
    | false => cases (Prod.mk.inj ht).1
    | true =>
      obtain ⟨hw₁, hwritten₁⟩ := writeData_true h hs
      obtain ⟨hw, hwritten⟩ := writeData_true hw₁ ht
      rw [hwritten₁, be16_short, Nat.mod_eq_of_lt (by omega), List.append_assoc] at hwritten
      exact ⟨hw, hwritten⟩

/-- A string whose length is a `short` is written like a binary with its terminator. -/
theorem writeString_eq (str : CString) (h : str.val.length + 1 ≤ 32767) (p : CmdPacket) :
    p.writeString str = some (p.writeBinary (str.val ++ [0])) := by
  have hlen : (Int16.ofNat (str.val.length + 1)).toInt = (str.val.length + 1 : Nat) :=
    toInt_short h
  have htake : (str.val ++ [0]).take (str.val.length + 1) = str.val ++ [0] :=
    List.take_of_length_le (by simp)
  rw [writeString, writeBinary, List.length_append, List.length_singleton]
  simp only [hlen, Int.natCast_nonneg, if_true, Int.toNat_natCast, htake]
  split <;> rfl

/-- **A field that was written is appended.** -/
theorem write_true {f : Field} (h : p.Writing) (hf : f.Sized) (ht : f.write p = some (true, p')) :
    p'.Writing ∧ p'.written = p.written ++ f.encode := by
  cases f with
  | byte c => exact writeData_true h (Option.some.inj ht)
  | short s => exact writeData_true h (Option.some.inj ht)
  | ushort s => exact writeData_true h (Option.some.inj ht)
  | int l => exact writeData_true h (Option.some.inj ht)
  | uint l => exact writeData_true h (Option.some.inj ht)
  | float f => exact writeData_true h (Option.some.inj ht)
  | string str =>
    rw [Field.write, writeString_eq str hf] at ht
    have hlen : (str.val ++ [0]).length = str.val.length + 1 := by simp
    obtain ⟨hw, hwritten⟩ := writeBinary_true h (hlen ▸ hf) (Option.some.inj ht)
    rw [hlen] at hwritten
    exact ⟨hw, hwritten⟩
  | binary data => exact writeBinary_true h hf.2 (Option.some.inj ht)

/-- **A field is read back, and what stands behind it is left.** -/
theorem read_encode {f : Field} {rest : Bytes} (h : p.Reading) (hf : f.Sized)
    (hun : p.unread = f.encode ++ rest) :
    ∃ n, f.kind.read p = (some f.value, p.advance n) ∧ (p.advance n).Reading ∧
      (p.advance n).unread = rest := by
  cases f with
  | byte c =>
    obtain ⟨hread, hr, hrest⟩ := readData_append h hun
    refine ⟨_, ?_, hr, hrest⟩
    have hread : p.readData BYTE_SIZE = _ := hread
    rw [Field.kind, Kind.read, readByte, hread]
    rfl
  | short s =>
    obtain ⟨hread, hr, hrest⟩ := readShort_append h s.toUInt16.toNat_lt hun
    refine ⟨_, ?_, hr, hrest⟩
    rw [Field.kind, Kind.read, hread, int16_ofNat_toUInt16]
    rfl
  | ushort s =>
    obtain ⟨hread, hr, hrest⟩ := readData_append h hun
    refine ⟨_, ?_, hr, hrest⟩
    have hread : p.readData SHORT_SIZE = _ := hread
    rw [Field.kind, Kind.read, readUShort, hread]
    simp only [Option.map_some, Field.encode, ntohs_be16 s.toNat_lt]
    rfl
  | int l =>
    obtain ⟨hread, hr, hrest⟩ := readData_append h hun
    refine ⟨_, ?_, hr, hrest⟩
    have hread : p.readData LONG_SIZE = _ := hread
    rw [Field.kind, Kind.read, readInt, hread]
    simp only [Option.map_some, Field.encode, ntohl_be32]
    simp [Field.value]
  | uint l =>
    obtain ⟨hread, hr, hrest⟩ := readData_append h hun
    refine ⟨_, ?_, hr, hrest⟩
    have hread : p.readData LONG_SIZE = _ := hread
    rw [Field.kind, Kind.read, readUInt, hread]
    simp only [Option.map_some, Field.encode, ntohl_be32]
    rfl
  | float f =>
    obtain ⟨hread, hr, hrest⟩ := readData_append h hun
    refine ⟨_, ?_, hr, hrest⟩
    have hlen : (Field.float f).encode.length = FLOAT_SIZE := f.property
    rw [hlen] at hread ⊢
    rw [Field.kind, Kind.read, readFloat, hread]
    rfl
  | string str =>
    rw [Field.encode, List.append_assoc, List.append_assoc] at hun
    obtain ⟨hread, hr, hrest⟩ := readString_append h str hf hun
    refine ⟨_, ?_, hr, hrest⟩
    rw [Field.kind, Kind.read, hread]
    rfl
  | binary data =>
    rw [Field.encode, List.append_assoc] at hun
    obtain ⟨hread, hr, hrest⟩ := readBinary_append h hf.1 hf.2 hun
    refine ⟨_, ?_, hr, hrest⟩
    rw [Field.kind, Kind.read, hread]
    rfl

/-! ## Lists of fields -/

theorem written_fields {fields : List Field} (h : p.Writing) (hf : ∀ f ∈ fields, f.Sized)
    (hw : exec writeField p fields = some p') :
    p'.Writing ∧ p'.written = p.written ++ fields.flatMap Field.encode := by
  induction fields generalizing p with
  | nil =>
    obtain rfl := Option.some.inj hw
    exact ⟨h, (List.append_nil _).symm⟩
  | cons f fields ih =>
    cases hs : writeField p f with
    | none => rw [exec, hs] at hw; cases hw
    | some p₁ =>
      rw [exec, hs] at hw
      have ht : f.write p = some (true, p₁) := by
        rw [writeField] at hs
        split at hs
        · next heq => rw [heq, Option.some.inj hs]
        · cases hs
      obtain ⟨hw₁, hwritten₁⟩ := write_true h (hf f List.mem_cons_self) ht
      obtain ⟨hw', hwritten⟩ := ih hw₁ (fun g hg => hf g (List.mem_cons_of_mem _ hg)) hw
      rw [hwritten₁, List.append_assoc] at hwritten
      exact ⟨hw', hwritten⟩

theorem read_fields {fields : List Field} {rest : Bytes} (h : p.Reading)
    (hf : ∀ f ∈ fields, f.Sized) (hun : p.unread = fields.flatMap Field.encode ++ rest) :
    ∃ n, readFields (fields.map Field.kind) p = (some (fields.map Field.value), p.advance n) ∧
      (p.advance n).Reading ∧ (p.advance n).unread = rest := by
  induction fields generalizing p with
  | nil => exact ⟨0, rfl, h, hun⟩
  | cons f fields ih =>
    rw [List.flatMap_cons, List.append_assoc] at hun
    obtain ⟨n, hread, hr, hrest⟩ := read_encode h (hf f List.mem_cons_self) hun
    obtain ⟨m, hreads, hr', hrest'⟩ := ih hr (fun g hg => hf g (List.mem_cons_of_mem _ hg)) hrest
    have hadd : (p.advance n).advance m = p.advance (n + m) := by
      rw [advance, advance, advance, Nat.add_assoc]
    rw [hadd] at hreads hr' hrest'
    refine ⟨n + m, ?_, hr', hrest'⟩
    rw [List.map_cons, readFields, hread]
    simp only [hreads]
    rfl

/-- Behind the last field every read fails. -/
theorem read_atEnd (h : p.Reading) (hend : p.unread = []) (k : Kind) : (k.read p).1 = none := by
  have hshort : p.readShort = (none, p) := by
    rw [readShort, readData_atEnd h hend (by decide)]
    rfl
  have hdata : ∀ len, 0 < len → p.readData len = (none, p) := fun len =>
    readData_atEnd h hend
  cases k with
  | byte => rw [Kind.read, readByte, hdata _ (by decide)]; rfl
  | short => rw [Kind.read, hshort]; rfl
  | ushort => rw [Kind.read, readUShort, hdata _ (by decide)]; rfl
  | int => rw [Kind.read, readInt, hdata _ (by decide)]; rfl
  | uint => rw [Kind.read, readUInt, hdata _ (by decide)]; rfl
  | float => rw [Kind.read, readFloat, hdata _ (by decide)]; rfl
  | string => rw [Kind.read, readString, hshort]; rfl
  | binary => rw [Kind.read, readBinary, hshort]; rfl

/-- Reading yields the fields, stops at the end of the `size` bytes, and then nothing more can be
read. -/
def ReadsBack (fields : List Field) (size : Nat) (p : CmdPacket) : Prop :=
  ∃ p', readFields (fields.map Field.kind) p = (some (fields.map Field.value), p') ∧
    p'.m_nReadOffset = size ∧ (∀ len, 0 < len → (p'.readData len).1 = none) ∧
    ∀ k : Kind, (k.read p').1 = none

theorem readsBack_of_unread {fields : List Field} (h : p.Reading) (hf : ∀ f ∈ fields, f.Sized)
    (hun : p.unread = fields.flatMap Field.encode) : ReadsBack fields p.m_nLen p := by
  obtain ⟨n, hreads, hr, hend⟩ := read_fields h hf (hun.trans (List.append_nil _).symm)
  refine ⟨p.advance n, hreads, hr.atEnd hend, fun len hlen => ?_, read_atEnd hr hend⟩
  rw [readData_atEnd hr hend hlen]

/-- **The round trip.** Fields that were written are read back, from the packet itself and from any
packet that was given its bytes. -/
theorem fields_round_trip (p : CmdPacket) (fields : List Field) (hf : ∀ f ∈ fields, f.Sized)
    (hw : exec writeField p.beginWrite fields = some p') :
    ReadsBack fields p'.getDataSize p'.beginReadOwn ∧
      ∀ q : CmdPacket, ReadsBack fields p'.getDataSize
        (q.beginRead p'.m_pData p'.getDataSize) := by
  obtain ⟨hwriting, hwritten⟩ := written_fields (writing_beginWrite p) hf hw
  have hun : slice p'.m_pData 0 (p'.m_nLen - 0) = fields.flatMap Field.encode := hwritten
  constructor
  · exact readsBack_of_unread ⟨by nofun, hwriting.fits, Nat.zero_le _⟩ hf hun
  · intro q
    exact readsBack_of_unread ⟨by nofun, hwriting.fits, Nat.zero_le _⟩ hf hun

/-- One field of each kind. -/
def oneOfEach : List Field :=
  [.byte 7, .short (-2), .ushort 65535, .int (-1), .uint 0xDEADBEEF, .float ⟨[0, 0, 128, 63], rfl⟩,
    .string ⟨[104, 105], by decide⟩, .binary [0, 1, 2]]

theorem sized_oneOfEach : ∀ f ∈ oneOfEach, f.Sized := by
  simp [oneOfEach, Field.Sized]

theorem fields_round_trip_oneOfEach :
    ∃ p', exec writeField ((CmdPacket.new fun _ => 0).setSize 64 fun _ => 0).2.beginWrite oneOfEach
        = some p' ∧
      ReadsBack oneOfEach p'.getDataSize p'.beginReadOwn := by
  have hsome : (exec writeField ((CmdPacket.new fun _ => 0).setSize 64 fun _ => 0).2.beginWrite
      oneOfEach).isSome = true := by decide +kernel
  obtain ⟨p', hw⟩ := Option.isSome_iff_exists.mp hsome
  exact ⟨p', hw, (fields_round_trip _ oneOfEach sized_oneOfEach hw).1⟩

end GhNet.Net
