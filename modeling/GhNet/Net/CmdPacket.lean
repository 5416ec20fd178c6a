import GhNet.Infra.ByteOrder

/-!
# `CmdPacket`

The packet of `libnet`: a block of memory that is written from the front, and a pointer to the
bytes that are read, which may belong to somebody else.

Memory that was not written is indeterminate. An operation that reads such memory, or that reads
behind a block, takes what is there as an argument. The lengths are those of blocks of one 32-bit
process, whose sums do not overflow an `int`.
-/

namespace GhNet.Net

open GhNet

/-- The block of a new packet. -/
def DEFAULT_CMD_PACKET_SIZE : Nat := 1024

/-- The largest block. -/
def MAX_CMD_PACKET_SIZE : Nat := 1024 * 16

/-- The length of a byte field. -/
def BYTE_SIZE : Nat := 1

/-- The length of an `int` field. -/
def LONG_SIZE : Nat := 4

/-- The length of a `short` field. -/
def SHORT_SIZE : Nat := 2

/-- The length of a `float` field. -/
def FLOAT_SIZE : Nat := 4

/-- The length of a 64-bit field. -/
def LONGLONG_SIZE : Nat := 8

/-- The bytes that happen to be at the addresses from some address on. -/
abbrev Memory := Nat → UInt8

/-- `n` bytes from the start of a block on. Behind its end stands what happens to be there. -/
def fetch (block : Bytes) (behind : Memory) (n : Nat) : Bytes :=
  (block ++ (List.range (n - block.length)).map behind).take n

theorem fetch_of_le {block : Bytes} {n : Nat} (h : n ≤ block.length) (behind : Memory) :
    fetch block behind n = block.take n := by
  rw [fetch, List.take_append_of_le_length h]

@[simp] theorem length_fetch (block : Bytes) (behind : Memory) (n : Nat) :
    (fetch block behind n).length = n := by
  simp only [fetch, List.length_take, List.length_append, List.length_map, List.length_range]
  omega

/-- Where `m_pReadData` points: nowhere as long as it was not set, to the packet's own block, to
bytes of somebody else, or to a block of the packet that was deleted. -/
inductive ReadPtr
  | unset
  | own
  | bytes (b : Bytes)
  | freed
  deriving DecidableEq, Repr

/-- The packet's block is deleted. -/
def ReadPtr.delete : ReadPtr → ReadPtr
  | .own => .freed
  | r => r

/-- A string without its terminator. -/
abbrev CString := { s : Bytes // (0 : UInt8) ∉ s }

/-- The four bytes of a `float` in memory. -/
abbrev FloatBytes := { b : Bytes // b.length = FLOAT_SIZE }

/-- `class CmdPacket`. `m_nMaxSize` is the size of the block. -/
structure CmdPacket where
  m_pData : Bytes
  m_pReadData : ReadPtr
  m_nLen : Nat
  m_nReadOffset : Nat
  m_nWriteOffset : Nat
  deriving DecidableEq, Repr

namespace CmdPacket

/-- The size of the block, which is kept beside it. -/
def m_nMaxSize (p : CmdPacket) : Nat := p.m_pData.length

/-- `new char[len]` -/
def newBlock (len : Nat) (memory : Memory) : Bytes := (List.range len).map memory

@[simp] theorem length_newBlock (len : Nat) (memory : Memory) :
    (newBlock len memory).length = len := by
  simp only [newBlock, List.length_map, List.length_range]

/-- `SetSize(len)`: the old block is deleted, and what points into it is not looked at. -/
def setSize (len : Nat) (memory : Memory) (p : CmdPacket) : Bool × CmdPacket :=
  if len > MAX_CMD_PACKET_SIZE then (false, p)
  else (true, { p with
    m_pData := newBlock len memory
    m_pReadData := p.m_pReadData.delete })

/-- `CmdPacket()` -/
def new (memory : Memory) : CmdPacket :=
  (setSize DEFAULT_CMD_PACKET_SIZE memory
    { m_pData := []
      m_pReadData := .unset
      m_nLen := 0
      m_nReadOffset := 0
      m_nWriteOffset := 0 }).2

/-! ## Writing -/

/-- `WriteData(data, len)`: false if there is no room, and then nothing is changed. -/
def writeData (data : Bytes) (p : CmdPacket) : Bool × CmdPacket :=
  if p.m_nLen + data.length > p.m_nMaxSize then (false, p)
  else
    (true, { p with
      m_pData := overwrite p.m_pData p.m_nWriteOffset data
      m_nLen := p.m_nLen + data.length
      m_nWriteOffset := p.m_nWriteOffset + data.length })

/-- The four bytes of `htonl(l)` in memory. -/
def be32 (l : UInt32) : Bytes :=
  [(l >>> 24).toUInt8, (l >>> 16).toUInt8, (l >>> 8).toUInt8, l.toUInt8]

/-- `WriteByte(c)` -/
def writeByte (c : UInt8) (p : CmdPacket) : Bool × CmdPacket := p.writeData [c]

/-- `WriteUShort(s)`, in network order. -/
def writeUShort (s : Nat) (p : CmdPacket) : Bool × CmdPacket := p.writeData (be16 s)

/-- `WriteUInt(l)`, in network order. -/
def writeUInt (l : UInt32) (p : CmdPacket) : Bool × CmdPacket := p.writeData (be32 l)

/-- `WriteShort(s)`, in network order. -/
def writeShort (s : Int16) (p : CmdPacket) : Bool × CmdPacket :=
  p.writeData (be16 s.toUInt16.toNat)

/-- `WriteInt(l)`, in network order. -/
def writeInt (l : Int32) (p : CmdPacket) : Bool × CmdPacket := p.writeData (be32 l.toUInt32)

/-- `WriteFloat(f)`, the bytes as they are in memory. -/
def writeFloat (f : FloatBytes) (p : CmdPacket) : Bool × CmdPacket := p.writeData f.val

/-- `WriteBinary(data, len)`, where `data` is what is there. The length becomes a `short` when it is
passed on. -/
def writeBinary (data : Bytes) (p : CmdPacket) : Bool × CmdPacket :=
  match p.writeShort (Int16.ofNat data.length) with
  | (false, p) => (false, p)
  | (true, p) => p.writeData data

/-- `WriteString(str)`. The length with the terminator is put into a `short`: a negative one passes
the check of `WriteData` and `memcpy` takes it for a huge one, from which nothing comes back. -/
def writeString (str : CString) (p : CmdPacket) : Option (Bool × CmdPacket) :=
  let len := Int16.ofNat (str.val.length + 1)
  match p.writeShort len with
  | (false, p) => some (false, p)
  | (true, p) =>
    if 0 ≤ len.toInt then some (p.writeData ((str.val ++ [0]).take len.toInt.toNat))
    else if (p.m_nLen : Int) + len.toInt > p.m_nMaxSize then some (false, p)
    else none

/-- `BeginWrite()` -/
def beginWrite (p : CmdPacket) : CmdPacket := { p with m_nLen := 0, m_nWriteOffset := 0 }

/-- `CopyData(buf, len)`; the memory is that of the new block. -/
def copyData (buf : Bytes) (len : Nat) (memory : Memory) (p : CmdPacket) : Bool × CmdPacket :=
  match p.setSize len memory with
  | (false, p) => (false, p)
  | (true, p) => (true, { p with m_pData := overwrite p.m_pData 0 (buf.take len), m_nLen := len })

/-- `BeginWrite(p, len)`. What `CopyData` returns is not looked at. -/
def beginWriteCopy (buf : Bytes) (len : Nat) (memory : Memory) (p : CmdPacket) : CmdPacket :=
  { (p.copyData buf len memory).2 with m_nLen := len }

/-- `CloneFrom(packet)`: a copy of the bytes from the other packet's `GetData()` on. -/
def cloneFrom (packet : CmdPacket) (behind memory : Memory) (p : CmdPacket) : Bool × CmdPacket :=
  p.copyData (fetch packet.m_pData behind packet.m_nLen) packet.m_nLen memory

/-- `GetDataSize()` -/
def getDataSize (p : CmdPacket) : Nat := p.m_nLen

/-- The `n` bytes from `GetData()` on. -/
def getData (n : Nat) (behind : Memory) (p : CmdPacket) : Bytes := fetch p.m_pData behind n

/-! ## Reading -/

/-- `BeginRead(p, len)` -/
def beginRead (bytes : Bytes) (len : Nat) (p : CmdPacket) : CmdPacket :=
  { p with m_pReadData := .bytes bytes, m_nLen := len, m_nReadOffset := 0 }

/-- `BeginRead()` -/
def beginReadOwn (p : CmdPacket) : CmdPacket :=
  { p with m_pReadData := .own, m_nReadOffset := 0 }

/-- The bytes from `GetReadData()` on, if it points anywhere. -/
def getReadData (p : CmdPacket) : Option Bytes :=
  match p.m_pReadData with
  | .unset | .freed => none
  | .own => some p.m_pData
  | .bytes b => some b

/-- `ReadData(data, len)`: `none` is `false`. -/
def readData (len : Nat) (p : CmdPacket) : Option Bytes × CmdPacket :=
  if p.m_nReadOffset + len > p.m_nLen then (none, p)
  else
    (p.getReadData.map fun b => slice b p.m_nReadOffset len,
      { p with m_nReadOffset := p.m_nReadOffset + len })

/-- `ntohs` of two bytes in memory. -/
def ntohs : Bytes → Nat
  | [hi, lo] => be16Val hi lo
  | _ => 0

/-- `ntohl` of four bytes in memory. -/
def ntohl : Bytes → UInt32
  | [a, b, c, d] => a.toUInt32 <<< 24 ||| b.toUInt32 <<< 16 ||| c.toUInt32 <<< 8 ||| d.toUInt32
  | _ => 0

/-- `ReadUShort(s)` -/
def readUShort (p : CmdPacket) : Option Nat × CmdPacket :=
  match p.readData SHORT_SIZE with
  | (ret, p) => (ret.map ntohs, p)

/-- `ReadUInt(l)` -/
def readUInt (p : CmdPacket) : Option UInt32 × CmdPacket :=
  match p.readData LONG_SIZE with
  | (ret, p) => (ret.map ntohl, p)

/-- `ReadByte(c)` -/
def readByte (p : CmdPacket) : Option UInt8 × CmdPacket :=
  match p.readData BYTE_SIZE with
  | (ret, p) => (ret.map fun b => b.headD 0, p)

/-- `ReadShort(s)` -/
def readShort (p : CmdPacket) : Option Int16 × CmdPacket :=
  match p.readData SHORT_SIZE with
  | (ret, p) => (ret.map fun b => Int16.ofNat (ntohs b), p)

/-- `ReadInt(l)` -/
def readInt (p : CmdPacket) : Option Int32 × CmdPacket :=
  match p.readData LONG_SIZE with
  | (ret, p) => (ret.map fun b => (ntohl b).toInt32, p)

/-- `ReadFloat(f)`, the bytes as they are in memory. -/
def readFloat (p : CmdPacket) : Option Bytes × CmdPacket := p.readData FLOAT_SIZE

/-- `ReadBinary(data, len)`: as many bytes as the length in front of them says. -/
def readBinary (p : CmdPacket) : Option Bytes × CmdPacket :=
  match p.readShort with
  | (none, p) => (none, p)
  | (some dataLen, p) =>
    if dataLen.toInt ≤ 0 then (none, p)
    else if (p.m_nReadOffset : Int) + dataLen.toInt > p.m_nLen then (none, p)
    else
      (p.getReadData.map fun b => slice b p.m_nReadOffset dataLen.toInt.toNat,
        { p with m_nReadOffset := p.m_nReadOffset + dataLen.toInt.toNat })

/-- `*(m_pReadData+off) = c` -/
def pokeRead (off : Nat) (c : UInt8) (p : CmdPacket) : CmdPacket :=
  match p.m_pReadData with
  | .own => { p with m_pData := overwrite p.m_pData off [c] }
  | .bytes b => { p with m_pReadData := .bytes (overwrite b off [c]) }
  | .unset | .freed => p

/-- `ReadString(str)`: the string is what stands at the pointer, up to the first terminator. -/
def readString (p : CmdPacket) : Option Bytes × CmdPacket :=
  match p.readShort with
  | (none, p) => (none, p)
  | (some len, p) =>
    if len.toInt ≤ 0 then (none, p)
    else if (p.m_nReadOffset : Int) + len.toInt > p.m_nLen then (none, p)
    else
      -- set end avoid overflow
      let p := p.pokeRead (p.m_nReadOffset + len.toInt.toNat - 1) 0
      (p.getReadData.map fun b => (b.drop p.m_nReadOffset).takeWhile (· ≠ 0),
        { p with m_nReadOffset := p.m_nReadOffset + len.toInt.toNat })

/-! ## What was written -/

/-- The packet is being written: its bytes are inside the block, and the next ones go behind
them. -/
structure Writing (p : CmdPacket) : Prop where
  offset : p.m_nWriteOffset = p.m_nLen
  fits : p.m_nLen ≤ p.m_nMaxSize

/-- The bytes that were written. -/
def written (p : CmdPacket) : Bytes := p.m_pData.take p.m_nLen

variable {p : CmdPacket}

theorem writing_beginWrite (p : CmdPacket) : p.beginWrite.Writing := ⟨rfl, Nat.zero_le _⟩

@[simp] theorem written_beginWrite (p : CmdPacket) : p.beginWrite.written = [] := rfl

theorem Writing.length_written (h : p.Writing) : p.written.length = p.m_nLen :=
  List.length_take_of_le h.fits

/-- **`WriteData` appends, if there is room.** -/
theorem writeData_spec (h : p.Writing) {data : Bytes}
    (hfits : p.m_nLen + data.length ≤ p.m_nMaxSize) :
    ∃ p', p.writeData data = (true, p') ∧ p'.Writing ∧ p'.written = p.written ++ data ∧
      p'.m_nLen = p.m_nLen + data.length ∧ p'.m_nMaxSize = p.m_nMaxSize := by
  have hlen : p.m_nWriteOffset + data.length ≤ p.m_pData.length := by rw [h.offset]; exact hfits
  have hsize : (overwrite p.m_pData p.m_nWriteOffset data).length = p.m_nMaxSize :=
    length_overwrite _ _ _
  rw [writeData, if_neg (Nat.not_lt.mpr hfits)]
  refine ⟨_, rfl, ⟨?_, ?_⟩, ?_, rfl, hsize⟩
  · show p.m_nWriteOffset + data.length = p.m_nLen + data.length
    rw [h.offset]
  · show p.m_nLen + data.length ≤ (overwrite p.m_pData p.m_nWriteOffset data).length
    rw [hsize]
    exact hfits
  · have happend := slice_overwrite_append (Nat.zero_le p.m_nWriteOffset) hlen
    simp only [slice, List.drop_zero, Nat.sub_zero] at happend
    show (overwrite p.m_pData p.m_nWriteOffset data).take (p.m_nLen + data.length) = _
    rw [← h.offset, happend, written, h.offset]

/-- Writing never changes the block's size. -/
@[simp] theorem m_nMaxSize_writeData (data : Bytes) (p : CmdPacket) :
    (p.writeData data).2.m_nMaxSize = p.m_nMaxSize := by
  unfold writeData
  split
  · rfl
  · exact length_overwrite _ _ _

@[simp] theorem m_nMaxSize_writeByte (c : UInt8) (p : CmdPacket) :
    (p.writeByte c).2.m_nMaxSize = p.m_nMaxSize := m_nMaxSize_writeData _ p

@[simp] theorem m_nMaxSize_writeUShort (s : Nat) (p : CmdPacket) :
    (p.writeUShort s).2.m_nMaxSize = p.m_nMaxSize := m_nMaxSize_writeData _ p

@[simp] theorem m_nMaxSize_writeUInt (l : UInt32) (p : CmdPacket) :
    (p.writeUInt l).2.m_nMaxSize = p.m_nMaxSize := m_nMaxSize_writeData _ p

/-- A packet that is inside its block is fetched from it. -/
theorem getData_written (h : p.m_nLen ≤ p.m_nMaxSize) (behind : Memory) :
    p.getData p.m_nLen behind = p.written := fetch_of_le h behind

/-! ## Copies -/

/-- `BeginWrite(p, len)` makes a copy if the size is allowed. -/
theorem getData_beginWriteCopy {buf : Bytes} (h : buf.length ≤ MAX_CMD_PACKET_SIZE)
    (memory behind : Memory) (p : CmdPacket) :
    (p.beginWriteCopy buf buf.length memory).getData buf.length behind = buf := by
  have hcopy : (p.beginWriteCopy buf buf.length memory).m_pData
      = overwrite (newBlock buf.length memory) 0 buf := by
    unfold beginWriteCopy copyData setSize
    rw [if_neg (Nat.not_lt.mpr h)]
    simp only [List.take_length]
  have hself := slice_overwrite_self
    (show 0 + buf.length ≤ (newBlock buf.length memory).length from
      Nat.le_of_eq (by rw [length_newBlock, Nat.zero_add]))
  have hlen : buf.length ≤ (overwrite (newBlock buf.length memory) 0 buf).length :=
    Nat.le_of_eq (by rw [length_overwrite, length_newBlock])
  rw [getData, hcopy, fetch_of_le hlen]
  simpa only [slice, List.drop_zero] using hself

/-- If it is not allowed the block stays as it is; the size is set all the same. -/
theorem m_pData_beginWriteCopy_of_gt {buf : Bytes} {len : Nat} (h : MAX_CMD_PACKET_SIZE < len)
    (memory : Memory) (p : CmdPacket) : (p.beginWriteCopy buf len memory).m_pData = p.m_pData := by
  unfold beginWriteCopy copyData setSize
  rw [if_pos h]

/-- What is fetched first from a new block is what happens to be in it. -/
theorem head?_fetch_newBlock {len n : Nat} (hlen : 0 < len) (hn : 0 < n)
    (memory behind : Memory) : (fetch (newBlock len memory) behind n).head? = some (memory 0) := by
  obtain ⟨len, rfl⟩ := Nat.exists_eq_succ_of_ne_zero (Nat.pos_iff_ne_zero.mp hlen)
  obtain ⟨n, rfl⟩ := Nat.exists_eq_succ_of_ne_zero (Nat.pos_iff_ne_zero.mp hn)
  rw [fetch, newBlock, List.range_succ_eq_map]
  rfl

theorem m_pData_new (memory : Memory) :
    (new memory).m_pData = newBlock DEFAULT_CMD_PACKET_SIZE memory := by
  unfold new setSize
  rw [if_neg (by decide)]

@[simp] theorem m_nMaxSize_new (memory : Memory) :
    (new memory).m_nMaxSize = DEFAULT_CMD_PACKET_SIZE := by
  rw [m_nMaxSize, m_pData_new, length_newBlock]

/-- What is fetched first after a copy that failed is what happens to be in the block. -/
theorem head?_getData_of_gt (buf : Bytes) {len n : Nat} (h : MAX_CMD_PACKET_SIZE < len)
    (hn : 0 < n) (memory memory' behind : Memory) :
    (((new memory).beginWriteCopy buf len memory').getData n behind).head? = some (memory 0) := by
  have hdata : ((new memory).beginWriteCopy buf len memory').m_pData
      = newBlock DEFAULT_CMD_PACKET_SIZE memory := by
    rw [m_pData_beginWriteCopy_of_gt h, m_pData_new]
  rw [getData, hdata]
  exact head?_fetch_newBlock (by decide) hn memory behind

/-! ## Reading from the front -/

theorem readUShort_fst (p : CmdPacket) :
    p.readUShort.1 = (p.readData SHORT_SIZE).1.map ntohs := rfl

/-- A read inside the packet returns the bytes and moves on. -/
theorem readData_bytes {bytes : Bytes} {len : Nat} (h : len ≤ bytes.length) (p : CmdPacket) :
    ((p.beginRead bytes bytes.length).readData len).1 = some (bytes.take len) := by
  unfold readData beginRead getReadData
  rw [if_neg (by dsimp only; omega)]
  rfl

end CmdPacket

end GhNet.Net
