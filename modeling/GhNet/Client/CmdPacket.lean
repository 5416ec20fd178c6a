import GhNet.Infra.ByteOrder

/-!
# The `CmdPacket` of the client

The packet of `TcpCSFramework`: a list that is written, and an array with a cursor that is read. The
two halves meet in `BeginRead()` only.

The machine is a little-endian one. `IPAddress.HostToNetworkOrder` puts the bytes of a number in
reverse, and `BitConverter` shows and takes the bytes as they are in memory.
-/

namespace GhNet.Client

open GhNet

/-! ## The packet -/

/-- The read side of a `CmdPacket`: `m_ReadData` is null until the first `BeginRead`. -/
structure CmdPacket where
  m_ReadData : Option Bytes
  m_ReadOffset : Nat
  deriving DecidableEq, Repr

namespace CmdPacket

/-- A packet that was never read. -/
def new : CmdPacket := ⟨none, 0⟩

/-- `BeginRead(byte[] bytes)` -/
def beginRead (_ : CmdPacket) (bytes : Bytes) : CmdPacket :=
  { m_ReadData := some bytes, m_ReadOffset := 0 }

/-- The packet holds these bytes and nothing has been read of them. -/
def holding (bytes : Bytes) : CmdPacket := new.beginRead bytes

end CmdPacket

/-! ## Byte order -/

/-- `BitConverter.ToUInt16(bytes, i)` on a little-endian machine. -/
def toUInt16 (bytes : Bytes) (i : Nat) : Nat :=
  (bytes.getD i 0).toNat + 256 * (bytes.getD (i + 1) 0).toNat

/-- `IPAddress.HostToNetworkOrder(short)` on a little-endian machine, as an unsigned value. -/
def hostToNetworkOrder (v : Nat) : Nat := v % 256 * 256 + v / 256 % 256

/-- The two steps together read a length in network order. -/
theorem hostToNetworkOrder_toUInt16 (hi lo : UInt8) (bytes : Bytes) :
    hostToNetworkOrder (toUInt16 (hi :: lo :: bytes) 0) = be16Val hi lo := by
  have hhi := hi.toNat_lt
  have hlo := lo.toNat_lt
  simp only [hostToNetworkOrder, toUInt16, be16Val, List.getD_cons_zero, List.getD_cons_succ]
  omega

/-- `IPAddress.HostToNetworkOrder` on a number of `n` bytes. -/
def hostToNetwork (n v : Nat) : Nat := byteSwap n v

/-- For two bytes it is the swap written out. -/
theorem hostToNetworkOrder_eq (v : Nat) : hostToNetworkOrder v = hostToNetwork 2 v := by
  simp only [hostToNetworkOrder, hostToNetwork, byteSwap, leBytes, List.reverse_cons,
    List.reverse_nil, List.nil_append, List.cons_append, ofLeBytes, UInt8.toNat_ofNat']
  omega

/-! ## Strings -/

/-- `System.Text.Encoding.Default`, on the strings that it gives back. Bytes that no string is
written in may be decoded in any way, as they are in UTF-8. -/
structure Encoding where
  Str : Type
  getBytes : Str → Bytes
  getString : Bytes → Str
  getString_getBytes : ∀ s, getString (getBytes s) = s
  /-- A terminator is decoded, and not dropped. -/
  getString_terminated : ∀ s, getString (getBytes s ++ [0]) ≠ s

/-! ## Writing -/

/-- The calls that write, on `m_WriteData`. -/
abbrev WriteData := Bytes

namespace WriteData

/-- `WriteByte(char c)`, of which the low byte is written. -/
def writeByte (w : WriteData) (c : UInt16) : WriteData := w ++ [c.toUInt8]

/-- `m_WriteData.AddRange(BitConverter.GetBytes(IPAddress.HostToNetworkOrder(l)))` for a number of
`n` bytes. -/
def addNumber (n : Nat) (w : WriteData) (l : Nat) : WriteData := w ++ leBytes n (hostToNetwork n l)

/-- `WriteUShort(UInt16 l)` -/
def writeUShort (w : WriteData) (l : UInt16) : WriteData := addNumber 2 w l.toNat

/-- `WriteShort(Int16 l)` -/
def writeShort (w : WriteData) (l : Int16) : WriteData := addNumber 2 w l.toUInt16.toNat

/-- `WriteInt(Int32 l)` -/
def writeInt (w : WriteData) (l : Int32) : WriteData := addNumber 4 w l.toUInt32.toNat

/-- `WriteUInt(UInt32 l)` -/
def writeUInt (w : WriteData) (l : UInt32) : WriteData := addNumber 4 w l.toNat

/-- `WriteInt64(Int64 l)` -/
def writeInt64 (w : WriteData) (l : Int64) : WriteData := addNumber 8 w l.toUInt64.toNat

/-- `WriteUInt64(UInt64 l)` -/
def writeUInt64 (w : WriteData) (l : UInt64) : WriteData := addNumber 8 w l.toNat

/-- `WriteFloat`, on the bytes of the number in memory. -/
def writeFloat (w : WriteData) (l : Bytes) : WriteData := w ++ l

/-- `WriteString`. `Convert.ToUInt16` throws if there are too many bytes. -/
def writeString (e : Encoding) (w : WriteData) (l : e.Str) : Option WriteData :=
  if (e.getBytes l).length < 65536 then
    some (writeUShort w (UInt16.ofNat (e.getBytes l).length) ++ e.getBytes l)
  else none

/-- A number is written with its high byte first. -/
theorem addNumber_eq (n : Nat) (w : WriteData) (l : Nat) :
    addNumber n w l = w ++ (leBytes n l).reverse := by
  rw [addNumber, hostToNetwork, leBytes_byteSwap]

end WriteData

/-! ## Reading -/

namespace CmdPacket

/-- What the calls that read have in common: `none` if there is no array, which is an exception,
else whether there were `n` bytes, and which. -/
def readBytes (n : Nat) (p : CmdPacket) : Option (Option Bytes × CmdPacket) :=
  p.m_ReadData.map fun data =>
    if p.m_ReadOffset + n > data.length then (none, p)
    else (some (slice data p.m_ReadOffset n), { p with m_ReadOffset := p.m_ReadOffset + n })

/-- `NetworkToHostOrder` of a number as `BitConverter` takes it from the bytes. -/
def networkNumber (b : Bytes) : Nat := hostToNetwork b.length (ofLeBytes b)

/-- A read that makes something of the bytes. -/
def readAs {α : Type} (n : Nat) (f : Bytes → α) (p : CmdPacket) : Option (Option α × CmdPacket) :=
  (p.readBytes n).map fun r => (r.1.map f, r.2)

/-- `ReadByte(ref char c)` -/
def readByte : CmdPacket → Option (Option UInt16 × CmdPacket) :=
  readAs 1 fun b => (b.headD 0).toUInt16

/-- `ReadUShort(ref UInt16 s)` -/
def readUShort : CmdPacket → Option (Option UInt16 × CmdPacket) :=
  readAs 2 fun b => UInt16.ofNat (networkNumber b)

/-- `ReadShort(ref Int16 s)` -/
def readShort : CmdPacket → Option (Option Int16 × CmdPacket) :=
  readAs 2 fun b => Int16.ofNat (networkNumber b)

/-- `ReadFloat(ref float f)`, the bytes as they are in memory. -/
def readFloat : CmdPacket → Option (Option Bytes × CmdPacket) := readAs 4 id

/-- `ReadInt(ref Int32 l)` -/
def readInt : CmdPacket → Option (Option Int32 × CmdPacket) :=
  readAs 4 fun b => Int32.ofNat (networkNumber b)

/-- `ReadUInt(ref UInt32 l)` -/
def readUInt : CmdPacket → Option (Option UInt32 × CmdPacket) :=
  readAs 4 fun b => UInt32.ofNat (networkNumber b)

/-- `ReadInt64(ref Int64 l)` -/
def readInt64 : CmdPacket → Option (Option Int64 × CmdPacket) :=
  readAs 8 fun b => Int64.ofNat (networkNumber b)

/-- `ReadUInt64(ref UInt64 l)` -/
def readUInt64 : CmdPacket → Option (Option UInt64 × CmdPacket) :=
  readAs 8 fun b => UInt64.ofNat (networkNumber b)

/-- `ReadString`. The length is not given back if the bytes are missing. -/
def readString (e : Encoding) (p : CmdPacket) : Option (Option e.Str × CmdPacket) :=
  match p.readUShort with
  | none => none
  | some (none, p) => some (none, p)
  | some (some length, p) => readAs length.toNat e.getString p

end CmdPacket

end GhNet.Client
