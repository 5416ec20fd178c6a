import GhNet.Client.CmdPacket

/-!
# The `CmdPacket` of the Network client

A list that is written and an array with a cursor that is read. `BeginRead()` reads what this packet
has written, `BeginRead(readByte)` what another has.

A read answers false and leaves the packet alone if there are too few bytes. It can also raise an
exception: what .NET checks is not what the packet has checked. What a packet is after an exception
is left open.
-/

namespace GhNet.Network

open GhNet GhNet.Client

/-- The exceptions of .NET that the code below can raise. `endless` stands for a loop that is still
running after as many rounds as there were bytes to read. -/
inductive Exception
  | indexOutOfRange
  | argumentOutOfRange
  | argument
  | overflow
  | nullReference
  | socket
  | endless
  deriving DecidableEq, Repr

/-- A `float`, as its 32 bits. -/
abbrev Single := UInt32

/-- `m_ReadData` is null until the first `BeginRead`. -/
structure CmdPacket where
  m_WriteData : Bytes
  m_ReadData : Option Bytes
  m_ReadOffset : Nat
  deriving DecidableEq, Repr

/-- The most that `BeginRead` of a `NetPacket` takes; the packet itself has no bound. -/
def MAX_CMD_PACKET_SIZE : Nat := 1024 * 16

namespace CmdPacket

/-- A packet nothing was written into and nothing is read from. -/
def new : CmdPacket := ⟨[], none, 0⟩

/-! ## Writing -/

/-- `BeginWrite()` -/
def beginWrite (p : CmdPacket) : CmdPacket := { p with m_WriteData := [] }

/-- `m_WriteData.AddRange(data)` -/
def addRange (p : CmdPacket) (data : Bytes) : CmdPacket :=
  { p with m_WriteData := p.m_WriteData ++ data }

/-- `BitConverter.GetBytes(IPAddress.HostToNetworkOrder(l))` for a number of `n` bytes. -/
def networkBytes (n l : Nat) : Bytes := leBytes n (hostToNetwork n l)

/-- `WriteByte(char c)`: `BitConverter.GetBytes` of a `char` is two bytes. -/
def writeByte (p : CmdPacket) (c : UInt16) : CmdPacket := p.addRange (leBytes 2 c.toNat)

/-- `WriteShort(Int16 l)`, high byte first. -/
def writeShort (p : CmdPacket) (l : Int16) : CmdPacket :=
  p.addRange (networkBytes 2 l.toUInt16.toNat)

/-- `WriteFloat(float l)`, the bytes as they are in memory. -/
def writeFloat (p : CmdPacket) (l : Single) : CmdPacket := p.addRange (leBytes 4 l.toNat)

/-- `WriteInt(Int32 l)`, high byte first. -/
def writeInt (p : CmdPacket) (l : Int32) : CmdPacket :=
  p.addRange (networkBytes 4 l.toUInt32.toNat)

/-- `WriteUInt(UInt32 l)`, high byte first. -/
def writeUInt (p : CmdPacket) (l : UInt32) : CmdPacket := p.addRange (networkBytes 4 l.toNat)

/-- `WriteString`. `Convert.ToInt16` throws if there are too many bytes. -/
def writeString (e : Encoding) (p : CmdPacket) (l : e.Str) : Except Exception CmdPacket :=
  if (e.getBytes l).length + 1 ≤ 32767 then
    .ok (((p.writeShort (Int16.ofNat ((e.getBytes l).length + 1))).addRange
      (e.getBytes l)).addRange [0])
  else .error .overflow

/-- How many bytes were written. -/
def getDataSize (p : CmdPacket) : Nat := p.m_WriteData.length

/-- The bytes that were written. -/
def getData (p : CmdPacket) : Bytes := p.m_WriteData

/-! ## Reading -/

/-- `BeginRead()` -/
def beginReadOwn (p : CmdPacket) : CmdPacket :=
  { p with m_ReadData := some p.m_WriteData, m_ReadOffset := 0 }

/-- `BeginRead(List<byte> readByte)` -/
def beginRead (p : CmdPacket) (readByte : Bytes) : CmdPacket :=
  { p with m_ReadOffset := 0, m_ReadData := some readByte }

/-- What the calls that read have in common: whether there were `n` bytes, and which. -/
def readBytes (n : Nat) (p : CmdPacket) : Except Exception (Option Bytes × CmdPacket) :=
  match p.m_ReadData with
  | none => .error .nullReference
  | some data =>
    if p.m_ReadOffset + n > data.length then .ok (none, p)
    else .ok (some (slice data p.m_ReadOffset n), { p with m_ReadOffset := p.m_ReadOffset + n })

/-- A read that makes something of the bytes. -/
def readAs {α : Type} (n : Nat) (f : Bytes → α) (p : CmdPacket) :
    Except Exception (Option α × CmdPacket) :=
  (p.readBytes n).map fun r => (r.1.map f, r.2)

/-- `ReadByte(ref char c)` asks for one byte and goes on by one. `BitConverter.ToChar` takes two,
and throws if there is only one. -/
def readByte (p : CmdPacket) : Except Exception (Option UInt16 × CmdPacket) :=
  match p.m_ReadData with
  | none => .error .nullReference
  | some data =>
    if p.m_ReadOffset + 1 > data.length then .ok (none, p)
    else if p.m_ReadOffset + 2 > data.length then .error .argument
    else
      .ok (some (UInt16.ofNat (ofLeBytes (slice data p.m_ReadOffset 2))),
        { p with m_ReadOffset := p.m_ReadOffset + 1 })

/-- `ReadShort(ref Int16 s)` -/
def readShort : CmdPacket → Except Exception (Option Int16 × CmdPacket) :=
  readAs 2 fun b => Int16.ofNat (Client.CmdPacket.networkNumber b)

/-- `ReadFloat(ref float f)`, the bytes as they are in memory. -/
def readFloat : CmdPacket → Except Exception (Option Single × CmdPacket) :=
  readAs 4 fun b => UInt32.ofNat (ofLeBytes b)

/-- `ReadInt(ref Int32 l)` -/
def readInt : CmdPacket → Except Exception (Option Int32 × CmdPacket) :=
  readAs 4 fun b => Int32.ofNat (Client.CmdPacket.networkNumber b)

/-- `ReadUInt(ref UInt32 l)` -/
def readUInt : CmdPacket → Except Exception (Option UInt32 × CmdPacket) :=
  readAs 4 fun b => UInt32.ofNat (Client.CmdPacket.networkNumber b)

/-- `ReadString`. It puts a terminator over the last byte of the string before it is decoded, and
that byte is the one in front of the cursor if the length is zero. -/
def readString {Str : Type} (getString : Bytes → Str) (p : CmdPacket) :
    Except Exception (Option Str × CmdPacket) :=
  match p.readShort with
  | .error e => .error e
  | .ok (none, p) => .ok (none, p)
  | .ok (some length, p) =>
    match p.m_ReadData with
    | none => .error .nullReference
    | some data =>
      let stop : Int := p.m_ReadOffset + length.toInt
      if stop > data.length then .ok (none, p)
      else if stop - 1 < 0 then .error .indexOutOfRange
      else
        let data := data.set (stop - 1).toNat 0
        -- `GetString` refuses a count below zero
        if length.toInt < 0 then .error .argumentOutOfRange
        else
          .ok (some (getString (slice data p.m_ReadOffset length.toInt.toNat)),
            { p with m_ReadData := some data
                     m_ReadOffset := p.m_ReadOffset + length.toInt.toNat })

/-! ## Packets that are being read -/

/-- The packet reads these bytes, and the cursor is behind the first `off`. -/
structure Reading (p : CmdPacket) (data : Bytes) (off : Nat) : Prop where
  holds : p.m_ReadData = some data
  cursor : p.m_ReadOffset = off

theorem reading_beginReadOwn (p : CmdPacket) : p.beginReadOwn.Reading p.m_WriteData 0 := ⟨rfl, rfl⟩

variable {p : CmdPacket} {data : Bytes} {off : Nat}

theorem readBytes_short (h : p.Reading data off) {n : Nat} (hn : data.length < off + n) :
    p.readBytes n = .ok (none, p) := by
  simp only [readBytes, h.holds, h.cursor, if_pos hn]

theorem readBytes_enough (h : p.Reading data off) {n : Nat} (hn : off + n ≤ data.length) :
    ∃ p', p.readBytes n = .ok (some (slice data off n), p') ∧ p'.Reading data (off + n) := by
  refine ⟨{ p with m_ReadOffset := off + n }, ?_, h.holds, rfl⟩
  simp only [readBytes, h.holds, h.cursor, if_neg (Nat.not_lt.mpr hn)]

theorem readAs_short {α : Type} {f : Bytes → α} (h : p.Reading data off) {n : Nat}
    (hn : data.length < off + n) : readAs n f p = .ok (none, p) := by
  rw [readAs, readBytes_short h hn]
  rfl

theorem readAs_enough {α : Type} (f : Bytes → α) (h : p.Reading data off) {n : Nat}
    (hn : off + n ≤ data.length) :
    ∃ p', readAs n f p = .ok (some (f (slice data off n)), p') ∧ p'.Reading data (off + n) := by
  obtain ⟨p', hread, h'⟩ := readBytes_enough h hn
  refine ⟨p', ?_, h'⟩
  rw [readAs, hread]
  rfl

/-- A read that has a value has gone on by its bytes. -/
theorem readAs_some {α : Type} {f : Bytes → α} {n : Nat} {v : α} {p' : CmdPacket}
    (h : p.Reading data off) (hread : readAs n f p = .ok (some v, p')) :
    p'.Reading data (off + n) ∧ off + n ≤ data.length := by
  by_cases hn : off + n ≤ data.length
  · obtain ⟨p₁, hread', h'⟩ := readAs_enough f h hn
    rw [hread'] at hread
    obtain ⟨-, rfl⟩ := Prod.mk.inj (Except.ok.inj hread)
    exact ⟨h', hn⟩
  · rw [readAs_short h (Nat.lt_of_not_le hn)] at hread
    cases (Prod.mk.inj (Except.ok.inj hread)).1

/-- The `short` that stands at `off`. -/
def shortAt (data : Bytes) (off : Nat) : Int :=
  (Int16.ofNat (Client.CmdPacket.networkNumber (slice data off 2))).toInt

theorem readShort_enough (h : p.Reading data off) (hn : off + 2 ≤ data.length) :
    ∃ l p', p.readShort = .ok (some l, p') ∧ l.toInt = shortAt data off ∧
      p'.Reading data (off + 2) := by
  obtain ⟨p', hread, h'⟩ :=
    readAs_enough (fun b => Int16.ofNat (Client.CmdPacket.networkNumber b)) h hn
  exact ⟨_, p', hread, rfl, h'⟩

/-! ### Strings -/

variable {Str : Type} (getString : Bytes → Str)

theorem readString_short (h : p.Reading data off) (hn : data.length < off + 2) :
    p.readString getString = .ok (none, p) := by
  rw [readString, readShort, readAs_short h hn]

/-- With a length below zero the read raises an exception. -/
theorem readString_negative (h : p.Reading data off) (hn : off + 2 ≤ data.length)
    (hneg : shortAt data off < 0) : ∃ e, p.readString getString = .error e ∧ e ≠ .endless := by
  obtain ⟨l, p', hshort, hl, h'⟩ := readShort_enough h hn
  rw [readString, hshort]
  simp only [h'.holds, h'.cursor]
  rw [if_neg (by omega)]
  split
  · exact ⟨_, rfl, nofun⟩
  · rw [if_pos (by omega)]
    exact ⟨_, rfl, nofun⟩

/-- With any other it does not, and the array keeps its length. -/
theorem readString_ok (h : p.Reading data off) (hn : off + 2 ≤ data.length)
    (hpos : 0 ≤ shortAt data off) :
    (data.length < off + 2 + (shortAt data off).toNat ∧
      ∃ p', p.readString getString = .ok (none, p')) ∨
    (off + 2 + (shortAt data off).toNat ≤ data.length ∧
      ∃ p' data', p.readString getString
          = .ok (some (getString (slice data' (off + 2) (shortAt data off).toNat)), p') ∧
        p'.Reading data' (off + 2 + (shortAt data off).toNat) ∧ data'.length = data.length) := by
  obtain ⟨l, p', hshort, hl, h'⟩ := readShort_enough h hn
  rw [readString, hshort]
  simp only [h'.holds, h'.cursor, hl]
  by_cases hfits : off + 2 + (shortAt data off).toNat ≤ data.length
  · refine .inr ⟨hfits, ?_⟩
    rw [if_neg (by omega), if_neg (by omega), if_neg (by omega)]
    exact ⟨_, _, rfl, ⟨rfl, rfl⟩, List.length_set⟩
  · refine .inl ⟨by omega, ?_⟩
    rw [if_pos (by omega)]
    exact ⟨_, rfl⟩

end CmdPacket

end GhNet.Network
