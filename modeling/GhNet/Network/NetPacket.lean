import GhNet.Client.Codec
import GhNet.Infra.Pieces
import GhNet.Network.CmdPacket

/-!
# `NetPacket`

A `CmdPacket` on the wire: a byte of flags, a sequence number, the length of the data, and the data.
The data can be encrypted with a key whose bytes are used one after the other, again and again; that
they are, and that they are compressed, which does nothing, is shown by flags.

`BeginRead` looks at the front of what was received. It answers how many bytes the packet there has,
or 0 if it is not all there, or -1 if it is none.
-/

namespace GhNet.Network

open GhNet

/-- A packet with its header. -/
structure NetPacket where
  m_pktFlag : UInt8
  m_pktDataSize : UInt16
  m_pktSeq : UInt16
  m_buffer : Bytes
  deriving DecidableEq, Repr

namespace NetPacket

/-- Flags, sequence number and length. -/
def NET_PACKET_HEAD_SIZE : Nat := 5

/-- What the high half of the flags must be. -/
def PROTOCOL_FLAG : UInt8 := 5

/-- The length of the key that `SetSeed` makes. -/
def MAX_NET_SEED_SIZE : Nat := 16

/-- The size of the array that `ReadData` gives to `Receive`. -/
def MAX_BUFFER_SIZE : Nat := MAX_CMD_PACKET_SIZE

/-- The data are encrypted. -/
def FLAG_ENCRYPT : UInt8 := 1

/-- The data are said to be compressed. -/
def FLAG_COMPRESS : UInt8 := 2

/-- The packet is for the session itself and not for its user. -/
def FLAG_SYSTEM : UInt8 := 4

/-- The seed of the key; a session that gets it is connected. -/
def SYS_PACKET_SET_SEED : Int16 := 1

/-- A time, which is sent back. -/
def SYS_PACKET_KEEP_ALIVE : Int16 := 2

/-- The time that came, sent back. -/
def SYS_PACKET_ALIVE_ACK : Int16 := 3

/-- Behind this sequence number comes 1 again. -/
def MAX_NET_PACKET_SEQ : UInt16 := 65000

/-- A packet without data. -/
def new : NetPacket := ⟨0, 0, 0, []⟩

/-- `GetBuffer`: the header and the data, as they go over the socket. -/
def getBuffer (p : NetPacket) : Bytes :=
  p.m_pktFlag :: CmdPacket.networkBytes 2 p.m_pktSeq.toNat
    ++ CmdPacket.networkBytes 2 p.m_pktDataSize.toNat ++ p.m_buffer

/-- `AddCmdPacket`. `Convert.ToUInt16` throws if there are too many bytes. -/
def addCmdPacket (p : NetPacket) (packet : CmdPacket) : Except Exception NetPacket :=
  if packet.getDataSize < 65536 then
    .ok { p with m_pktFlag := PROTOCOL_FLAG <<< 4
                 m_pktDataSize := UInt16.ofNat packet.getDataSize
                 m_buffer := packet.getData }
  else .error .overflow

/-- `SetSeq` -/
def setSeq (p : NetPacket) (seq : UInt16) : NetPacket := { p with m_pktSeq := seq }

/-! ## Flags -/

/-- `m_pktFlag |= flag` -/
def setFlag (p : NetPacket) (flag : UInt8) : NetPacket := { p with m_pktFlag := p.m_pktFlag ||| flag }

/-- `m_pktFlag &= (byte)(~flag)` -/
def clearFlag (p : NetPacket) (flag : UInt8) : NetPacket :=
  { p with m_pktFlag := p.m_pktFlag &&& ~~~flag }

/-- `SetSysPacket` -/
def setSysPacket (p : NetPacket) : NetPacket := p.setFlag FLAG_SYSTEM

/-- `Compress`, which sets the flag and leaves the data as they are. -/
def compress (p : NetPacket) : NetPacket := p.setFlag FLAG_COMPRESS

/-- `Uncompress`, which takes the flag away. -/
def uncompress (p : NetPacket) : NetPacket := p.clearFlag FLAG_COMPRESS

/-- `IsSysPacket` -/
def isSysPacket (p : NetPacket) : Bool := p.m_pktFlag &&& FLAG_SYSTEM ≠ 0

/-- `IsEncrypt` -/
def isEncrypt (p : NetPacket) : Bool := p.m_pktFlag &&& FLAG_ENCRYPT ≠ 0

/-- `IsCompress` -/
def isCompress (p : NetPacket) : Bool := p.m_pktFlag &&& FLAG_COMPRESS ≠ 0

/-! ## The key -/

/-- The loop that `Encrypt` and `Decrypt` have in common: `n` rounds, of which the first begins with
`k`, over what is left of the buffer. -/
def crypt (seed : Bytes) (len : Nat) : (n k : Nat) → Bytes → Except Exception Bytes
  | 0, _, buffer => .ok buffer
  | _ + 1, _, [] => .error .argumentOutOfRange
  | n + 1, k, b :: buffer =>
    let k := if k = len then 0 else k
    match seed[k]? with
    | none => .error .indexOutOfRange
    | some s => (crypt seed len n (k + 1) buffer).map ((b ^^^ s) :: ·)

/-- `Encrypt`, over as many bytes as the header says. -/
def encrypt (p : NetPacket) (seed : Bytes) (len : Nat) : Except Exception NetPacket :=
  (crypt seed len p.m_pktDataSize.toNat 0 p.m_buffer).map fun buffer =>
    { p with m_buffer := buffer }.setFlag FLAG_ENCRYPT

/-- `Decrypt`, which is the same but for the flag. -/
def decrypt (p : NetPacket) (seed : Bytes) (len : Nat) : Except Exception NetPacket :=
  (crypt seed len p.m_pktDataSize.toNat 0 p.m_buffer).map fun buffer =>
    { p with m_buffer := buffer }.clearFlag FLAG_ENCRYPT

/-! ## Reading -/

/-- `(ushort)IPAddress.NetworkToHostOrder((short)BitConverter.ToUInt16(readByte, i))` -/
def ushortAt (readByte : Bytes) (i : Nat) : UInt16 :=
  UInt16.ofNat (Client.CmdPacket.networkNumber (slice readByte i 2))

/-- `BeginRead`: the header is taken over as soon as it is there, and the data when they are all
there. -/
def beginRead (p : NetPacket) (readByte : Bytes) : Int × NetPacket :=
  if readByte.length < NET_PACKET_HEAD_SIZE then (0, p)
  else
    let p := { p with m_pktFlag := readByte.headD 0
                      m_pktSeq := ushortAt readByte 1
                      m_pktDataSize := ushortAt readByte 3 }
    if p.m_pktFlag >>> (4 : UInt8) ≠ PROTOCOL_FLAG then (-1, p)
    else if p.m_pktDataSize.toNat ≤ 0 ∨ p.m_pktDataSize.toNat > MAX_CMD_PACKET_SIZE then (-1, p)
    else
      let total := p.m_pktDataSize.toNat + NET_PACKET_HEAD_SIZE
      if readByte.length < total then (0, p)
      else
        let buffer := slice readByte NET_PACKET_HEAD_SIZE (total - NET_PACKET_HEAD_SIZE)
        (total, { p with m_buffer := buffer })

/-- `AttachCmdPacket`: the command packet reads the data from their beginning. -/
def attachCmdPacket (p : NetPacket) (packet : CmdPacket) : CmdPacket := packet.beginRead p.m_buffer

/-! ## What stands at the front -/

/-- A header stands at the front, and it is one that `BeginRead` refuses. -/
def Bad (q : Bytes) : Prop :=
  NET_PACKET_HEAD_SIZE ≤ q.length ∧
    (q.headD 0 >>> (4 : UInt8) ≠ PROTOCOL_FLAG ∨ ushortAt q 3 = 0 ∨
      MAX_CMD_PACKET_SIZE < (ushortAt q 3).toNat)

instance (q : Bytes) : Decidable (Bad q) := inferInstanceAs (Decidable (_ ∧ _))

/-- The length of the packet at the front. -/
def total (q : Bytes) : Nat := (ushortAt q 3).toNat + NET_PACKET_HEAD_SIZE

/-- A packet stands at the front, all of it. -/
def Whole (q : Bytes) : Prop := ¬Bad q ∧ NET_PACKET_HEAD_SIZE ≤ q.length ∧ total q ≤ q.length

instance (q : Bytes) : Decidable (Whole q) := inferInstanceAs (Decidable (_ ∧ _))

/-- The packet at the front. -/
def front (q : Bytes) : NetPacket where
  m_pktFlag := q.headD 0
  m_pktDataSize := ushortAt q 3
  m_pktSeq := ushortAt q 1
  m_buffer := slice q NET_PACKET_HEAD_SIZE (ushortAt q 3).toNat

variable {p : NetPacket} {q : Bytes}

/-- A header that is not refused passes both checks. -/
theorem checks_of_not_bad (hhead : NET_PACKET_HEAD_SIZE ≤ q.length) (h : ¬Bad q) :
    ¬q.headD 0 >>> (4 : UInt8) ≠ PROTOCOL_FLAG ∧
      ¬((ushortAt q 3).toNat ≤ 0 ∨ (ushortAt q 3).toNat > MAX_CMD_PACKET_SIZE) := by
  refine ⟨fun hf => h ⟨hhead, .inl hf⟩, ?_⟩
  rintro (hz | hl)
  · exact h ⟨hhead, .inr (.inl (UInt16.toNat_inj.mp (Nat.le_zero.mp hz)))⟩
  · exact h ⟨hhead, .inr (.inr hl)⟩

theorem beginRead_whole (p : NetPacket) (h : Whole q) :
    p.beginRead q = ((total q : Int), front q) := by
  obtain ⟨hbad, hhead, htotal⟩ := h
  obtain ⟨hflag, hsize⟩ := checks_of_not_bad hhead hbad
  rw [beginRead, if_neg (Nat.not_lt.mpr hhead)]
  dsimp only
  rw [total] at htotal
  rw [if_neg hflag, if_neg hsize, if_neg (Nat.not_lt.mpr htotal), Nat.add_sub_cancel]
  rfl

theorem beginRead_bad (p : NetPacket) (h : Bad q) : (p.beginRead q).1 = -1 := by
  obtain ⟨hhead, hbad⟩ := h
  rw [beginRead, if_neg (Nat.not_lt.mpr hhead)]
  dsimp only
  split
  · rfl
  · next hflag =>
    rw [if_pos]
    rcases hbad with hf | hz | hl
    · exact absurd hf hflag
    · exact .inl (by rw [hz]; exact Nat.le_refl 0)
    · exact .inr hl

theorem beginRead_part (p : NetPacket) (hbad : ¬Bad q) (h : ¬Whole q) :
    (p.beginRead q).1 = 0 := by
  by_cases hhead : NET_PACKET_HEAD_SIZE ≤ q.length
  · obtain ⟨hflag, hsize⟩ := checks_of_not_bad hhead hbad
    have htotal : q.length < (ushortAt q 3).toNat + NET_PACKET_HEAD_SIZE :=
      Nat.lt_of_not_le fun hle => h ⟨hbad, hhead, hle⟩
    rw [beginRead, if_neg (Nat.not_lt.mpr hhead)]
    dsimp only
    rw [if_neg hflag, if_neg hsize, if_pos htotal]
  · rw [beginRead, if_pos (Nat.lt_of_not_le hhead)]

/-! ### More behind it -/

theorem ushortAt_append {i : Nat} (h : i + 2 ≤ q.length) (t : Bytes) :
    ushortAt (q ++ t) i = ushortAt q i := by
  rw [ushortAt, ushortAt, slice, slice, List.drop_append_of_le_length (by omega),
    List.take_append_of_le_length (by rw [List.length_drop]; omega)]

theorem headD_append (h : 0 < q.length) (t : Bytes) : (q ++ t).headD 0 = q.headD 0 := by
  cases q with
  | nil => exact absurd h (Nat.lt_irrefl 0)
  | cons b q => rfl

theorem bad_append (h : NET_PACKET_HEAD_SIZE ≤ q.length) (t : Bytes) : Bad (q ++ t) ↔ Bad q := by
  have hlen : 5 ≤ q.length := h
  rw [Bad, Bad, headD_append (by omega), ushortAt_append (by omega), List.length_append]
  exact and_congr_left fun _ => ⟨fun _ => h, fun _ => Nat.le_add_right_of_le h⟩

theorem total_append (h : NET_PACKET_HEAD_SIZE ≤ q.length) (t : Bytes) :
    total (q ++ t) = total q := by
  have hlen : 5 ≤ q.length := h
  rw [total, total, ushortAt_append (by omega)]

/-- A whole packet stays what it is when more arrives. -/
theorem whole_append (h : Whole q) (t : Bytes) : Whole (q ++ t) := by
  obtain ⟨hbad, hhead, htotal⟩ := h
  refine ⟨fun hb => hbad ((bad_append hhead t).mp hb), ?_, ?_⟩
  · rw [List.length_append]
    exact Nat.le_add_right_of_le hhead
  · rw [total_append hhead, List.length_append]
    exact Nat.le_add_right_of_le htotal

theorem front_append (h : Whole q) (t : Bytes) : front (q ++ t) = front q := by
  obtain ⟨-, hhead, htotal⟩ := h
  have hlen : 5 ≤ q.length := hhead
  have hsize : (ushortAt q 3).toNat + 5 ≤ q.length := htotal
  rw [front, front, headD_append (by omega), ushortAt_append (by omega),
    ushortAt_append (by omega), slice, slice, List.drop_append_of_le_length hhead,
    List.take_append_of_le_length]
  rw [List.length_drop]
  exact Nat.le_sub_of_add_le hsize

/-- What is refused when more has arrived was refused before, if the header was there. -/
theorem not_bad_of_append {t : Bytes} (h : ¬Bad (q ++ t)) : ¬Bad q := fun hb =>
  h ((bad_append hb.1 t).mpr hb)

/-- Every packet begins what it is the buffer of. -/
theorem front_getBuffer {p : NetPacket} (h : p.m_buffer.length = p.m_pktDataSize.toNat) :
    front p.getBuffer = p ∧ total p.getBuffer = p.getBuffer.length := by
  have hseq : ushortAt p.getBuffer 1 = p.m_pktSeq := by
    have hnum : Client.CmdPacket.networkNumber (leBytes 2 p.m_pktSeq.toNat).reverse = _ :=
      Client.CmdPacket.networkNumber_reverse p.m_pktSeq.toNat_lt
    rw [ushortAt, getBuffer, CmdPacket.networkBytes, Client.hostToNetwork, leBytes_byteSwap]
    exact (congrArg UInt16.ofNat hnum).trans (UInt16.ofNat_toNat)
  have hsize : ushortAt p.getBuffer 3 = p.m_pktDataSize := by
    have hnum : Client.CmdPacket.networkNumber (leBytes 2 p.m_pktDataSize.toNat).reverse = _ :=
      Client.CmdPacket.networkNumber_reverse p.m_pktDataSize.toNat_lt
    rw [ushortAt, getBuffer, CmdPacket.networkBytes, CmdPacket.networkBytes, Client.hostToNetwork,
      Client.hostToNetwork, leBytes_byteSwap, leBytes_byteSwap]
    exact (congrArg UInt16.ofNat hnum).trans (UInt16.ofNat_toNat)
  have hbuf : slice p.getBuffer NET_PACKET_HEAD_SIZE p.m_pktDataSize.toNat = p.m_buffer := by
    rw [← h]
    exact List.take_length
  constructor
  · rw [front, hseq, hsize, hbuf]
    rfl
  · rw [total, hsize, ← h]
    simp [getBuffer, CmdPacket.networkBytes, NET_PACKET_HEAD_SIZE]
    omega

/-! ## The packets of a buffer -/

/-- How packets are taken off a buffer. -/
def cutter : Cutter UInt8 NetPacket where
  Whole := Whole
  decWhole := inferInstance
  total := total
  piece := front
  total_pos _ _ := Nat.succ_pos _
  total_le _ h := h.2.2

/-! ## What the key does -/

/-- The bytes with the key put over them. -/
def xored (seed : Bytes) (len : Nat) : Nat → Bytes → Bytes
  | _, [] => []
  | k, b :: buffer =>
    let k := if k = len then 0 else k
    (b ^^^ seed.getD k 0) :: xored seed len (k + 1) buffer

theorem length_xored (seed : Bytes) (len k : Nat) (buffer : Bytes) :
    (xored seed len k buffer).length = buffer.length := by
  induction buffer generalizing k with
  | nil => rfl
  | cons b buffer ih => rw [xored, List.length_cons, ih, List.length_cons]

/-- Twice is not at all. -/
theorem xored_xored (seed : Bytes) (len k : Nat) (buffer : Bytes) :
    xored seed len k (xored seed len k buffer) = buffer := by
  induction buffer generalizing k with
  | nil => rfl
  | cons b buffer ih =>
    have hxor : ∀ s : UInt8, b ^^^ s ^^^ s = b := fun s => by
      rw [UInt8.xor_assoc, UInt8.xor_self, UInt8.xor_zero]
    rw [xored, xored, ih, hxor]

/-- The loop goes round as long as the byte of the key that it uses is there. -/
theorem crypt_cons {seed : Bytes} {len n k : Nat} {b : UInt8} {buffer : Bytes}
    (hk : (if k = len then 0 else k) < seed.length) :
    crypt seed len (n + 1) k (b :: buffer)
      = (crypt seed len n ((if k = len then 0 else k) + 1) buffer).map
          ((b ^^^ seed.getD (if k = len then 0 else k) 0) :: ·) := by
  rw [crypt]
  simp only [List.getElem?_eq_getElem hk, List.getD_eq_getElem?_getD, Option.getD_some]

/-- With a key the loop goes round and round. -/
theorem crypt_key {seed : Bytes} {len : Nat} (hlen : 0 < len) (hseed : len ≤ seed.length)
    (buffer : Bytes) {k : Nat} (hk : k ≤ len) :
    crypt seed len buffer.length k buffer = .ok (xored seed len k buffer) := by
  induction buffer generalizing k with
  | nil => rfl
  | cons b buffer ih =>
    have hnext : (if k = len then 0 else k) < len := by split <;> omega
    rw [List.length_cons, crypt_cons (Nat.lt_of_lt_of_le hnext hseed), ih hnext, xored]
    rfl

/-- Without one it goes through the array once. -/
theorem crypt_no_key {seed : Bytes} (buffer : Bytes) {k : Nat}
    (hk : k + buffer.length ≤ seed.length) :
    crypt seed 0 buffer.length k buffer = .ok (xored seed 0 k buffer) := by
  induction buffer generalizing k with
  | nil => rfl
  | cons b buffer ih =>
    rw [List.length_cons] at hk ⊢
    have hnext : (if k = 0 then 0 else k) = k := by
      split
      · next h => exact h.symm
      · rfl
    rw [crypt_cons (by rw [hnext]; omega), xored, hnext, ih (by omega)]
    rfl

/-- Behind the end of the array it raises an exception. -/
theorem crypt_no_key_error {seed : Bytes} (buffer : Bytes) {k : Nat}
    (hk : seed.length < k + buffer.length) (hle : k ≤ seed.length) :
    crypt seed 0 buffer.length k buffer = .error .indexOutOfRange := by
  induction buffer generalizing k with
  | nil => exact absurd hk (Nat.not_lt.mpr hle)
  | cons b buffer ih =>
    rw [List.length_cons] at hk ⊢
    have hnext : (if k = 0 then 0 else k) = k := by
      split
      · next h => exact h.symm
      · rfl
    by_cases hend : k < seed.length
    · rw [crypt_cons (by rw [hnext]; exact hend), hnext, ih (by omega) hend]
      rfl
    · rw [crypt, hnext, List.getElem?_eq_none (Nat.le_of_not_lt hend)]

end NetPacket

end GhNet.Network
