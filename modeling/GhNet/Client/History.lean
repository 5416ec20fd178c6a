import GhNet.Client.Codec

/-!
# A packet that is used again

What reads yield is determined by the array and the cursor. `BeginRead()` and `BeginRead(byte[])`
set both; `BeginRead(List<byte>)` leaves the cursor where the last packet's reads have brought it.
-/

namespace GhNet.Client

open GhNet

/-! ## Values -/

/-- What the calls write and read. -/
inductive Value (e : Encoding)
  | byte (c : UInt16)
  | ushort (l : UInt16)
  | short (l : Int16)
  | float (l : Bytes)
  | int (l : Int32)
  | uint (l : UInt32)
  | int64 (l : Int64)
  | uint64 (l : UInt64)
  | string (l : e.Str)

/-- The calls that read. -/
inductive ReadCall
  | byte
  | ushort
  | short
  | float
  | int
  | uint
  | int64
  | uint64
  | string
  deriving DecidableEq, Repr

variable {e : Encoding}

namespace Value

/-- The call that reads a value of the type. -/
def readCall : Value e → ReadCall
  | .byte _ => .byte
  | .ushort _ => .ushort
  | .short _ => .short
  | .float _ => .float
  | .int _ => .int
  | .uint _ => .uint
  | .int64 _ => .int64
  | .uint64 _ => .uint64
  | .string _ => .string

/-- A byte is at most 255, and a float has four bytes. -/
def Fits : Value e → Prop
  | .byte c => c < 256
  | .float l => l.length = 4
  | _ => True

/-- The call that writes the value. It fails for a string that is too long. -/
def write (w : WriteData) : Value e → Option WriteData
  | .byte c => some (w.writeByte c)
  | .ushort l => some (w.writeUShort l)
  | .short l => some (w.writeShort l)
  | .float l => some (w.writeFloat l)
  | .int l => some (w.writeInt l)
  | .uint l => some (w.writeUInt l)
  | .int64 l => some (w.writeInt64 l)
  | .uint64 l => some (w.writeUInt64 l)
  | .string l => w.writeString e l

/-- The bytes that are written. -/
def encode : Value e → Bytes
  | .byte c => [c.toUInt8]
  | .ushort l => (leBytes 2 l.toNat).reverse
  | .short l => (leBytes 2 l.toUInt16.toNat).reverse
  | .float l => l
  | .int l => (leBytes 4 l.toUInt32.toNat).reverse
  | .uint l => (leBytes 4 l.toNat).reverse
  | .int64 l => (leBytes 8 l.toUInt64.toNat).reverse
  | .uint64 l => (leBytes 8 l.toNat).reverse
  | .string l => (leBytes 2 (e.getBytes l).length).reverse ++ e.getBytes l

/-- What a call that writes appends. -/
theorem write_eq {w w' : WriteData} {v : Value e} (h : v.write w = some w') :
    w' = w ++ v.encode := by
  cases v with
  | byte c => exact (Option.some.inj h).symm
  | float l => exact (Option.some.inj h).symm
  | ushort l | short l | int l | uint l | int64 l | uint64 l =>
    rw [← Option.some.inj h]
    exact WriteData.addNumber_eq ..
  | string l =>
    rw [write, WriteData.writeString] at h
    split at h
    · next hlen =>
      have hnum : (UInt16.ofNat (e.getBytes l).length).toNat = (e.getBytes l).length :=
        UInt16.toNat_ofNat_of_lt hlen
      rw [← Option.some.inj h, WriteData.writeUShort, WriteData.addNumber_eq, hnum,
        List.append_assoc]
      rfl
    · cases h

end Value

/-- Writes the values one after the other. -/
def writeValues : List (Value e) → WriteData → Option WriteData
  | [], w => some w
  | v :: vs, w => (v.write w).bind (writeValues vs)

theorem writeValues_eq : ∀ {vs : List (Value e)} {w w' : WriteData},
    writeValues vs w = some w' → w' = w ++ vs.flatMap Value.encode
  | [], w, w', h => by rw [← Option.some.inj h, List.flatMap_nil, List.append_nil]
  | v :: vs, w, w', h => by
    obtain ⟨w₁, hv, hvs⟩ := Option.bind_eq_some_iff.mp h
    rw [writeValues_eq hvs, Value.write_eq hv, List.flatMap_cons, List.append_assoc]

/-! ## Reads -/

/-- `none` is the exception that is raised as long as there is no array. -/
def ReadCall.run (e : Encoding) : ReadCall → CmdPacket → Option (Option (Value e) × CmdPacket)
  | .byte, p => p.readByte.map (Prod.map (Option.map .byte) id)
  | .ushort, p => p.readUShort.map (Prod.map (Option.map .ushort) id)
  | .short, p => p.readShort.map (Prod.map (Option.map .short) id)
  | .float, p => p.readFloat.map (Prod.map (Option.map .float) id)
  | .int, p => p.readInt.map (Prod.map (Option.map .int) id)
  | .uint, p => p.readUInt.map (Prod.map (Option.map .uint) id)
  | .int64, p => p.readInt64.map (Prod.map (Option.map .int64) id)
  | .uint64, p => p.readUInt64.map (Prod.map (Option.map .uint64) id)
  | .string, p => (p.readString e).map (Prod.map (Option.map .string) id)

/-- What a sequence of reads returns. A read that fails does not keep the next from being made. -/
def readResults (e : Encoding) : List ReadCall → CmdPacket → List (Option (Option (Value e)))
  | [], _ => []
  | c :: cs, p =>
    match c.run e p with
    | none => none :: readResults e cs p
    | some (r, p') => some r :: readResults e cs p'

/-! ## The object -/

/-- The whole packet: what is written and what is read. -/
structure Packet where
  m_WriteData : WriteData
  reading : CmdPacket

/-- The three `BeginRead`s. -/
inductive Load
  | own
  | bytes (bytes : Bytes)
  | list (readByte : Bytes)

namespace Packet

/-- A packet nothing was done with. -/
def new : Packet := ⟨[], .new⟩

/-- The packet is loaded by one of the three overloads. -/
def beginRead (p : Packet) : Load → Packet
  | .own => { p with reading := p.reading.beginRead p.m_WriteData }
  | .bytes bytes => { p with reading := p.reading.beginRead bytes }
  -- `m_ReadOffset` stays as it is
  | .list readByte => { p with reading := { p.reading with m_ReadData := some readByte } }

/-- What the packet is loaded with. -/
def loaded (p : Packet) : Load → Bytes
  | .own => p.m_WriteData
  | .bytes bytes => bytes
  | .list readByte => readByte

end Packet

/-- The calls on a packet. -/
inductive Call (e : Encoding)
  | beginWrite
  | write (v : Value e)
  | beginRead (load : Load)
  | read (c : ReadCall)

/-- What a call leaves. An exception leaves the packet as it was. -/
def Packet.step (p : Packet) : Call e → Option Packet
  | .beginWrite => some { p with m_WriteData := [] }
  | .write v => some { p with m_WriteData := (v.write p.m_WriteData).getD p.m_WriteData }
  | .beginRead load => some (p.beginRead load)
  | .read c => some { p with reading := ((c.run e p.reading).map Prod.snd).getD p.reading }

/-! ## Written values come back -/

theorem Value.run_between {v : Value e} {w w' : WriteData} (hfits : v.Fits)
    (hw : v.write w = some w') (front rest : Bytes) :
    v.readCall.run e (.between front (v.encode ++ rest))
      = some (some v, .between (front ++ v.encode) rest) := by
  have hnumber : ∀ {α : Type} (f : Nat → α) (c : α → Value e) {n l : Nat}, l < 256 ^ n →
      c (f l) = v → v.encode = (leBytes n l).reverse →
      (CmdPacket.readAs n (fun b => f (CmdPacket.networkNumber b))
        (.between front (v.encode ++ rest))).map (Prod.map (Option.map c) id)
          = some (some v, .between (front ++ v.encode) rest) := by
    intro α f c n l hl hv hencode
    have hread := CmdPacket.readAs_between (fun b => f (CmdPacket.networkNumber b)) front
      (leBytes n l).reverse rest
    rw [List.length_reverse, length_leBytes, CmdPacket.networkNumber_reverse hl] at hread
    rw [hencode, hread, ← hv]
    rfl
  cases v with
  | ushort l => exact hnumber UInt16.ofNat .ushort l.toNat_lt (by rw [UInt16.ofNat_toNat]) rfl
  | short l =>
    exact hnumber Int16.ofNat .short l.toUInt16.toNat_lt (by rw [Net.int16_ofNat_toUInt16]) rfl
  | uint l => exact hnumber UInt32.ofNat .uint l.toNat_lt (by rw [UInt32.ofNat_toNat]) rfl
  | uint64 l => exact hnumber UInt64.ofNat .uint64 l.toNat_lt (by rw [UInt64.ofNat_toNat]) rfl
  | int l =>
    have hl : Int32.ofNat l.toUInt32.toNat = l := Int32.toBitVec_inj.mp (by simp)
    exact hnumber Int32.ofNat .int l.toUInt32.toNat_lt (by rw [hl]) rfl
  | int64 l =>
    have hl : Int64.ofNat l.toUInt64.toNat = l := Int64.toBitVec_inj.mp (by simp)
    exact hnumber Int64.ofNat .int64 l.toUInt64.toNat_lt (by rw [hl]) rfl
  | byte c =>
    have hread := CmdPacket.readAs_between (fun b => (b.headD 0).toUInt16) front [c.toUInt8] rest
    have hc : c.toUInt8.toUInt16 = c := by
      apply UInt16.toNat_inj.mp
      rw [UInt8.toNat_toUInt16, UInt16.toNat_toUInt8]
      exact Nat.mod_eq_of_lt (UInt16.lt_iff_toNat_lt.mp hfits)
    rw [List.headD_cons, hc] at hread
    exact congrArg (Option.map (Prod.map (Option.map (@Value.byte e)) id)) hread
  | float l =>
    have hread := CmdPacket.readAs_between id front l rest
    rw [show l.length = 4 from hfits] at hread
    exact congrArg (Option.map (Prod.map (Option.map Value.float) id)) hread
  | string l =>
    rw [Value.write, WriteData.writeString] at hw
    split at hw
    · next hlen =>
      have hnum : (UInt16.ofNat (e.getBytes l).length).toNat = (e.getBytes l).length :=
        UInt16.toNat_ofNat_of_lt hlen
      have hshort := CmdPacket.readUShort_between front (e.getBytes l ++ rest) hlen
      have hread := CmdPacket.readAs_between e.getString
        (front ++ be16 (e.getBytes l).length) (e.getBytes l) rest
      rw [e.getString_getBytes, List.append_assoc] at hread
      have hstring : CmdPacket.readString e (.between front ((Value.string l).encode ++ rest))
          = some (some l, .between (front ++ (Value.string l).encode) rest) := by
        rw [Value.encode, ← be16_eq, List.append_assoc, CmdPacket.readString, hshort]
        dsimp only
        rw [hnum]
        exact hread
      exact congrArg (Option.map (Prod.map (Option.map Value.string) id)) hstring
    · cases hw

/-- **Values are read as they were written.** -/
theorem readResults_written : ∀ {vs : List (Value e)} {w w' : WriteData} (front rest : Bytes),
    (∀ v ∈ vs, v.Fits) → writeValues vs w = some w' →
      readResults e (vs.map Value.readCall) (.between front (vs.flatMap Value.encode ++ rest))
        = vs.map fun v => some (some v)
  | [], _, _, _, _, _, _ => rfl
  | v :: vs, w, w', front, rest, hfits, hw => by
    obtain ⟨w₁, hv, hvs⟩ := Option.bind_eq_some_iff.mp hw
    have hrun := Value.run_between (hfits v List.mem_cons_self) hv front
      (vs.flatMap Value.encode ++ rest)
    have ih := readResults_written (front ++ v.encode) rest
      (fun u hu => hfits u (List.mem_cons_of_mem v hu)) hvs
    rw [List.map_cons, readResults, List.flatMap_cons, List.append_assoc, hrun]
    dsimp only
    rw [ih, List.map_cons]

/-! ## Where the cursor stands -/

/-- How many reads succeed. -/
def successes (rs : List (Option (Option (Value e)))) : Nat :=
  rs.countP fun r => (r.bind id).isSome

theorem run_byte (e : Encoding) (data : Bytes) (offset : Nat) :
    (offset + 1 > data.length ∧
      ReadCall.byte.run e ⟨some data, offset⟩ = some (none, ⟨some data, offset⟩)) ∨
    (offset + 1 ≤ data.length ∧ ∃ v,
      ReadCall.byte.run e ⟨some data, offset⟩ = some (some v, ⟨some data, offset + 1⟩)) := by
  have hbytes : CmdPacket.readBytes 1 ⟨some data, offset⟩ =
      some (if offset + 1 > data.length then (none, ⟨some data, offset⟩)
        else (some (slice data offset 1), ⟨some data, offset + 1⟩)) := rfl
  rw [ReadCall.run, CmdPacket.readByte, CmdPacket.readAs, hbytes]
  by_cases h : offset + 1 > data.length
  · rw [if_pos h]
    exact .inl ⟨h, rfl⟩
  · rw [if_neg h]
    exact .inr ⟨Nat.le_of_not_lt h, _, rfl⟩

/-- As many bytes can be read as there are behind the cursor. -/
theorem successes_bytes (e : Encoding) (data : Bytes) (n : Nat) : ∀ offset,
    successes (readResults e (List.replicate n .byte) ⟨some data, offset⟩)
      = min n (data.length - offset) := by
  induction n with
  | zero => exact fun offset => (Nat.zero_min _).symm
  | succ n ih =>
    intro offset
    rw [List.replicate_succ, readResults]
    rcases run_byte e data offset with ⟨hend, hrun⟩ | ⟨hmore, v, hrun⟩
    · rw [hrun]
      show successes (_ :: _) = _
      rw [successes, List.countP_cons_of_neg Bool.false_ne_true]
      have hnone := ih offset
      rw [successes] at hnone
      rw [hnone]
      omega
    · rw [hrun]
      show successes (_ :: _) = _
      rw [successes, List.countP_cons_of_pos rfl]
      have hsome := ih (offset + 1)
      rw [successes] at hsome
      rw [hsome]
      omega

/-! ## What reads depend on -/

namespace Packet

variable {p : Packet} {load : Load}

/-- After the `BeginRead` every sequence of reads returns what it returns on a new packet with these
bytes, and values that were written come back. -/
structure ReadsAsNew (e : Encoding) (p : Packet) (load : Load) : Prop where
  results : ∀ cs : List ReadCall, readResults e cs (p.beginRead load).reading
    = readResults e cs (new.beginRead (.bytes (p.loaded load))).reading
  written : ∀ vs : List (Value e), (∀ v ∈ vs, v.Fits) →
    writeValues vs [] = some (p.loaded load) →
      readResults e (vs.map Value.readCall) (p.beginRead load).reading
        = vs.map fun v => some (some v)

/-- The cursor stands at the beginning behind the `BeginRead`, or there is nothing to read. -/
def Rewound (p : Packet) : Load → Prop
  | .list readByte => p.reading.m_ReadOffset = 0 ∨ readByte = []
  | _ => True

/-- Without bytes the cursor makes no difference. -/
theorem readResults_empty (e : Encoding) (cs : List ReadCall) : ∀ offset,
    readResults e cs ⟨some [], offset⟩ = cs.map fun _ => some none := by
  induction cs with
  | nil => exact fun _ => rfl
  | cons c cs ih =>
    intro offset
    have hbytes : ∀ n, 0 < n → CmdPacket.readBytes n ⟨some [], offset⟩ =
        some (none, ⟨some [], offset⟩) := fun n hn => by
      rw [CmdPacket.readBytes, Option.map_some, if_pos]
      exact Nat.add_pos_right offset hn
    have hrun : c.run e ⟨some [], offset⟩ = some (none, ⟨some [], offset⟩) := by
      cases c <;>
        simp [ReadCall.run, CmdPacket.readByte, CmdPacket.readUShort, CmdPacket.readShort,
          CmdPacket.readFloat, CmdPacket.readInt, CmdPacket.readUInt, CmdPacket.readInt64,
          CmdPacket.readUInt64, CmdPacket.readString, CmdPacket.readAs, hbytes]
    rw [readResults, hrun]
    dsimp only
    rw [ih, List.map_cons]

theorem readsAsNew_of_eq (h : ∀ cs : List ReadCall, readResults e cs (p.beginRead load).reading
    = readResults e cs ⟨some (p.loaded load), 0⟩) : ReadsAsNew e p load where
  results := h
  written vs hfits hw := by
    have hread := readResults_written [] [] hfits hw
    have hdata := writeValues_eq hw
    rw [List.append_nil] at hread
    rw [List.nil_append] at hdata
    rw [h, hdata]
    exact hread

/-- **Reads depend on what was before if and only if a list is loaded behind a read.** -/
theorem readsAsNew_iff (e : Encoding) (p : Packet) (load : Load) :
    ReadsAsNew e p load ↔ p.Rewound load := by
  cases load with
  | own => exact iff_of_true (readsAsNew_of_eq fun _ => rfl) trivial
  | bytes bytes => exact iff_of_true (readsAsNew_of_eq fun _ => rfl) trivial
  | list data =>
    constructor
    · intro hnew
      have hcount := congrArg successes (hnew.results (List.replicate data.length .byte))
      have hstale := successes_bytes e data data.length p.reading.m_ReadOffset
      have hfresh := successes_bytes e data data.length 0
      have heq := hstale.symm.trans (hcount.trans hfresh)
      rw [Rewound, ← List.length_eq_zero_iff]
      omega
    · intro hrewound
      refine readsAsNew_of_eq fun cs => ?_
      rcases hrewound with hzero | rfl
      · show readResults e cs ⟨some data, p.reading.m_ReadOffset⟩ = _
        rw [hzero]
        rfl
      · exact (readResults_empty e cs _).trans (readResults_empty e cs 0).symm

/-- A packet of one byte, which has been read. -/
def used : Packet := ⟨[], ⟨some [7], 1⟩⟩

/-- **The second packet that is loaded as a list is not read from its beginning.** -/
theorem used_not_new : ¬∀ (e : Encoding) (p : Packet) (load : Load),
    Reach (· = new) (@step e) anyStep p → ReadsAsNew e p load := by
  intro h
  have hloaded : Reach (· = new) (@step bytesEncoding) anyStep ⟨[], ⟨some [7], 0⟩⟩ :=
    .next (a := .beginRead (.list [7])) (.start rfl) trivial rfl
  have hused : Reach (· = new) (@step bytesEncoding) anyStep used :=
    .next (a := .read .byte) hloaded trivial rfl
  have hrewound := (readsAsNew_iff _ _ _).mp (h bytesEncoding used (.list [8]) hused)
  rcases hrewound with hzero | hnil
  · cases hzero
  · cases hnil

end Packet

end GhNet.Client
