import Mathlib.Logic.Function.Basic
import GhNet.Net.AllOrNothing

/-!
# The order of the calls of a packet

One length serves both sides of a packet, and each operation sets some of the fields and leaves the
others as they were. So what a call does depends on the calls in front of it: a write goes to
where the last one ended, even if the length is that of bytes that are read; a read takes
`m_nLen` for the size of a buffer that may have another one by now, or that was deleted.

A caller who keeps to an order is safe. A packet is written as long as the length is that of its own
block, and read as long as the length is that of what `BeginRead` has set.
-/

namespace GhNet.Net

open GhNet CmdPacket

/-! ## The calls -/

/-- The calls that write. -/
inductive WriteCall
  | field (f : Field)
  | int64 (l : Int64)
  | uint64 (l : UInt64)

def WriteCall.run : WriteCall → CmdPacket → Option (Bool × CmdPacket)
  | .field f, p => f.write p
  | .int64 l, p => some (p.writeInt64 l)
  | .uint64 l, p => some (p.writeUInt64 l)

/-- The public calls of a packet that change it. The other packet of `CloneFrom` goes by its
number. -/
inductive Call
  | setSize (len : Nat) (memory : Memory)
  | beginWrite
  | beginWriteCopy (buf : Bytes) (len : Nat) (memory : Memory)
  | beginRead (bytes : Bytes) (len : Nat)
  | beginReadOwn
  | cloneFrom (packet : Nat) (behind memory : Memory)
  | write (w : WriteCall)
  | read (r : ReadCall)

/-- What the call returns, where it returns anything, and the packet behind it. -/
def Call.run (packets : Nat → CmdPacket) (p : CmdPacket) : Call → Option (Bool × CmdPacket)
  | .setSize len memory => some (p.setSize len memory)
  | .beginWrite => some (true, p.beginWrite)
  | .beginWriteCopy buf len memory => some (true, p.beginWriteCopy buf len memory)
  | .beginRead bytes len => some (true, p.beginRead bytes len)
  | .beginReadOwn => some (true, p.beginReadOwn)
  | .cloneFrom packet behind memory => some (CmdPacket.cloneFrom (packets packet) behind memory p)
  | .write w => w.run p
  | .read r => some (r.call p)

/-- What a caller has to see to: buffers hold what is said of them and live on, and a read comes
after some `BeginRead`. -/
def Call.Given (i : Nat) (p : CmdPacket) : Call → Prop
  | .beginWriteCopy buf len _ => len ≤ buf.length
  | .beginRead bytes len => len ≤ bytes.length
  | .cloneFrom packet _ _ => packet ≠ i
  | .read _ => p.m_pReadData ≠ .unset
  | _ => True

/-- The call stays inside. A write ends inside the block, and leaves a length that is that of bytes
in the block; a read that moves the cursor finds a buffer that reaches to where it ends; a copy finds
the bytes it copies. -/
def Call.Inside (packets : Nat → CmdPacket) (p : CmdPacket) (ok : Bool) (p' : CmdPacket) :
    Call → Prop
  | .setSize .. | .beginRead .. | .beginReadOwn => True
  | .beginWrite | .beginWriteCopy .. => p'.m_nLen ≤ p'.m_nMaxSize
  | .cloneFrom packet _ _ =>
    (packets packet).m_nLen ≤ (packets packet).m_nMaxSize ∧ p'.m_nLen ≤ p'.m_nMaxSize
  | .write _ =>
    (ok = true → p'.m_nWriteOffset ≤ p'.m_nMaxSize) ∧ p'.m_nLen ≤ p'.m_nMaxSize
  | .read _ =>
    ok = true ∨ p'.m_nReadOffset ≠ p.m_nReadOffset →
      ∃ buf, p.getReadData = some buf ∧ p'.m_nReadOffset ≤ buf.length

/-! ## The order -/

/-- Whose bytes are read. -/
inductive Source
  | own
  | other
  deriving DecidableEq

/-- What the calls so far allow. -/
structure Use where
  writable : Bool
  reading : Option Source
  deriving DecidableEq

/-- A new packet can be written. -/
def Use.new : Use := ⟨true, none⟩

/-- What is allowed behind a call of `p`. -/
def Use.after (p : CmdPacket) (u : Use) : Call → Use
  | .setSize len _ =>
    if len > MAX_CMD_PACKET_SIZE then u
    else
      { writable := u.writable && decide (p.m_nWriteOffset ≤ p.m_nLen ∧ p.m_nLen ≤ len)
        reading := if u.reading = some .own then none else u.reading }
  | .beginWrite => { u with writable := true }
  | .beginWriteCopy .. | .cloneFrom .. => ⟨true, none⟩
  | .beginRead .. => ⟨false, some .other⟩
  | .beginReadOwn => { u with reading := if u.writable then some .own else none }
  | .write _ => { u with reading := if u.reading = some .other then none else u.reading }
  | .read _ => u

/-- The call keeps to the order. -/
def Call.InOrder (uses : Nat → Use) (i : Nat) : Call → Prop
  | .beginWriteCopy _ len _ => len ≤ MAX_CMD_PACKET_SIZE
  | .cloneFrom packet _ _ => (uses packet).writable = true
  | .write _ => (uses i).writable = true
  | .read _ => (uses i).reading ≠ none
  | _ => True

/-! ## Runs -/

/-- The packets of a program, and what the calls of each allow. -/
structure Packets where
  packet : Nat → CmdPacket
  use : Nat → Use

namespace Packets

/-- All packets are new. -/
def Init (s : Packets) : Prop := ∀ i, (∃ memory, s.packet i = CmdPacket.new memory) ∧ s.use i = .new

/-- One call of one packet. There is no step where a call does not come back. -/
def step (s : Packets) : Nat × Call → Option Packets
  | (i, c) =>
    (c.run s.packet (s.packet i)).map fun r =>
      { packet := Function.update s.packet i r.2
        use := Function.update s.use i ((s.use i).after (s.packet i) c) }

/-- What a caller has to see to. -/
def Given (s : Packets) : Nat × Call → Prop
  | (i, c) => c.Given i (s.packet i)

/-- Besides, the caller keeps to the order. -/
def Ordered (s : Packets) : Nat × Call → Prop
  | (i, c) => c.Given i (s.packet i) ∧ c.InOrder s.use i

end Packets

/-! ## What the calls keep -/

namespace CmdPacket

variable {p p' : CmdPacket} {ok : Bool}

/-- Writes go behind what is in the block. -/
structure Behind (p : CmdPacket) : Prop where
  cursor : p.m_nWriteOffset ≤ p.m_nLen
  fits : p.m_nLen ≤ p.m_nMaxSize

/-- Writes go behind what is in the block, or there is no room. -/
structure Writable (p : CmdPacket) : Prop where
  fits : p.m_nLen ≤ p.m_nMaxSize
  cursor : p.m_nLen < p.m_nMaxSize → p.m_nWriteOffset ≤ p.m_nLen

/-- The length is that of bytes that are there. -/
def Points (p : CmdPacket) : Source → Prop
  | .own => p.m_pReadData = .own ∧ p.m_nLen ≤ p.m_nMaxSize
  | .other => ∃ bytes, p.m_pReadData = .bytes bytes ∧ p.m_nLen ≤ bytes.length

theorem Behind.writable (h : p.Behind) : p.Writable := ⟨h.fits, fun _ => h.cursor⟩

theorem Behind.inside (h : p.Behind) : p.m_nWriteOffset ≤ p.m_nMaxSize :=
  Nat.le_trans h.cursor h.fits

theorem Points.buffer {src : Source} (h : p.Points src) :
    ∃ buf, p.getReadData = some buf ∧ p.m_nLen ≤ buf.length := by
  cases src with
  | own =>
    obtain ⟨hptr, hfits⟩ := h
    exact ⟨p.m_pData, by rw [getReadData, hptr], hfits⟩
  | other =>
    obtain ⟨bytes, hptr, hfits⟩ := h
    exact ⟨bytes, by rw [getReadData, hptr], hfits⟩

/-! ### Writes -/

@[simp] theorem m_pReadData_writeData (data : Bytes) (p : CmdPacket) :
    (p.writeData data).2.m_pReadData = p.m_pReadData := by
  unfold writeData
  split <;> rfl

theorem writeData_behind (h : p.Behind) (data : Bytes) : (p.writeData data).2.Behind := by
  constructor
  · unfold writeData
    split
    · exact h.cursor
    · exact Nat.add_le_add_right h.cursor _
  · rw [m_nMaxSize_writeData]
    unfold writeData
    split
    · exact h.fits
    · next hfits => exact Nat.le_of_not_lt hfits

/-- A write into a packet that can be written fails, or it goes behind what is there. -/
theorem writeData_writable (h : p.Writable) {data : Bytes} (hdata : 0 < data.length) :
    p.writeData data = (false, p) ∨ (p.writeData data).2.Behind := by
  by_cases hfits : p.m_nLen + data.length > p.m_nMaxSize
  · exact Or.inl (if_pos hfits)
  · exact Or.inr (writeData_behind ⟨h.cursor (by omega), h.fits⟩ data)

/-- What a write leaves as it was. -/
structure WriteFrame (p p' : CmdPacket) : Prop where
  pointer : p'.m_pReadData = p.m_pReadData
  size : p'.m_nMaxSize = p.m_nMaxSize

theorem WriteFrame.writeData (data : Bytes) (p : CmdPacket) : WriteFrame p (p.writeData data).2 :=
  ⟨m_pReadData_writeData data p, m_nMaxSize_writeData data p⟩

theorem WriteFrame.trans {p'' : CmdPacket} (h : WriteFrame p p') (h' : WriteFrame p' p'') :
    WriteFrame p p'' := ⟨h'.pointer.trans h.pointer, h'.size.trans h.size⟩

/-- A write that failed at once, or one that went behind what is there. -/
def WriteOutcome (p : CmdPacket) (ok : Bool) (p' : CmdPacket) : Prop :=
  (ok = false ∧ p' = p) ∨ (p'.Behind ∧ WriteFrame p p')

theorem writeData_outcome (h : p.Writable) {data : Bytes} (hdata : 0 < data.length) :
    WriteOutcome p (p.writeData data).1 (p.writeData data).2 := by
  rcases writeData_writable h hdata with heq | hbehind
  · exact Or.inl ⟨by rw [heq], by rw [heq]⟩
  · exact Or.inr ⟨hbehind, .writeData data p⟩

/-- The length in front of a string or a binary. -/
theorem writeShort_cases (h : p.Writable) (s : Int16) :
    p.writeShort s = (false, p) ∨
      ∃ p₁, p.writeShort s = (true, p₁) ∧ p₁.Behind ∧ WriteFrame p p₁ := by
  by_cases hfull : p.m_nLen + SHORT_SIZE > p.m_nMaxSize
  · exact Or.inl (if_pos hfull)
  · have hpos : 0 < SHORT_SIZE := by decide
    have htrue : (p.writeShort s).1 = true := by
      rw [writeShort, writeData]
      exact congrArg Prod.fst (if_neg hfull)
    exact Or.inr ⟨(p.writeShort s).2, by rw [← htrue],
      writeData_behind ⟨h.cursor (by omega), h.fits⟩ _, .writeData _ p⟩

theorem write_outcome (h : p.Writable) (w : WriteCall) (hrun : w.run p = some (ok, p')) :
    WriteOutcome p ok p' := by
  have hdata : ∀ data : Bytes, 0 < data.length → some (p.writeData data) = some (ok, p') →
      WriteOutcome p ok p' := by
    intro data hpos heq
    have hout := writeData_outcome h hpos
    rw [Option.some.inj heq] at hout
    exact hout
  -- behind the length of a string or a binary
  have hlast : ∀ (p₁ : CmdPacket) (data : Bytes), p₁.Behind → WriteFrame p p₁ →
      some (p₁.writeData data) = some (ok, p') → WriteOutcome p ok p' := by
    intro p₁ data hbehind hframe heq
    obtain rfl : (p₁.writeData data).2 = p' := by rw [Option.some.inj heq]
    exact Or.inr ⟨writeData_behind hbehind data, hframe.trans (.writeData data p₁)⟩
  cases w with
  | field f =>
    cases f with
    | byte c => exact hdata [c] Nat.one_pos hrun
    | short s => exact hdata (be16 s.toUInt16.toNat) Nat.two_pos hrun
    | ushort s => exact hdata (be16 s.toNat) Nat.two_pos hrun
    | int l => exact hdata (be32 l.toUInt32) (Nat.succ_pos 3) hrun
    | uint l => exact hdata (be32 l) (Nat.succ_pos 3) hrun
    | float f => exact hdata f.val (by rw [f.property]; decide) hrun
    | string str =>
      rw [WriteCall.run, Field.write, writeString] at hrun
      rcases writeShort_cases h (Int16.ofNat (str.val.length + 1)) with
        hfull | ⟨p₁, hshort, hbehind, hframe⟩
      · rw [hfull] at hrun
        obtain ⟨rfl, rfl⟩ := Prod.mk.inj (Option.some.inj hrun)
        exact Or.inl ⟨rfl, rfl⟩
      · rw [hshort] at hrun
        dsimp only at hrun
        split at hrun
        · exact hlast p₁ _ hbehind hframe hrun
        · split at hrun
          · obtain ⟨rfl, rfl⟩ := Prod.mk.inj (Option.some.inj hrun)
            exact Or.inr ⟨hbehind, hframe⟩
          · cases hrun
    | binary data =>
      rw [WriteCall.run, Field.write, writeBinary] at hrun
      rcases writeShort_cases h (Int16.ofNat data.length) with
        hfull | ⟨p₁, hshort, hbehind, hframe⟩
      · rw [hfull] at hrun
        obtain ⟨rfl, rfl⟩ := Prod.mk.inj (Option.some.inj hrun)
        exact Or.inl ⟨rfl, rfl⟩
      · rw [hshort] at hrun
        exact hlast p₁ data hbehind hframe hrun
  | int64 l => exact hdata _ (by rw [length_leBytes]; decide) hrun
  | uint64 l => exact hdata _ (by rw [length_leBytes]; decide) hrun

/-! ### Reads -/

/-- What a read leaves as it was: all but the cursor, and one byte of the buffer. -/
structure ReadFrame (p p' : CmdPacket) : Prop where
  len : p'.m_nLen = p.m_nLen
  writeOffset : p'.m_nWriteOffset = p.m_nWriteOffset
  size : p'.m_nMaxSize = p.m_nMaxSize
  points : ∀ src, p.Points src → p'.Points src

theorem ReadFrame.refl (p : CmdPacket) : ReadFrame p p := ⟨rfl, rfl, rfl, fun _ h => h⟩

theorem ReadFrame.trans {p'' : CmdPacket} (h : ReadFrame p p') (h' : ReadFrame p' p'') :
    ReadFrame p p'' :=
  ⟨h'.len.trans h.len, h'.writeOffset.trans h.writeOffset, h'.size.trans h.size,
    fun src hp => h'.points src (h.points src hp)⟩

/-- The cursor does not matter. -/
theorem ReadFrame.cursor (p : CmdPacket) (off : Nat) :
    ReadFrame p { p with m_nReadOffset := off } := by
  refine ⟨rfl, rfl, rfl, ?_⟩
  rintro (_ | _) h
  · exact h
  · exact h

theorem ReadFrame.pokeRead (p : CmdPacket) (off : Nat) (c : UInt8) :
    ReadFrame p (p.pokeRead off c) := by
  obtain ⟨data, ptr, len, readOffset, writeOffset⟩ := p
  cases ptr with
  | unset => exact .refl _
  | freed => exact .refl _
  | own =>
    have hsize : (overwrite data off [c]).length = data.length := length_overwrite _ _ _
    refine ⟨rfl, rfl, hsize, ?_⟩
    rintro (_ | _) h
    · exact ⟨rfl, Nat.le_trans h.2 (Nat.le_of_eq hsize.symm)⟩
    · obtain ⟨bytes, hptr, -⟩ := h
      cases hptr
  | bytes b =>
    refine ⟨rfl, rfl, rfl, ?_⟩
    rintro (_ | _) h
    · cases h.1
    · obtain ⟨bytes, hptr, hfits⟩ := h
      injection hptr with hptr
      subst hptr
      exact ⟨_, rfl, by rw [length_overwrite]; exact hfits⟩

/-- A read that failed at once, or one that moved the cursor inside the length. -/
def ReadOutcome (p : CmdPacket) (ok : Bool) (p' : CmdPacket) : Prop :=
  ReadFrame p p' ∧ ((ok = false ∧ p' = p) ∨ p'.m_nReadOffset ≤ p.m_nLen)

theorem readData_outcome {α : Type} (len : Nat) (f : Bytes → α) (p : CmdPacket) :
    ReadOutcome p ((p.readData len).1.map f).isSome (p.readData len).2 := by
  unfold readData
  split
  · exact ⟨.refl p, Or.inl ⟨rfl, rfl⟩⟩
  · next hfits => exact ⟨.cursor p _, Or.inr (Nat.le_of_not_lt hfits)⟩

/-- A length, and then what it counts, if it is there. -/
theorem counted_read {last : Int16 → CmdPacket → Option Bytes × CmdPacket}
    (hlast : ∀ len p₁, ReadFrame p₁ (last len p₁).2 ∧
      (last len p₁).2.m_nReadOffset = p₁.m_nReadOffset + len.toInt.toNat) (p : CmdPacket) :
    ReadOutcome p (counted last p).1.isSome (counted last p).2 := by
  have hshort := readData_outcome SHORT_SIZE (fun b => Int16.ofNat (ntohs b)) p
  unfold counted
  cases hs : p.readShort with
  | mk len p₁ =>
    have h1 : (p.readData SHORT_SIZE).1.map (fun b => Int16.ofNat (ntohs b)) = len :=
      congrArg Prod.fst hs
    have h2 : (p.readData SHORT_SIZE).2 = p₁ := congrArg Prod.snd hs
    rw [h1, h2] at hshort
    cases len with
    | none => exact hshort
    | some len =>
      obtain ⟨hframe, ⟨hfalse, -⟩ | hmoved⟩ := hshort
      · cases hfalse
      · dsimp only
        split
        · exact ⟨hframe, Or.inr hmoved⟩
        · split
          · exact ⟨hframe, Or.inr hmoved⟩
          · next hpos hthere =>
            obtain ⟨hframe', hoff⟩ := hlast len p₁
            have hlen := hframe.len
            exact ⟨hframe.trans hframe', Or.inr (by omega)⟩

theorem read_outcome (r : ReadCall) (p : CmdPacket) : ReadOutcome p (r.call p).1 (r.call p).2 := by
  cases r with
  | field k =>
    rw [ReadCall.call]
    cases k with
    | string =>
      rw [Kind.read, isSome_read]
      refine counted_read (fun len p₁ => ⟨?_, ?_⟩) p
      · exact (ReadFrame.pokeRead p₁ _ 0).trans (.cursor _ _)
      · exact congrArg (· + len.toInt.toNat) (m_nReadOffset_pokeRead _ 0 p₁)
    | binary =>
      rw [Kind.read, isSome_read]
      exact counted_read (fun len p₁ => ⟨.cursor p₁ _, rfl⟩) p
    | byte =>
      rw [Kind.read, isSome_read]
      exact readData_outcome _ _ p
    | short =>
      rw [Kind.read, isSome_read]
      exact readData_outcome _ _ p
    | ushort =>
      rw [Kind.read, isSome_read]
      exact readData_outcome _ _ p
    | int =>
      rw [Kind.read, isSome_read]
      exact readData_outcome _ _ p
    | uint =>
      rw [Kind.read, isSome_read]
      exact readData_outcome _ _ p
    | float =>
      have h := readData_outcome FLOAT_SIZE id p
      rw [Option.map_id] at h
      rw [Kind.read, isSome_read]
      exact h
  | int64 => exact readData_outcome _ _ p
  | uint64 => exact readData_outcome _ _ p

/-! ### The calls that begin something -/

theorem m_nMaxSize_setSize {len : Nat} (h : len ≤ MAX_CMD_PACKET_SIZE) (memory : Memory)
    (p : CmdPacket) : p.setSize len memory = (true, { p with
      m_pData := newBlock len memory
      m_pReadData := p.m_pReadData.delete }) := if_neg (Nat.not_lt.mpr h)

/-- A copy fills a block of its size. -/
theorem copyData_spec {len : Nat} (h : len ≤ MAX_CMD_PACKET_SIZE) (buf : Bytes) (memory : Memory)
    (p : CmdPacket) :
    (p.copyData buf len memory).2.m_nLen = len ∧ (p.copyData buf len memory).2.m_nMaxSize = len := by
  rw [copyData, m_nMaxSize_setSize h]
  exact ⟨rfl, (length_overwrite _ _ _).trans (length_newBlock len memory)⟩

theorem writable_of_full (hlen : p.m_nLen = p.m_nMaxSize) : p.Writable :=
  ⟨Nat.le_of_eq hlen, fun hlt => absurd hlen (Nat.ne_of_lt hlt)⟩

end CmdPacket

/-! ## The order is safe -/

/-- What the calls so far allow is safe. -/
structure Use.Holds (u : Use) (p : CmdPacket) : Prop where
  size : p.m_nMaxSize ≤ MAX_CMD_PACKET_SIZE
  writable : u.writable = true → p.Writable
  reading : ∀ src, u.reading = some src → p.Points src

namespace Use.Holds

variable {u : Use} {p p' : CmdPacket} {ok : Bool}

theorem new (memory : Memory) : Use.new.Holds (CmdPacket.new memory) where
  size := by
    rw [m_nMaxSize_new]
    decide
  writable _ := ⟨Nat.zero_le _, fun _ => Nat.le_refl _⟩
  reading _ h := by cases h

theorem setSize (h : u.Holds p) (len : Nat) (memory : Memory) :
    (u.after p (.setSize len memory)).Holds (p.setSize len memory).2 := by
  by_cases hlen : len > MAX_CMD_PACKET_SIZE
  · rw [after, if_pos hlen, CmdPacket.setSize, if_pos hlen]
    exact h
  · have hsize : (newBlock len memory).length = len := length_newBlock len memory
    rw [after, if_neg hlen, CmdPacket.setSize, if_neg hlen]
    refine ⟨Nat.le_trans (Nat.le_of_eq hsize) (Nat.le_of_not_lt hlen), fun hw => ?_, fun src hr => ?_⟩
    · simp only [Bool.and_eq_true, decide_eq_true_eq] at hw
      exact ⟨Nat.le_trans hw.2.2 (Nat.le_of_eq hsize.symm), fun _ => hw.2.1⟩
    · dsimp only at hr
      split at hr
      · cases hr
      · next hown =>
        have hpoints := h.reading src hr
        cases src with
        | own => exact absurd hr hown
        | other =>
          obtain ⟨bytes, hptr, hfits⟩ := hpoints
          exact ⟨bytes, by rw [hptr]; rfl, hfits⟩

theorem beginWrite (h : u.Holds p) : (u.after p .beginWrite).Holds p.beginWrite where
  size := h.size
  writable _ := ⟨Nat.zero_le _, fun _ => Nat.le_refl _⟩
  reading src hr := by
    have hpoints := h.reading src hr
    cases src with
    | own => exact ⟨hpoints.1, Nat.zero_le _⟩
    | other =>
      obtain ⟨bytes, hptr, -⟩ := hpoints
      exact ⟨bytes, hptr, Nat.zero_le _⟩

/-- Behind a copy the block is full. -/
theorem of_full (hlen : p'.m_nLen = p'.m_nMaxSize) (hsize : p'.m_nMaxSize ≤ MAX_CMD_PACKET_SIZE) :
    Use.Holds ⟨true, none⟩ p' where
  size := hsize
  writable _ := writable_of_full hlen
  reading _ h := by cases h

theorem beginRead (h : u.Holds p) {bytes : Bytes} {len : Nat} (hlen : len ≤ bytes.length) :
    (u.after p (.beginRead bytes len)).Holds (p.beginRead bytes len) where
  size := h.size
  writable hw := by cases hw
  reading src hr := by
    cases hr
    exact ⟨bytes, rfl, hlen⟩

theorem beginReadOwn (h : u.Holds p) : (u.after p .beginReadOwn).Holds p.beginReadOwn where
  size := h.size
  writable hw := ⟨(h.writable hw).fits, (h.writable hw).cursor⟩
  reading src hr := by
    rw [after] at hr
    dsimp only at hr
    split at hr
    · next hw =>
      cases hr
      exact ⟨rfl, (h.writable hw).fits⟩
    · cases hr

theorem write (h : u.Holds p) (hw : u.writable = true) {w : WriteCall}
    (hrun : w.run p = some (ok, p')) : (u.after p (.write w)).Holds p' := by
  have hreading : ∀ src, (u.after p (.write w)).reading = some src →
      u.reading = some src ∧ src = .own := by
    intro src hr
    rw [after] at hr
    dsimp only at hr
    split at hr
    · cases hr
    · next hother =>
      cases src with
      | own => exact ⟨hr, rfl⟩
      | other => exact absurd hr hother
  rcases write_outcome (h.writable hw) w hrun with ⟨-, rfl⟩ | ⟨hbehind, hframe⟩
  · exact ⟨h.size, h.writable, fun src hr => h.reading src (hreading src hr).1⟩
  · refine ⟨hframe.size ▸ h.size, fun _ => hbehind.writable, fun src hr => ?_⟩
    obtain ⟨hr, rfl⟩ := hreading src hr
    exact ⟨hframe.pointer.trans (h.reading _ hr).1, hbehind.fits⟩

theorem read (h : u.Holds p) (r : ReadCall) : (u.after p (.read r)).Holds (r.call p).2 := by
  obtain ⟨hframe, -⟩ := read_outcome r p
  refine ⟨hframe.size ▸ h.size, fun hw => ?_, fun src hr => hframe.points src (h.reading src hr)⟩
  have hwritable := h.writable hw
  constructor
  · rw [hframe.len, hframe.size]
    exact hwritable.fits
  · rw [hframe.len, hframe.size, hframe.writeOffset]
    exact hwritable.cursor

end Use.Holds

namespace Packets

variable {s s' : Packets} {i : Nat} {c : Call} {ok : Bool} {p' : CmdPacket}

/-- Every packet is as its calls say. -/
def Safe (s : Packets) : Prop := ∀ i, (s.use i).Holds (s.packet i)

/-- **One call that keeps to the order** stays inside, and the packet is again as its calls say. -/
theorem call_spec (h : s.Safe) (hok : s.Ordered (i, c))
    (hrun : c.run s.packet (s.packet i) = some (ok, p')) :
    c.Inside s.packet (s.packet i) ok p' ∧ ((s.use i).after (s.packet i) c).Holds p' := by
  obtain ⟨hgiven, horder⟩ := hok
  have hi := h i
  cases c with
  | setSize len memory =>
    have hset := hi.setSize len memory
    rw [Option.some.inj hrun] at hset
    exact ⟨trivial, hset⟩
  | beginWrite =>
    obtain ⟨-, rfl⟩ := Prod.mk.inj (Option.some.inj hrun)
    exact ⟨Nat.zero_le _, hi.beginWrite⟩
  | beginWriteCopy buf len memory =>
    obtain ⟨-, rfl⟩ := Prod.mk.inj (Option.some.inj hrun)
    obtain ⟨-, hsize⟩ := copyData_spec horder buf memory (s.packet i)
    have hsize : ((s.packet i).beginWriteCopy buf len memory).m_nMaxSize = len := hsize
    have hfull : ((s.packet i).beginWriteCopy buf len memory).m_nLen
        = ((s.packet i).beginWriteCopy buf len memory).m_nMaxSize := hsize.symm
    exact ⟨Nat.le_of_eq hfull, .of_full hfull (by rw [hsize]; exact horder)⟩
  | beginRead bytes len =>
    obtain ⟨-, rfl⟩ := Prod.mk.inj (Option.some.inj hrun)
    exact ⟨trivial, hi.beginRead hgiven⟩
  | beginReadOwn =>
    obtain ⟨-, rfl⟩ := Prod.mk.inj (Option.some.inj hrun)
    exact ⟨trivial, hi.beginReadOwn⟩
  | cloneFrom packet behind memory =>
    have hsource := (h packet).writable horder
    have hle := Nat.le_trans hsource.fits (h packet).size
    obtain ⟨hlen, hsize⟩ := copyData_spec hle
      (fetch (s.packet packet).m_pData behind (s.packet packet).m_nLen) memory (s.packet i)
    have hp' : ((s.packet i).copyData (fetch (s.packet packet).m_pData behind
        (s.packet packet).m_nLen) (s.packet packet).m_nLen memory).2 = p' :=
      congrArg Prod.snd (Option.some.inj hrun)
    rw [hp'] at hlen hsize
    have hfull : p'.m_nLen = p'.m_nMaxSize := hlen.trans hsize.symm
    exact ⟨⟨hsource.fits, Nat.le_of_eq hfull⟩, .of_full hfull (by rw [hsize]; exact hle)⟩
  | write w =>
    refine ⟨?_, hi.write horder hrun⟩
    rcases write_outcome (hi.writable horder) w hrun with ⟨rfl, rfl⟩ | ⟨hbehind, -⟩
    · exact ⟨nofun, (hi.writable horder).fits⟩
    · exact ⟨fun _ => hbehind.inside, hbehind.fits⟩
  | read r =>
    have hcall : r.call (s.packet i) = (ok, p') := Option.some.inj hrun
    have hout := read_outcome r (s.packet i)
    have hread := hi.read r
    rw [hcall] at hout hread
    refine ⟨fun hmoved => ?_, hread⟩
    obtain ⟨src, hsrc⟩ := Option.ne_none_iff_exists'.mp horder
    obtain ⟨buf, hbuf, hfits⟩ := (hi.reading src hsrc).buffer
    obtain ⟨-, ⟨rfl, rfl⟩ | hle⟩ := hout
    · rcases hmoved with hmoved | hmoved
      · cases hmoved
      · exact absurd rfl hmoved
    · exact ⟨buf, hbuf, Nat.le_trans hle hfits⟩

theorem safe_step (h : s.Safe) (hok : s.Ordered (i, c)) (hs : s.step (i, c) = some s') :
    s'.Safe := by
  obtain ⟨⟨ok, p'⟩, hrun, rfl⟩ := Option.map_eq_some_iff.mp hs
  intro j
  dsimp only
  by_cases hj : j = i
  · subst hj
    rw [Function.update_self, Function.update_self]
    exact (call_spec h hok hrun).2
  · rw [Function.update_of_ne hj, Function.update_of_ne hj]
    exact h j

/-- **Whoever keeps to the order stays inside.** In a run whose calls keep to the order, every call
that does so stays inside. -/
theorem inside_of_ordered (hr : Reach Init step Ordered s) (hok : s.Ordered (i, c))
    (hrun : c.run s.packet (s.packet i) = some (ok, p')) :
    c.Inside s.packet (s.packet i) ok p' := by
  have hsafe : s.Safe := by
    refine hr.invariant Safe (fun s h0 i => ?_) fun s a s' h hok hs => safe_step h hok hs
    obtain ⟨⟨memory, hnew⟩, huse⟩ := h0 i
    rw [hnew, huse]
    exact .new memory
  exact (call_spec hsafe hok hrun).1

/-! ### Runs -/

instance decidableGiven (i : Nat) (p : CmdPacket) : (c : Call) → Decidable (c.Given i p)
  | .beginWriteCopy buf len _ => inferInstanceAs (Decidable (len ≤ buf.length))
  | .beginRead bytes len => inferInstanceAs (Decidable (len ≤ bytes.length))
  | .cloneFrom packet _ _ => inferInstanceAs (Decidable (packet ≠ i))
  | .read _ => inferInstanceAs (Decidable (p.m_pReadData ≠ .unset))
  | .setSize .. | .beginWrite | .beginReadOwn | .write _ => .isTrue trivial

instance decidableInOrder (uses : Nat → Use) (i : Nat) : (c : Call) → Decidable (c.InOrder uses i)
  | .beginWriteCopy _ len _ => inferInstanceAs (Decidable (len ≤ MAX_CMD_PACKET_SIZE))
  | .cloneFrom packet _ _ => inferInstanceAs (Decidable ((uses packet).writable = true))
  | .write _ => inferInstanceAs (Decidable ((uses i).writable = true))
  | .read _ => inferInstanceAs (Decidable ((uses i).reading ≠ none))
  | .setSize .. | .beginWrite | .beginRead .. | .beginReadOwn => .isTrue trivial

instance (s : Packets) : (a : Nat × Call) → Decidable (s.Given a)
  | (i, c) => decidableGiven i (s.packet i) c

instance (s : Packets) : (a : Nat × Call) → Decidable (s.Ordered a)
  | (i, c) => inferInstanceAs (Decidable (c.Given i (s.packet i) ∧ c.InOrder s.use i))

/-- Memory is zero, and nothing was called. -/
def new : Packets := ⟨fun _ => CmdPacket.new fun _ => 0, fun _ => .new⟩

theorem init_new : new.Init := fun _ => ⟨⟨_, rfl⟩, rfl⟩

/-- A number is written into one packet, which is copied to another, and the copy is read. -/
def copied : List (Nat × Call) :=
  [(0, .beginWrite), (0, .write (.field (.int 7))), (1, .cloneFrom 0 (fun _ => 0) fun _ => 0),
    (1, .beginReadOwn)]

theorem copied_runs : (exec step new copied).isSome = true := by decide +kernel

theorem inside_of_ordered_copied :
    ∃ s p', Reach Init step Ordered s ∧
      (Call.read (.field .int)).run s.packet (s.packet 1) = some (true, p') ∧
      (Call.read (.field .int)).Inside s.packet (s.packet 1) true p' := by
  obtain ⟨s, hs⟩ := Option.isSome_iff_exists.mp copied_runs
  have hr : Reach Init step Ordered s := .of_exec (.start init_new) (by decide +kernel) hs
  have hget : s = (exec step new copied).get copied_runs :=
    (Option.get_of_eq_some copied_runs hs).symm
  have hok : s.Ordered (1, .read (.field .int)) := by
    rw [hget]
    decide +kernel
  have htrue : ((ReadCall.field .int).call (s.packet 1)).1 = true := by
    rw [hget]
    decide +kernel
  have hrun : (Call.read (.field .int)).run s.packet (s.packet 1)
      = some (true, ((ReadCall.field .int).call (s.packet 1)).2) := by
    rw [← htrue]
    rfl
  exact ⟨s, _, hr, hrun, inside_of_ordered hr hok hrun⟩

/-- Four bytes are written into a block of four, and then one byte of another buffer is read. -/
def shared : List (Nat × Call) :=
  [(0, .setSize 4 fun _ => 0), (0, .write (.field (.int 7))), (0, .beginRead [1] 1)]

theorem shared_runs : (exec step new shared).isSome = true := by decide +kernel

/-- The length is that of the other buffer: one byte more is written behind the block. -/
theorem not_inside :
    ¬∀ (s : Packets) (i : Nat) (c : Call) (ok : Bool) (p' : CmdPacket), Reach Init step Given s →
      s.Given (i, c) → c.run s.packet (s.packet i) = some (ok, p') →
        c.Inside s.packet (s.packet i) ok p' := by
  intro h
  have hr : Reach Init step Given ((exec step new shared).get shared_runs) :=
    .of_exec (.start init_new) (by decide +kernel) (Option.some_get _).symm
  have hinside := h _ 0 (.write (.field (.byte 9))) _ _ hr trivial rfl
  exact absurd (hinside.1 (by decide +kernel)) (by decide +kernel)

end Packets

end GhNet.Net
