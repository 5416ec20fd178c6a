import GhNet.Net.Int64

/-!
# Reads and writes that stop half way

`WriteString` and `WriteBinary` write the length and then what it counts, `ReadString` and
`ReadBinary` read the length and then look whether what it counts is there. When the second step
fails the first one is not taken back: the packet keeps a length without a payload, and the cursor
stands behind a length that was not used. Besides, the length is put into a `short` before anything
is compared.
-/

namespace GhNet.Net

open GhNet

namespace CmdPacket

variable {p p' : CmdPacket}

/-! ## Writing -/

/-- The calls that write a length and what it counts. -/
inductive PayloadWrite
  | string (str : CString)
  | binary (data : Bytes)

namespace PayloadWrite

/-- What the length counts. -/
def payload : PayloadWrite → Bytes
  | .string str => str.val ++ [0]
  | .binary data => data

/-- The call on the packet. -/
def call : PayloadWrite → CmdPacket → Option (Bool × CmdPacket)
  | .string str, p => p.writeString str
  | .binary data, p => some (p.writeBinary data)

/-- The call returns `true` exactly if the length and all it counts fit, and then they are
appended, with a length that is the right one; or it returns `false` and changes nothing. -/
def AllOrNothing (w : PayloadWrite) (p : CmdPacket) : Prop :=
  ∃ ok p', w.call p = some (ok, p') ∧
    (ok = true ↔ p.m_nLen + (SHORT_SIZE + w.payload.length) ≤ p.m_nMaxSize) ∧
    (ok = true → p'.Writing ∧ ∃ count : Int16, count.toInt = w.payload.length ∧
      p'.written = p.written ++ (be16 count.toUInt16.toNat ++ w.payload)) ∧
    (ok = false → p'.m_nLen = p.m_nLen ∧ p'.m_nWriteOffset = p.m_nWriteOffset ∧
      p'.m_pData = p.m_pData)

/-- Not even the length fits, or it is a `short` and all fits. -/
def Fits (w : PayloadWrite) (p : CmdPacket) : Prop :=
  p.m_nMaxSize < p.m_nLen + SHORT_SIZE ∨
    w.payload.length ≤ 32767 ∧ p.m_nLen + (SHORT_SIZE + w.payload.length) ≤ p.m_nMaxSize

end PayloadWrite

theorem writeShort_of_room (h : p.Writing) (s : Int16)
    (hroom : p.m_nLen + SHORT_SIZE ≤ p.m_nMaxSize) :
    ∃ p₁, p.writeShort s = (true, p₁) ∧ p₁.Writing ∧
      p₁.written = p.written ++ be16 s.toUInt16.toNat ∧ p₁.m_nLen = p.m_nLen + SHORT_SIZE ∧
      p₁.m_nMaxSize = p.m_nMaxSize :=
  writeData_spec h hroom

theorem writeShort_of_full (s : Int16) (hfull : p.m_nMaxSize < p.m_nLen + SHORT_SIZE) :
    p.writeShort s = (false, p) := if_pos hfull

theorem m_nLen_le_writeData (data : Bytes) (p : CmdPacket) :
    p.m_nLen ≤ (p.writeData data).2.m_nLen := by
  unfold writeData
  split
  · exact Nat.le_refl _
  · exact Nat.le_add_right _ _

/-- Once there is room for the length it stays, whatever comes of the rest. -/
theorem PayloadWrite.call_grows {w : PayloadWrite} {ok : Bool} (h : p.Writing)
    (hroom : p.m_nLen + SHORT_SIZE ≤ p.m_nMaxSize) (hcall : w.call p = some (ok, p')) :
    p.m_nLen + SHORT_SIZE ≤ p'.m_nLen := by
  cases w with
  | string str =>
    obtain ⟨p₁, hs, -, -, hlen, -⟩ :=
      writeShort_of_room h (Int16.ofNat (str.val.length + 1)) hroom
    rw [call, writeString, hs] at hcall
    dsimp only at hcall
    rw [← hlen]
    split at hcall
    · have hle := m_nLen_le_writeData
        ((str.val ++ [0]).take (Int16.ofNat (str.val.length + 1)).toInt.toNat) p₁
      rw [Option.some.inj hcall] at hle
      exact hle
    · split at hcall
      · obtain ⟨-, rfl⟩ := Prod.mk.inj (Option.some.inj hcall)
        exact Nat.le_refl _
      · cases hcall
  | binary data =>
    obtain ⟨p₁, hs, -, -, hlen, -⟩ := writeShort_of_room h (Int16.ofNat data.length) hroom
    rw [call, writeBinary, hs] at hcall
    have hle := m_nLen_le_writeData data p₁
    have heq : p₁.writeData data = (ok, p') := Option.some.inj hcall
    rw [heq] at hle
    exact hlen ▸ hle

/-- A length that is a `short` makes a string a binary. -/
theorem PayloadWrite.call_eq {w : PayloadWrite} (h : w.payload.length ≤ 32767) (p : CmdPacket) :
    w.call p = some (p.writeBinary w.payload) := by
  cases w with
  | string str =>
    rw [payload, List.length_append, List.length_singleton] at h
    exact writeString_eq str h p
  | binary data => rfl

theorem PayloadWrite.call_full (w : PayloadWrite) (hfull : p.m_nMaxSize < p.m_nLen + SHORT_SIZE) :
    w.call p = some (false, p) := by
  cases w with
  | string str => rw [call, writeString, writeShort_of_full _ hfull]
  | binary data => rw [call, writeBinary, writeShort_of_full _ hfull]

/-- **When a write is all or nothing.** -/
theorem PayloadWrite.allOrNothing_iff (w : PayloadWrite) (h : p.Writing) :
    w.AllOrNothing p ↔ w.Fits p := by
  constructor
  · rintro ⟨ok, p', hcall, hok, htrue, hfalse⟩
    by_cases hroom : p.m_nLen + SHORT_SIZE ≤ p.m_nMaxSize
    · right
      have hgrow := call_grows h hroom hcall
      cases ok with
      | false =>
        have hsame := (hfalse rfl).1
        unfold SHORT_SIZE at hgrow
        omega
      | true =>
        obtain ⟨-, count, hcount, -⟩ := htrue rfl
        have hlt := count.toInt_lt
        exact ⟨by omega, hok.mp rfl⟩
    · exact Or.inl (Nat.lt_of_not_le hroom)
  · rintro (hfull | ⟨hshort, hfits⟩)
    · refine ⟨false, p, w.call_full hfull, ?_, nofun, fun _ => ⟨rfl, rfl, rfl⟩⟩
      constructor
      · nofun
      · intro hle
        omega
    · obtain ⟨p₁, hs, hw₁, hwritten₁, hlen₁, hmax₁⟩ :=
        writeShort_of_room h (Int16.ofNat w.payload.length) (by omega)
      obtain ⟨p₂, hd, hw₂, hwritten₂, -, -⟩ := writeData_spec hw₁
        (show p₁.m_nLen + w.payload.length ≤ p₁.m_nMaxSize by omega)
      refine ⟨true, p₂, ?_, ⟨fun _ => hfits, fun _ => rfl⟩, fun _ => ⟨hw₂, _, toInt_short hshort, ?_⟩,
        nofun⟩
      · rw [call_eq hshort, writeBinary, hs]
        exact congrArg some hd
      · rw [hwritten₂, hwritten₁, List.append_assoc]

/-! ## Reading -/

/-- The calls that read. -/
inductive ReadCall
  | field (k : Kind)
  | int64
  | uint64

/-- What the call returns, and the packet behind it. -/
def ReadCall.call : ReadCall → CmdPacket → Bool × CmdPacket
  | .field k, p => (k.read p).map Option.isSome id
  | .int64, p => p.readInt64.map Option.isSome id
  | .uint64, p => p.readUInt64.map Option.isSome id

/-- The length at the cursor. -/
def countAt (p : CmdPacket) : Int := (Int16.ofNat (ntohs (p.unread.take SHORT_SIZE))).toInt

/-- The length at the cursor counts nothing, or more than there is. -/
def Broken (p : CmdPacket) : Prop := p.countAt ≤ 0 ∨ (p.unread.length : Int) < SHORT_SIZE + p.countAt

/-- There is no whole length at the cursor, or there is a positive one and all that it counts. -/
def ReadCall.Whole (p : CmdPacket) : ReadCall → Prop
  | .field .string | .field .binary => p.unread.length < SHORT_SIZE ∨ ¬p.Broken
  | _ => True

theorem readShort_eq (h : p.Reading) :
    p.readShort = if SHORT_SIZE ≤ p.unread.length
      then (some (Int16.ofNat (ntohs (p.unread.take SHORT_SIZE))), p.advance SHORT_SIZE)
      else (none, p) := by
  rw [readShort, readData_eq h]
  by_cases hlen : SHORT_SIZE ≤ p.unread.length
  · simp only [if_pos hlen, Option.map_some]
  · simp only [if_neg hlen, Option.map_none]

/-- A read of a length and what it counts: it fails at once, or behind the length, or it succeeds. -/
def Outcome (p : CmdPacket) (r : Option Bytes × CmdPacket) : Prop :=
  (p.unread.length < SHORT_SIZE ∧ r = (none, p)) ∨
    (SHORT_SIZE ≤ p.unread.length ∧ p.Broken ∧ r = (none, p.advance SHORT_SIZE)) ∨
    (¬p.Broken ∧ r.1 ≠ none)

/-- What `ReadString` and `ReadBinary` have in common: they read a length and look whether it is
positive and there is as much. -/
def counted (last : Int16 → CmdPacket → Option Bytes × CmdPacket) (p : CmdPacket) :
    Option Bytes × CmdPacket :=
  match p.readShort with
  | (none, p) => (none, p)
  | (some len, p) =>
    if len.toInt ≤ 0 then (none, p)
    else if (p.m_nReadOffset : Int) + len.toInt > p.m_nLen then (none, p)
    else last len p

theorem counted_outcome (h : p.Reading) {last : Int16 → CmdPacket → Option Bytes × CmdPacket}
    (hlast : ∀ len, (last len (p.advance SHORT_SIZE)).1 ≠ none) : Outcome p (counted last p) := by
  have hlen := h.length_unread
  have hcursor := h.cursor
  rw [Outcome, Broken, countAt, counted, readShort_eq h]
  by_cases hshort : SHORT_SIZE ≤ p.unread.length
  · rw [if_pos hshort]
    dsimp only
    rw [m_nReadOffset_advance, m_nLen_advance]
    split
    · next hneg => exact Or.inr (Or.inl ⟨hshort, Or.inl hneg, rfl⟩)
    · split
      · next hover => exact Or.inr (Or.inl ⟨hshort, Or.inr (by omega), rfl⟩)
      · exact Or.inr (Or.inr ⟨by omega, hlast _⟩)
  · rw [if_neg hshort]
    exact Or.inl ⟨Nat.lt_of_not_le hshort, rfl⟩

theorem readBinary_outcome (h : p.Reading) : Outcome p p.readBinary := by
  obtain ⟨buf, hbuf⟩ := Option.ne_none_iff_exists'.mp h.pointed
  refine counted_outcome h fun len => ?_
  rw [getReadData_advance, hbuf]
  nofun

theorem readString_outcome (h : p.Reading) : Outcome p p.readString := by
  obtain ⟨buf, hbuf⟩ := Option.ne_none_iff_exists'.mp h.pointed
  have hbuf' : (p.advance SHORT_SIZE).getReadData = some buf := hbuf
  refine counted_outcome h fun len => ?_
  dsimp only
  rw [getReadData_pokeRead _ _ hbuf']
  nofun

/-- A failing `ReadData` leaves the packet as it is. -/
theorem readData_none {len : Nat} (h : p.Reading) (hnone : (p.readData len).1 = none) :
    (p.readData len).2 = p := by
  rw [readData_eq h] at hnone ⊢
  split at hnone
  · cases hnone
  · next hlen => rw [if_neg hlen]

theorem Outcome.restores_iff {r : Option Bytes × CmdPacket} (h : Outcome p r) :
    (r.1.isSome = false → r.2.m_nReadOffset = p.m_nReadOffset) ↔
      p.unread.length < SHORT_SIZE ∨ ¬p.Broken := by
  rcases h with ⟨hshort, rfl⟩ | ⟨hshort, hbroken, rfl⟩ | ⟨hwhole, hsome⟩
  · exact ⟨fun _ => Or.inl hshort, fun _ _ => rfl⟩
  · constructor
    · intro hsame
      have := hsame rfl
      rw [m_nReadOffset_advance] at this
      unfold SHORT_SIZE at this
      omega
    · rintro (hlt | hwhole)
      · exact absurd hshort (Nat.not_le.mpr hlt)
      · exact absurd hbroken hwhole
  · refine ⟨fun _ => Or.inr hwhole, fun _ hnone => ?_⟩
    rw [Option.isSome_eq_false_iff, Option.isNone_iff_eq_none] at hnone
    exact absurd hnone hsome

/-- A read of a fixed size that fails leaves the packet as it is. -/
theorem fixed_restores {α : Type} {len : Nat} {r : Option α × CmdPacket} (h : p.Reading)
    (f : Bytes → α) (hr : r = ((p.readData len).1.map f, (p.readData len).2)) :
    r.1.isSome = false → r.2.m_nReadOffset = p.m_nReadOffset := by
  subst hr
  intro hnone
  rw [Option.isSome_map, Option.isSome_eq_false_iff, Option.isNone_iff_eq_none] at hnone
  rw [readData_none h hnone]

/-- What is made of the bytes does not matter. -/
theorem isSome_read {α : Type} (g : α → Value) (r : Option α × CmdPacket) :
    (r.map (Option.map g) id).map Option.isSome id = (r.1.isSome, r.2) := by
  rw [Prod.map, Prod.map, Option.isSome_map]
  rfl

/-- **When a read that fails leaves the cursor where it was.** -/
theorem ReadCall.restores_iff (r : ReadCall) (h : p.Reading) :
    ((r.call p).1 = false → (r.call p).2.m_nReadOffset = p.m_nReadOffset) ↔ r.Whole p := by
  cases r with
  | field k =>
    rw [call]
    cases k with
    | string =>
      rw [Kind.read, isSome_read]
      exact (readString_outcome h).restores_iff
    | binary =>
      rw [Kind.read, isSome_read]
      exact (readBinary_outcome h).restores_iff
    | byte =>
      rw [Kind.read, isSome_read]
      exact iff_true_intro (fixed_restores h _ rfl)
    | short =>
      rw [Kind.read, isSome_read]
      exact iff_true_intro (fixed_restores h _ rfl)
    | ushort =>
      rw [Kind.read, isSome_read]
      exact iff_true_intro (fixed_restores h _ rfl)
    | int =>
      rw [Kind.read, isSome_read]
      exact iff_true_intro (fixed_restores h _ rfl)
    | uint =>
      rw [Kind.read, isSome_read]
      exact iff_true_intro (fixed_restores h _ rfl)
    | float =>
      rw [Kind.read, isSome_read]
      refine iff_true_intro fun hnone => ?_
      rw [Option.isSome_eq_false_iff, Option.isNone_iff_eq_none] at hnone
      exact congrArg m_nReadOffset (readData_none h hnone)
  | int64 => exact iff_true_intro (fixed_restores h _ rfl)
  | uint64 => exact iff_true_intro (fixed_restores h _ rfl)

/-- **All or nothing.** A write of a length and what it counts is all or nothing exactly if not even
the length fits, or it is a `short` and all fits; a read that fails leaves the cursor exactly if it
finds no length, or what the length says is right. -/
theorem all_or_nothing_iff (p : CmdPacket) :
    (p.Writing → ∀ w : PayloadWrite, w.AllOrNothing p ↔ w.Fits p) ∧
      (p.Reading → ∀ r : ReadCall,
        ((r.call p).1 = false → (r.call p).2.m_nReadOffset = p.m_nReadOffset) ↔ r.Whole p) :=
  ⟨fun h w => w.allOrNothing_iff h, fun h r => r.restores_iff h⟩

/-- A new packet that was made small. -/
def small : CmdPacket := ((new fun _ => 0).setSize 4 fun _ => 0).2.beginWrite

theorem all_or_nothing_small :
    (∀ w : PayloadWrite, w.AllOrNothing small ↔ w.Fits small) ∧
      ∀ r : ReadCall,
        ((r.call (small.beginRead [0, 2, 104, 0] 4)).1 = false →
          (r.call (small.beginRead [0, 2, 104, 0] 4)).2.m_nReadOffset = 0) ↔
        r.Whole (small.beginRead [0, 2, 104, 0] 4) :=
  ⟨(all_or_nothing_iff small).1 ⟨rfl, Nat.zero_le _⟩,
    (all_or_nothing_iff (small.beginRead [0, 2, 104, 0] 4)).2
      ⟨nofun, Nat.le_refl 4, Nat.zero_le _⟩⟩

/-- Three bytes do not fit behind their length in four, and the length stays. -/
theorem binary_not_all_or_nothing :
    ¬∀ p : CmdPacket, p.Writing → ∀ w : PayloadWrite, w.AllOrNothing p := by
  intro h
  obtain ⟨ok, p', hcall, -, -, hsame⟩ := h small ⟨rfl, Nat.zero_le _⟩ (.binary [1, 2, 3])
  have hwrite : PayloadWrite.call (.binary [1, 2, 3]) small
      = some (false, (small.writeShort 3).2) := rfl
  rw [hwrite] at hcall
  obtain ⟨rfl, rfl⟩ := Prod.mk.inj (Option.some.inj hcall)
  exact absurd (hsame rfl).1 (by decide)

end CmdPacket

end GhNet.Net
