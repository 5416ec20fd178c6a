import GhNet.Client.CmdPacket
import GhNet.Net.Fields

/-!
# The two packets of one connection

The server and its client each have a `CmdPacket` of their own, and what one writes the other reads.

They agree on every field but the string. The server counts the terminator and sends it, the client
does neither: so the server takes the last byte of a client's string for the terminator, and the
client finds a terminator at the end of the server's.
-/

namespace GhNet.Client

open GhNet GhNet.Net

/-! ## The fields that both have -/

/-- A string that the server can hold. -/
abbrev WireString (e : Encoding) : Type :=
  { s : e.Str // (0 : UInt8) ∉ e.getBytes s ∧ (e.getBytes s).length ≤ 32766 }

/-- A field that both packets have a call for. -/
inductive CommonField (e : Encoding)
  | byte (c : UInt8)
  | short (s : Int16)
  | ushort (s : UInt16)
  | int (l : Int32)
  | uint (l : UInt32)
  | float (f : FloatBytes)
  | string (s : WireString e)

/-- What a read of the client yields. -/
inductive ClientValue (e : Encoding)
  | byte (c : UInt16)
  | short (s : Int16)
  | ushort (s : UInt16)
  | int (l : Int32)
  | uint (l : UInt32)
  | float (f : Bytes)
  | string (s : e.Str)

variable {e : Encoding}

namespace CommonField

/-- The field as the server has it. -/
def field : CommonField e → Field
  | .byte c => .byte c
  | .short s => .short s
  | .ushort s => .ushort s
  | .int l => .int l
  | .uint l => .uint l
  | .float f => .float f
  | .string s => .string ⟨e.getBytes s.val, s.property.1⟩

/-- The value as the client has it. -/
def value : CommonField e → ClientValue e
  | .byte c => .byte c.toUInt16
  | .short s => .short s
  | .ushort s => .ushort s
  | .int l => .int l
  | .uint l => .uint l
  | .float f => .float f.val
  | .string s => .string s.val

/-- The field is a string. -/
def IsString : CommonField e → Prop
  | .string _ => True
  | _ => False

/-- The bytes that the client writes for the field. -/
def clientEncode : CommonField e → Bytes
  | .string s => be16 (e.getBytes s.val).length ++ e.getBytes s.val
  | f => f.field.encode

theorem sized (f : CommonField e) : f.field.Sized := by
  cases f with
  | string s => exact Nat.succ_le_succ s.property.2
  | _ => trivial

theorem clientEncode_of_not_string {f : CommonField e} (h : ¬f.IsString) :
    f.clientEncode = f.field.encode := by
  cases f with
  | string s => exact absurd trivial h
  | _ => rfl

end CommonField

/-- The call of the client that writes a field. -/
def writeField (w : WriteData) : CommonField e → Option WriteData
  | .byte c => some (w.writeByte c.toUInt16)
  | .short s => some (w.writeShort s)
  | .ushort s => some (w.writeUShort s)
  | .int l => some (w.writeInt l)
  | .uint l => some (w.writeUInt l)
  | .float f => some (w.writeFloat f.val)
  | .string s => w.writeString e s.val

/-- The call of the client that reads a field. There is none for a binary. -/
def readField (e : Encoding) : Kind → CmdPacket → Option (Option (ClientValue e) × CmdPacket)
  | .byte, p => p.readByte.map (Prod.map (Option.map .byte) id)
  | .short, p => p.readShort.map (Prod.map (Option.map .short) id)
  | .ushort, p => p.readUShort.map (Prod.map (Option.map .ushort) id)
  | .int, p => p.readInt.map (Prod.map (Option.map .int) id)
  | .uint, p => p.readUInt.map (Prod.map (Option.map .uint) id)
  | .float, p => p.readFloat.map (Prod.map (Option.map .float) id)
  | .string, p => (p.readString e).map (Prod.map (Option.map .string) id)
  | .binary, _ => none

/-- Reads fields one after the other, as long as that succeeds. -/
def readFields (e : Encoding) :
    List Kind → CmdPacket → Option (Option (List (ClientValue e)) × CmdPacket)
  | [], p => some (some [], p)
  | k :: ks, p =>
    match readField e k p with
    | none => none
    | some (none, p) => some (none, p)
    | some (some v, p) => (readFields e ks p).map (Prod.map (Option.map (v :: ·)) id)

/-! ## What the client writes -/

theorem be32_eq (l : UInt32) : Net.CmdPacket.be32 l = (leBytes 4 l.toNat).reverse := by
  have hbyte : ∀ k, k ≤ 24 → (l >>> UInt32.ofNat k).toUInt8 = UInt8.ofNat (l.toNat / 2 ^ k) := by
    intro k hk
    apply UInt8.toNat_inj.mp
    rw [UInt32.toNat_toUInt8, UInt32.toNat_shiftRight, UInt8.toNat_ofNat', UInt32.toNat_ofNat',
      Nat.mod_eq_of_lt (show k < 2 ^ 32 by omega), Nat.mod_eq_of_lt (show k < 32 by omega),
      Nat.shiftRight_eq_div_pow]
  have h24 := hbyte 24 (by decide)
  have h16 := hbyte 16 (by decide)
  have h8 := hbyte 8 (by decide)
  simp only [leBytes, List.reverse_cons, List.reverse_nil, List.nil_append, List.cons_append,
    Nat.div_div_eq_div_mul]
  exact congrArg₂ _ h24 (congrArg₂ _ h16 (congrArg₂ _ h8 (congrArg₂ _ (by simp) rfl)))

theorem writeField_eq (w : WriteData) (f : CommonField e) :
    writeField w f = some (w ++ f.clientEncode) := by
  cases f with
  | byte c =>
    show some (w ++ [c.toUInt16.toUInt8]) = some (w ++ [c])
    simp
  | short s => exact congrArg some (WriteData.addNumber_eq ..)
  | ushort s => exact congrArg some (WriteData.addNumber_eq ..)
  | int l =>
    refine congrArg some ((WriteData.addNumber_eq ..).trans ?_)
    rw [← be32_eq]
    rfl
  | uint l =>
    refine congrArg some ((WriteData.addNumber_eq ..).trans ?_)
    rw [← be32_eq]
    rfl
  | float f => rfl
  | string s =>
    have hlen := s.property.2
    have hnum : (UInt16.ofNat (e.getBytes s.val).length).toNat = (e.getBytes s.val).length :=
      UInt16.toNat_ofNat_of_lt (by show _ < 65536; omega)
    show (if _ then some _ else none) = _
    rw [if_pos (by omega), WriteData.writeUShort, WriteData.addNumber_eq, hnum, ← be16_eq,
      List.append_assoc]
    rfl

theorem exec_writeField (w : WriteData) (fs : List (CommonField e)) :
    exec writeField w fs = some (w ++ fs.flatMap CommonField.clientEncode) := by
  induction fs generalizing w with
  | nil => exact congrArg some (List.append_nil w).symm
  | cons f fs ih =>
    rw [exec, writeField_eq]
    dsimp only
    rw [ih, List.flatMap_cons, List.append_assoc]

/-! ## What the server reads of it -/

/-- The server reads all of what the client wrote only if there is no string: a string comes out
shorter, or not at all. -/
theorem not_string_of_read {fs : List (CommonField e)} {p : Net.CmdPacket} (h : p.Reading)
    (hun : p.unread = fs.flatMap CommonField.clientEncode)
    (hread : (Net.readFields (fs.map fun f => f.field.kind) p).1
      = some (fs.map fun f => f.field.value)) :
    ∀ f ∈ fs, ¬f.IsString := by
  induction fs generalizing p with
  | nil => nofun
  | cons f fs ih =>
    rw [List.flatMap_cons] at hun
    rw [List.map_cons, List.map_cons, Net.readFields] at hread
    by_cases hf : f.IsString
    · exfalso
      cases f with
      | string s =>
        have hshort : p.readString.1 = some (e.getBytes s.val) →
            (e.getBytes s.val).length < (e.getBytes s.val).length :=
          Net.CmdPacket.length_readString_lt h (Nat.le_succ_of_le s.property.2)
            (by rw [hun, ← List.append_assoc]; rfl)
        cases hr : p.readString with
        | mk v p₁ =>
          rw [hr] at hshort
          simp only [CommonField.field, Field.kind, Kind.read, hr, Prod.map] at hread
          cases v with
          | none => cases hread
          | some v =>
            simp only [Option.map_some] at hread
            obtain ⟨vs, -, hcons⟩ := Option.map_eq_some_iff.mp hread
            injection hcons with hv
            injection hv with hv
            exact Nat.lt_irrefl _ (hshort (by rw [hv]))
      | _ => exact hf
    · rw [CommonField.clientEncode_of_not_string hf] at hun
      obtain ⟨n, hfield, hr, hrest⟩ := read_encode h f.sized hun
      simp only [hfield, Prod.map] at hread
      obtain ⟨vs, hvs, hcons⟩ := Option.map_eq_some_iff.mp hread
      obtain rfl := (List.cons.inj hcons).2
      intro g hg
      rcases List.mem_cons.mp hg with rfl | hg
      · exact hf
      · exact ih hr hrest hvs g hg

/-! ## What the client reads -/

namespace CmdPacket

/-- The packet holds `front` and `rest`, and the cursor stands between the two. -/
def between (front rest : Bytes) : CmdPacket := ⟨some (front ++ rest), front.length⟩

theorem readBytes_between (front data rest : Bytes) :
    readBytes data.length (between front (data ++ rest))
      = some (some data, between (front ++ data) rest) := by
  have hslice : slice (front ++ (data ++ rest)) front.length data.length = data := by
    rw [slice, List.drop_left, List.take_left]
  have hroom : ¬front.length + data.length > (front ++ (data ++ rest)).length := by
    rw [List.length_append, List.length_append]
    omega
  rw [readBytes, between, Option.map_some, if_neg hroom, hslice, between, List.append_assoc,
    List.length_append]

theorem readAs_between {α : Type} (f : Bytes → α) (front data rest : Bytes) :
    readAs data.length f (between front (data ++ rest))
      = some (some (f data), between (front ++ data) rest) := by
  rw [readAs, readBytes_between]
  rfl

/-- A number comes back as it was. -/
theorem networkNumber_reverse {n v : Nat} (h : v < 256 ^ n) :
    networkNumber (leBytes n v).reverse = v := by
  rw [networkNumber, hostToNetwork, List.length_reverse, length_leBytes]
  exact byteSwap_byteSwap h

theorem readUShort_between (front rest : Bytes) {n : Nat} (h : n < 65536) :
    readUShort (between front (be16 n ++ rest))
      = some (some (UInt16.ofNat n), between (front ++ be16 n) rest) := by
  have hread := readAs_between (fun b => UInt16.ofNat (networkNumber b)) front (be16 n) rest
  rw [be16_eq, networkNumber_reverse (n := 2) h, ← be16_eq] at hread
  exact hread

end CmdPacket

/-- Every field but a string is read as it was written. -/
theorem readField_between {f : CommonField e} (hf : ¬f.IsString) (front rest : Bytes) :
    readField e f.field.kind (CmdPacket.between front (f.field.encode ++ rest))
      = some (some f.value, CmdPacket.between (front ++ f.field.encode) rest) := by
  cases f with
  | byte c =>
    have h := CmdPacket.readAs_between (fun b => (b.headD 0).toUInt16) front [c] rest
    exact congrArg (Option.map (Prod.map (Option.map ClientValue.byte) id)) h
  | short s =>
    have h := CmdPacket.readAs_between (fun b => Int16.ofNat (CmdPacket.networkNumber b)) front
      (be16 s.toUInt16.toNat) rest
    rw [be16_eq, CmdPacket.networkNumber_reverse s.toUInt16.toNat_lt, int16_ofNat_toUInt16,
      ← be16_eq] at h
    exact congrArg (Option.map (Prod.map (Option.map ClientValue.short) id)) h
  | ushort s =>
    have h := CmdPacket.readUShort_between front rest s.toNat_lt
    rw [UInt16.ofNat_toNat] at h
    exact congrArg (Option.map (Prod.map (Option.map ClientValue.ushort) id)) h
  | int l =>
    have h := CmdPacket.readAs_between (fun b => Int32.ofNat (CmdPacket.networkNumber b)) front
      (Net.CmdPacket.be32 l.toUInt32) rest
    have hl : Int32.ofNat l.toUInt32.toNat = l := by
      apply Int32.toBitVec_inj.mp
      simp
    rw [be32_eq, CmdPacket.networkNumber_reverse l.toUInt32.toNat_lt, hl, ← be32_eq] at h
    exact congrArg (Option.map (Prod.map (Option.map ClientValue.int) id)) h
  | uint l =>
    have h := CmdPacket.readAs_between (fun b => UInt32.ofNat (CmdPacket.networkNumber b)) front
      (Net.CmdPacket.be32 l) rest
    rw [be32_eq, CmdPacket.networkNumber_reverse l.toNat_lt, UInt32.ofNat_toNat, ← be32_eq] at h
    exact congrArg (Option.map (Prod.map (Option.map ClientValue.uint) id)) h
  | float f =>
    have h := CmdPacket.readAs_between id front f.val rest
    rw [f.property] at h
    exact congrArg (Option.map (Prod.map (Option.map ClientValue.float) id)) h
  | string s => exact absurd trivial hf

/-- The client takes the server's terminator for a byte of the string. -/
theorem readString_between (s : WireString e) (front rest : Bytes) :
    ∃ t p, CmdPacket.readString e (CmdPacket.between front
        ((CommonField.string s).field.encode ++ rest)) = some (some t, p) ∧ t ≠ s.val := by
  have hlen := s.property.2
  have hdata : (e.getBytes s.val ++ [0]).length = (e.getBytes s.val).length + 1 := by simp
  have hcount : (UInt16.ofNat ((e.getBytes s.val).length + 1)).toNat
      = (e.getBytes s.val ++ [0]).length := by
    rw [hdata]
    exact UInt16.toNat_ofNat_of_lt (by show _ < 65536; omega)
  have hshort := CmdPacket.readUShort_between front ((e.getBytes s.val ++ [0]) ++ rest)
    (n := (e.getBytes s.val).length + 1) (by omega)
  have hread := CmdPacket.readAs_between e.getString
    (front ++ be16 ((e.getBytes s.val).length + 1)) (e.getBytes s.val ++ [0]) rest
  refine ⟨e.getString (e.getBytes s.val ++ [0]), CmdPacket.between
    (front ++ be16 ((e.getBytes s.val).length + 1) ++ (e.getBytes s.val ++ [0])) rest, ?_,
    e.getString_terminated s.val⟩
  show CmdPacket.readString e (CmdPacket.between front
    ((be16 ((e.getBytes s.val).length + 1) ++ (e.getBytes s.val ++ [0])) ++ rest)) = _
  rw [CmdPacket.readString, List.append_assoc, hshort]
  dsimp only
  rw [hcount]
  exact hread

/-- **What the client reads.** Fields without a string are read as the server wrote them, and with
a string the values are others. -/
theorem readFields_iff (fs : List (CommonField e)) (front : Bytes) :
    (∃ p, readFields e (fs.map fun f => f.field.kind)
        (CmdPacket.between front (fs.flatMap fun f => f.field.encode))
      = some (some (fs.map CommonField.value), p)) ↔ ∀ f ∈ fs, ¬f.IsString := by
  induction fs generalizing front with
  | nil => exact ⟨fun _ => nofun, fun _ => ⟨_, rfl⟩⟩
  | cons f fs ih =>
    rw [List.flatMap_cons, List.map_cons, readFields]
    by_cases hf : f.IsString
    · cases f with
      | string s =>
        obtain ⟨t, p, hread, hne⟩ := readString_between s front
          (fs.flatMap fun f => f.field.encode)
        have hfield : readField e (CommonField.string s).field.kind (CmdPacket.between front
            ((CommonField.string s).field.encode ++ fs.flatMap fun f => f.field.encode))
            = some (some (.string t), p) :=
          congrArg (Option.map (Prod.map (Option.map ClientValue.string) id)) hread
        rw [hfield]
        constructor
        · rintro ⟨p', h⟩
          obtain ⟨⟨o, p₁⟩, -, hpair⟩ := Option.map_eq_some_iff.mp h
          obtain ⟨vs, -, hcons⟩ := Option.map_eq_some_iff.mp (Prod.mk.inj hpair).1
          injection (List.cons.inj hcons).1 with heq
          exact absurd heq hne
        · exact fun h => absurd trivial (h _ List.mem_cons_self)
      | _ => exact hf.elim
    · rw [readField_between hf]
      dsimp only
      constructor
      · rintro ⟨p', h⟩
        obtain ⟨⟨o, p₁⟩, hvs, hpair⟩ := Option.map_eq_some_iff.mp h
        obtain ⟨vs, rfl, hcons⟩ := Option.map_eq_some_iff.mp (Prod.mk.inj hpair).1
        obtain rfl := (List.cons.inj hcons).2
        intro g hg
        rcases List.mem_cons.mp hg with rfl | hg
        · exact hf
        · exact (ih _).mp ⟨_, hvs⟩ g hg
      · intro h
        obtain ⟨p, hp⟩ := (ih (front ++ f.field.encode)).mpr fun g hg =>
          h g (List.mem_cons_of_mem _ hg)
        rw [hp]
        exact ⟨p, rfl⟩

/-! ## Agreement -/

/-- What the client writes, the server reads. -/
def ClientToServer (fs : List (CommonField e)) : Prop :=
  ∃ w, exec writeField [] fs = some w ∧ ∀ q : Net.CmdPacket,
    (Net.readFields (fs.map fun f => f.field.kind) (q.beginRead w w.length)).1
      = some (fs.map fun f => f.field.value)

/-- What the server writes, the client reads. -/
def ServerToClient (fs : List (CommonField e)) : Prop :=
  ∀ p p' : Net.CmdPacket, exec Net.writeField p.beginWrite (fs.map CommonField.field) = some p' →
    ∃ c, readFields e (fs.map fun f => f.field.kind)
        (CmdPacket.new.beginRead p'.written) = some (some (fs.map CommonField.value), c)

theorem sized_fields (fs : List (CommonField e)) : ∀ f ∈ fs.map CommonField.field, f.Sized := by
  rintro f hf
  obtain ⟨g, -, rfl⟩ := List.mem_map.mp hf
  exact g.sized

theorem clientToServer_iff (fs : List (CommonField e)) :
    ClientToServer fs ↔ ∀ f ∈ fs, ¬f.IsString := by
  have hun : ∀ q : Net.CmdPacket,
      (q.beginRead (fs.flatMap CommonField.clientEncode)
          (fs.flatMap CommonField.clientEncode).length).Reading ∧
        (q.beginRead (fs.flatMap CommonField.clientEncode)
          (fs.flatMap CommonField.clientEncode).length).unread
          = fs.flatMap CommonField.clientEncode := fun q =>
    ⟨⟨by nofun, Nat.le_refl _, Nat.zero_le _⟩, List.take_length⟩
  constructor
  · rintro ⟨w, hw, hread⟩
    rw [exec_writeField, List.nil_append] at hw
    obtain rfl := Option.some.inj hw
    obtain ⟨hr, hbytes⟩ := hun (Net.CmdPacket.new fun _ => 0)
    exact not_string_of_read hr hbytes (hread _)
  · intro hf
    refine ⟨_, (exec_writeField [] fs).trans (congrArg some (List.nil_append _)), fun q => ?_⟩
    obtain ⟨hr, hbytes⟩ := hun q
    have hencode : fs.flatMap CommonField.clientEncode
        = (fs.map CommonField.field).flatMap Field.encode := by
      rw [List.flatMap_map]
      exact List.flatMap_congr fun f h => CommonField.clientEncode_of_not_string (hf f h)
    obtain ⟨n, hread, -, -⟩ := read_fields hr (sized_fields fs)
      (hbytes.trans (hencode.trans (List.append_nil _).symm))
    rw [List.map_map, List.map_map] at hread
    exact congrArg Prod.fst hread

/-- **The two packets agree on fields without strings, and on no others.** -/
theorem codecs_agree_iff (fs : List (CommonField e)) :
    ClientToServer fs ∧ ServerToClient fs ↔ ∀ f ∈ fs, ¬f.IsString := by
  rw [clientToServer_iff]
  refine ⟨And.left, fun hf => ⟨hf, fun p p' hw => ?_⟩⟩
  obtain ⟨-, hwritten⟩ := written_fields (Net.CmdPacket.writing_beginWrite p) (sized_fields fs) hw
  rw [Net.CmdPacket.written_beginWrite, List.nil_append, List.flatMap_map] at hwritten
  rw [hwritten]
  exact (readFields_iff fs []).mpr hf

/-- A string of the client is its bytes. -/
def bytesEncoding : Encoding :=
  ⟨Bytes, id, id, fun _ => rfl, fun _ h => absurd (congrArg List.length h) (by simp)⟩

/-- A string of two letters is not read as it was written. -/
theorem string_not_agreed :
    ¬∀ (e : Encoding) (fs : List (CommonField e)),
      (fs.flatMap fun f => f.field.encode).length ≤ MAX_CMD_PACKET_SIZE →
        ClientToServer fs ∧ ServerToClient fs := by
  intro h
  have hagree := h bytesEncoding [.string ⟨[104, 105], by decide, by decide⟩] (by decide)
  exact (clientToServer_iff _).mp hagree.1 _ List.mem_cons_self trivial

end GhNet.Client
