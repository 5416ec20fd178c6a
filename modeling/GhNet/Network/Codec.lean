import GhNet.Client.Codec
import GhNet.Network.CmdPacket

/-!
# What the Network client writes, it reads

The fields that are written after `BeginWrite()` are read after `BeginRead()`.

A write and the read for it need not go on by the same number of bytes. `WriteByte` writes a `char`,
which is two bytes, and `ReadByte` goes on by one. `WriteString` writes a terminator and
`ReadString` takes it for a letter of the string, so that what it yields is another string. All
other fields come back as they were.

Behind a byte all is read one byte too early, and a string is made of bytes that are not its own.
That this does not bring the cursor back takes a string that no longer bytes are decoded as.
-/

namespace GhNet.Network

open GhNet GhNet.Client

/-! ## Fields -/

/-- What one call writes. -/
inductive Field (e : Encoding)
  | byte (c : UInt16)
  | short (l : Int16)
  | int (l : Int32)
  | uint (l : UInt32)
  | float (l : Single)
  | string (l : e.Str)

/-- What one call reads. -/
inductive Kind
  | byte
  | short
  | int
  | uint
  | float
  | string
  deriving DecidableEq, Repr

variable {e : Encoding}

/-- The bytes of the string are the longest that are decoded as it. In UTF-8, where bytes that are
out of place become a letter of three bytes, that is so for all strings. -/
def Longest (e : Encoding) (l : e.Str) : Prop :=
  ∀ bytes, e.getString bytes = l → bytes.length ≤ (e.getBytes l).length

namespace Field

/-- The call that reads the field. -/
def kind : Field e → Kind
  | .byte _ => .byte
  | .short _ => .short
  | .int _ => .int
  | .uint _ => .uint
  | .float _ => .float
  | .string _ => .string

/-- Neither a byte nor a string. -/
def Plain (f : Field e) : Prop := f.kind ≠ .byte ∧ f.kind ≠ .string

instance (f : Field e) : Decidable f.Plain := inferInstanceAs (Decidable (_ ∧ _))

/-- The bytes that are written for the field. -/
def encode : Field e → Bytes
  | .byte c => leBytes 2 c.toNat
  | .short l => (leBytes 2 l.toUInt16.toNat).reverse
  | .int l => (leBytes 4 l.toUInt32.toNat).reverse
  | .uint l => (leBytes 4 l.toNat).reverse
  | .float l => leBytes 4 l.toNat
  | .string l =>
    (leBytes 2 (Int16.ofNat ((e.getBytes l).length + 1)).toUInt16.toNat).reverse
      ++ e.getBytes l ++ [0]

/-- The number of bytes that the cursor goes on by when this field is what was read. -/
def readLen : Field e → Nat
  | .byte _ => 1
  | .short _ => 2
  | .string l => 2 + (e.getBytes l).length
  | _ => 4

/-- What is written and not read. -/
def excess : Field e → Nat
  | .byte _ => 1
  | .string _ => 1
  | _ => 0

theorem length_encode (f : Field e) : f.encode.length = f.readLen + f.excess := by
  cases f <;> simp [encode, readLen, excess]
  omega

theorem excess_eq_zero_iff (f : Field e) : f.excess = 0 ↔ f.Plain := by
  cases f <;> simp [excess, Plain, kind]

end Field

/-- The call that writes the field. -/
def writeField (p : CmdPacket) : Field e → Except Exception CmdPacket
  | .byte c => .ok (p.writeByte c)
  | .short l => .ok (p.writeShort l)
  | .int l => .ok (p.writeInt l)
  | .uint l => .ok (p.writeUInt l)
  | .float l => .ok (p.writeFloat l)
  | .string l => p.writeString e l

/-- Writes fields one after the other, as long as that raises no exception. -/
def writeFields : List (Field e) → CmdPacket → Except Exception CmdPacket
  | [], p => .ok p
  | f :: fs, p => (writeField p f).bind (writeFields fs)

/-- The call that reads a field of the kind. -/
def readField (e : Encoding) : Kind → CmdPacket → Except Exception (Option (Field e) × CmdPacket)
  | .byte, p => p.readByte.map (Prod.map (Option.map .byte) id)
  | .short, p => p.readShort.map (Prod.map (Option.map .short) id)
  | .int, p => p.readInt.map (Prod.map (Option.map .int) id)
  | .uint, p => p.readUInt.map (Prod.map (Option.map .uint) id)
  | .float, p => p.readFloat.map (Prod.map (Option.map .float) id)
  | .string, p => (p.readString e.getString).map (Prod.map (Option.map .string) id)

/-- Reads fields one after the other, as long as that succeeds. -/
def readFields (e : Encoding) :
    List Kind → CmdPacket → Except Exception (Option (List (Field e)) × CmdPacket)
  | [], p => .ok (some [], p)
  | k :: ks, p =>
    match readField e k p with
    | .error x => .error x
    | .ok (none, p) => .ok (none, p)
    | .ok (some f, p) => (readFields e ks p).map (Prod.map (Option.map (f :: ·)) id)

/-- Every read after `BeginRead()` succeeds, what is read is what was written, and the cursor is at
the end. -/
def RoundTrips (fs : List (Field e)) (p : CmdPacket) : Prop :=
  ∃ q, readFields e (fs.map Field.kind) p.beginReadOwn = .ok (some fs, q) ∧
    q.m_ReadOffset = p.m_WriteData.length

/-! ## Writing -/

theorem networkBytes_eq (n l : Nat) : CmdPacket.networkBytes n l = (leBytes n l).reverse :=
  leBytes_byteSwap n l

/-- A write that succeeds appends the bytes of its field. -/
theorem writeField_ok {p p' : CmdPacket} {f : Field e} (h : writeField p f = .ok p') :
    p'.m_WriteData = p.m_WriteData ++ f.encode := by
  cases f with
  | byte c =>
    obtain rfl := Except.ok.inj h
    rfl
  | short l =>
    obtain rfl := Except.ok.inj h
    exact congrArg (p.m_WriteData ++ ·) (networkBytes_eq ..)
  | int l =>
    obtain rfl := Except.ok.inj h
    exact congrArg (p.m_WriteData ++ ·) (networkBytes_eq ..)
  | uint l =>
    obtain rfl := Except.ok.inj h
    exact congrArg (p.m_WriteData ++ ·) (networkBytes_eq ..)
  | float l =>
    obtain rfl := Except.ok.inj h
    rfl
  | string l =>
    simp only [writeField, CmdPacket.writeString] at h
    split at h
    · obtain rfl := Except.ok.inj h
      simp only [CmdPacket.addRange, CmdPacket.writeShort, networkBytes_eq, Field.encode,
        List.append_assoc]
    · cases h

theorem writeFields_ok {fs : List (Field e)} {p p' : CmdPacket} (h : writeFields fs p = .ok p') :
    p'.m_WriteData = p.m_WriteData ++ fs.flatMap Field.encode := by
  induction fs generalizing p with
  | nil =>
    obtain rfl := Except.ok.inj h
    exact (List.append_nil _).symm
  | cons f fs ih =>
    cases hf : writeField p f with
    | error x =>
      rw [writeFields, hf] at h
      cases h
    | ok p₁ =>
      rw [writeFields, hf] at h
      rw [ih h, writeField_ok hf, List.flatMap_cons, List.append_assoc]

/-- A string is written only if its length is a `short`. -/
theorem length_le_of_writeFields {fs : List (Field e)} {p p' : CmdPacket}
    (h : writeFields fs p = .ok p') {l : e.Str} (hl : .string l ∈ fs) :
    (e.getBytes l).length + 1 ≤ 32767 := by
  induction fs generalizing p with
  | nil => exact absurd hl List.not_mem_nil
  | cons f fs ih =>
    cases hf : writeField p f with
    | error x =>
      rw [writeFields, hf] at h
      cases h
    | ok p₁ =>
      rw [writeFields, hf] at h
      rcases List.mem_cons.mp hl with rfl | hl
      · by_contra hlong
        rw [writeField, CmdPacket.writeString, if_neg hlong] at hf
        cases hf
      · exact ih h hl

/-! ## How far the cursor goes -/

/-- A read that has a value made it of the value of another. -/
theorem map_ok_some {α β : Type} {x : Except Exception (Option α × CmdPacket)} {c : α → β} {f : β}
    {p : CmdPacket} (h : x.map (Prod.map (Option.map c) id) = .ok (some f, p)) :
    ∃ v, x = .ok (some v, p) ∧ f = c v := by
  cases x with
  | error e => cases h
  | ok r =>
    obtain ⟨o, q⟩ := r
    obtain ⟨ho, rfl⟩ := Prod.mk.inj (Except.ok.inj h)
    obtain ⟨v, rfl, rfl⟩ := Option.map_eq_some_iff.mp ho
    exact ⟨v, rfl, rfl⟩

/-- A read that succeeds goes on by no more than the length that its value says. -/
theorem readField_advances {k : Kind} {p p' : CmdPacket} {f : Field e} {data : Bytes} {off : Nat}
    (h : p.Reading data off) (hread : readField e k p = .ok (some f, p'))
    (hlong : ∀ l, f = .string l → Longest e l) :
    ∃ data' off', p'.Reading data' off' ∧ off' ≤ off + f.readLen := by
  cases k with
  | byte =>
    obtain ⟨c, hc, rfl⟩ := map_ok_some hread
    simp only [CmdPacket.readByte, h.holds, h.cursor] at hc
    split at hc
    · cases (Prod.mk.inj (Except.ok.inj hc)).1
    · split at hc
      · cases hc
      · obtain ⟨-, rfl⟩ := Prod.mk.inj (Except.ok.inj hc)
        exact ⟨data, off + 1, ⟨rfl, rfl⟩, Nat.le_refl _⟩
  | short =>
    obtain ⟨l, hl, rfl⟩ := map_ok_some hread
    exact ⟨data, _, (CmdPacket.readAs_some h hl).1, Nat.le_refl _⟩
  | int =>
    obtain ⟨l, hl, rfl⟩ := map_ok_some hread
    exact ⟨data, _, (CmdPacket.readAs_some h hl).1, Nat.le_refl _⟩
  | uint =>
    obtain ⟨l, hl, rfl⟩ := map_ok_some hread
    exact ⟨data, _, (CmdPacket.readAs_some h hl).1, Nat.le_refl _⟩
  | float =>
    obtain ⟨l, hl, rfl⟩ := map_ok_some hread
    exact ⟨data, _, (CmdPacket.readAs_some h hl).1, Nat.le_refl _⟩
  | string =>
    obtain ⟨l, hl, rfl⟩ := map_ok_some hread
    by_cases hn : off + 2 ≤ data.length
    · by_cases hneg : CmdPacket.shortAt data off < 0
      · obtain ⟨x, hx, -⟩ := CmdPacket.readString_negative e.getString h hn hneg
        rw [hx] at hl
        cases hl
      · rcases CmdPacket.readString_ok e.getString h hn (Int.not_lt.mp hneg) with
          ⟨-, q, hq⟩ | ⟨hfits, q, data', hq, h', hlen⟩
        · rw [hq] at hl
          cases (Prod.mk.inj (Except.ok.inj hl)).1
        · rw [hq] at hl
          obtain ⟨hstr, rfl⟩ := Prod.mk.inj (Except.ok.inj hl)
          have hle := hlong l rfl _ (Option.some.inj hstr)
          rw [length_slice (by omega)] at hle
          exact ⟨data', _, h', by rw [Field.readLen]; omega⟩
    · rw [CmdPacket.readString_short _ h (Nat.lt_of_not_le hn)] at hl
      cases (Prod.mk.inj (Except.ok.inj hl)).1

theorem readFields_advances {ks : List Kind} {p p' : CmdPacket} {fs : List (Field e)}
    {data : Bytes} {off : Nat} (h : p.Reading data off)
    (hread : readFields e ks p = .ok (some fs, p'))
    (hlong : ∀ l, .string l ∈ fs → Longest e l) :
    p'.m_ReadOffset ≤ off + (fs.map Field.readLen).sum := by
  induction ks generalizing p fs data off with
  | nil =>
    obtain ⟨hfs, rfl⟩ := Prod.mk.inj (Except.ok.inj hread)
    obtain rfl := Option.some.inj hfs
    exact Nat.le_of_eq h.cursor
  | cons k ks ih =>
    rw [readFields] at hread
    split at hread
    · cases hread
    · cases (Prod.mk.inj (Except.ok.inj hread)).1
    · next f p₁ hf =>
      obtain ⟨fs, hfs, rfl⟩ := map_ok_some hread
      obtain ⟨data', off', h', hoff⟩ := readField_advances h hf fun l hl =>
        hlong l (hl ▸ List.mem_cons_self)
      have hrest := ih h' hfs fun l hl => hlong l (List.mem_cons_of_mem _ hl)
      rw [List.map_cons, List.sum_cons]
      omega

/-- Fields for which as much is read as was written are plain. -/
theorem plain_of_sum {fs : List (Field e)}
    (h : (fs.flatMap Field.encode).length ≤ (fs.map Field.readLen).sum) :
    ∀ f ∈ fs, f.Plain := by
  have hsum : (fs.flatMap Field.encode).length
      = (fs.map Field.readLen).sum + (fs.map Field.excess).sum := by
    clear h
    induction fs with
    | nil => rfl
    | cons f fs ih =>
      rw [List.flatMap_cons, List.length_append, ih, f.length_encode, List.map_cons,
        List.map_cons, List.sum_cons, List.sum_cons]
      omega
  intro f hf
  have hzero : (fs.map Field.excess).sum = 0 := by omega
  exact f.excess_eq_zero_iff.mp
    (List.sum_eq_zero_iff_forall_eq_nat.mp hzero _ (List.mem_map_of_mem hf))

/-! ## Plain fields -/

/-- The bytes of a number are read as the number. -/
theorem readAs_between {α : Type} (g : Bytes → α) {p : CmdPacket} {front mid rest : Bytes}
    (h : p.Reading (front ++ (mid ++ rest)) front.length) {n : Nat} (hn : mid.length = n) :
    ∃ p', CmdPacket.readAs n g p = .ok (some (g mid), p') ∧
      p'.Reading (front ++ (mid ++ rest)) (front.length + n) := by
  obtain ⟨p', hread, h'⟩ := CmdPacket.readAs_enough g h (n := n)
    (by rw [List.length_append, List.length_append]; omega)
  rw [slice, List.drop_left, ← hn, List.take_left] at hread
  exact ⟨p', hn ▸ hread, h'⟩

/-- A plain field is read as it was written. -/
theorem readField_plain {p : CmdPacket} {f : Field e} (hf : f.Plain) {front rest : Bytes}
    (h : p.Reading (front ++ (f.encode ++ rest)) front.length) :
    ∃ p', readField e f.kind p = .ok (some f, p') ∧
      p'.Reading (front ++ (f.encode ++ rest)) (front.length + f.encode.length) := by
  cases f with
  | byte c => exact absurd rfl hf.1
  | short l =>
    obtain ⟨p', hread, h'⟩ := readAs_between
      (fun b => Int16.ofNat (Client.CmdPacket.networkNumber b)) h (n := 2) (by simp [Field.encode])
    refine ⟨p', ?_, by simpa [Field.encode] using h'⟩
    rw [Field.encode, Client.CmdPacket.networkNumber_reverse l.toUInt16.toNat_lt,
      Net.int16_ofNat_toUInt16] at hread
    exact congrArg (Except.map (Prod.map (Option.map Field.short) id)) hread
  | int l =>
    obtain ⟨p', hread, h'⟩ := readAs_between
      (fun b => Int32.ofNat (Client.CmdPacket.networkNumber b)) h (n := 4) (by simp [Field.encode])
    have hl : Int32.ofNat l.toUInt32.toNat = l := by
      apply Int32.toBitVec_inj.mp
      simp
    refine ⟨p', ?_, by simpa [Field.encode] using h'⟩
    rw [Field.encode, Client.CmdPacket.networkNumber_reverse l.toUInt32.toNat_lt, hl] at hread
    exact congrArg (Except.map (Prod.map (Option.map Field.int) id)) hread
  | uint l =>
    obtain ⟨p', hread, h'⟩ := readAs_between
      (fun b => UInt32.ofNat (Client.CmdPacket.networkNumber b)) h (n := 4) (by simp [Field.encode])
    refine ⟨p', ?_, by simpa [Field.encode] using h'⟩
    rw [Field.encode, Client.CmdPacket.networkNumber_reverse l.toNat_lt, UInt32.ofNat_toNat]
      at hread
    exact congrArg (Except.map (Prod.map (Option.map Field.uint) id)) hread
  | float l =>
    obtain ⟨p', hread, h'⟩ := readAs_between (fun b => UInt32.ofNat (ofLeBytes b)) h (n := 4)
      (by simp [Field.encode])
    refine ⟨p', ?_, by simpa [Field.encode] using h'⟩
    rw [Field.encode, ofLeBytes_leBytes, Nat.mod_eq_of_lt (show l.toNat < 256 ^ 4 from l.toNat_lt),
      UInt32.ofNat_toNat] at hread
    exact congrArg (Except.map (Prod.map (Option.map Field.float) id)) hread
  | string l => exact absurd rfl hf.2

theorem readFields_plain {fs : List (Field e)} (hfs : ∀ f ∈ fs, f.Plain) {p : CmdPacket}
    {front : Bytes} (h : p.Reading (front ++ fs.flatMap Field.encode) front.length) :
    ∃ p', readFields e (fs.map Field.kind) p = .ok (some fs, p') ∧
      p'.m_ReadOffset = (front ++ fs.flatMap Field.encode).length := by
  induction fs generalizing p front with
  | nil => exact ⟨p, rfl, h.cursor.trans (congrArg List.length (List.append_nil front)).symm⟩
  | cons f fs ih =>
    rw [List.flatMap_cons] at h ⊢
    obtain ⟨p₁, hread, h₁⟩ := readField_plain (hfs f List.mem_cons_self) h
    rw [← List.append_assoc, ← List.length_append] at h₁
    obtain ⟨p', hrest, hend⟩ := ih (fun g hg => hfs g (List.mem_cons_of_mem _ hg)) h₁
    refine ⟨p', ?_, by rw [hend, List.append_assoc]⟩
    rw [List.map_cons, readFields, hread]
    dsimp only
    rw [hrest]
    rfl

/-! ## Strings that are read where they were written -/

/-- A string is read with its terminator. -/
theorem readField_string {p : CmdPacket} {l : e.Str} {front rest : Bytes}
    (hl : (e.getBytes l).length + 1 ≤ 32767)
    (h : p.Reading (front ++ ((Field.string l).encode ++ rest)) front.length) :
    ∃ p', readField e .string p = .ok (some (.string (e.getString (e.getBytes l ++ [0]))), p') := by
  set head := (leBytes 2 (Int16.ofNat ((e.getBytes l).length + 1)).toUInt16.toNat).reverse with hhead
  have hlen : head.length = 2 := by simp [hhead]
  have hencode : (Field.string l).encode = head ++ (e.getBytes l ++ [0]) := List.append_assoc ..
  rw [hencode, List.append_assoc] at h
  obtain ⟨p₁, hshort, h₁⟩ := readAs_between
    (fun b => Int16.ofNat (Client.CmdPacket.networkNumber b)) h hlen
  rw [hhead, Client.CmdPacket.networkNumber_reverse (Int16.toUInt16 _).toNat_lt,
    Net.int16_ofNat_toUInt16] at hshort
  have hcount : (Int16.ofNat ((e.getBytes l).length + 1)).toInt = (e.getBytes l).length + 1 :=
    Int16.toInt_ofNat_of_lt (by omega)
  rw [readField, CmdPacket.readString, CmdPacket.readShort, hshort]
  simp only [h₁.holds, h₁.cursor, hcount]
  generalize e.getBytes l = bytes at *
  set data := front ++ (head ++ ((bytes ++ [0]) ++ rest)) with hdata
  have hsplit : data = front ++ head ++ bytes ++ 0 :: rest := by simp [hdata]
  have hsize : data.length = front.length + 2 + bytes.length + (rest.length + 1) := by
    simp [hdata, hlen]
    omega
  have hstop : (((front.length + 2 : Nat) : Int) + ((bytes.length : Int) + 1) - 1).toNat
      = (front ++ head ++ bytes).length := by
    simp [hlen]
    omega
  rw [if_neg (by omega), if_neg (by omega), if_neg (by omega), hstop]
  -- the terminator is put where it is
  have hset : data.set (front ++ head ++ bytes).length 0 = data := by
    rw [hsplit, List.set_append_right _ _ (Nat.le_refl _), Nat.sub_self, List.set_cons_zero]
  have hslice : slice data (front.length + 2) (bytes.length + 1) = bytes ++ [0] := by
    rw [hdata, slice, ← List.append_assoc, List.drop_left' (by simp [hlen]),
      List.take_left' (by simp)]
  rw [hset, show ((bytes.length : Int) + 1).toNat = bytes.length + 1 from rfl, hslice]
  exact ⟨_, rfl⟩

/-- Without a byte among them, fields that come back have no string among them. -/
theorem no_string_of_read {fs : List (Field e)} (hbyte : ∀ c, .byte c ∉ fs)
    (hsized : ∀ l, .string l ∈ fs → (e.getBytes l).length + 1 ≤ 32767) {p p' : CmdPacket}
    {front : Bytes} (h : p.Reading (front ++ fs.flatMap Field.encode) front.length)
    (hread : readFields e (fs.map Field.kind) p = .ok (some fs, p')) :
    ∀ f ∈ fs, f.Plain := by
  induction fs generalizing p front with
  | nil => exact fun f hf => absurd hf List.not_mem_nil
  | cons f fs ih =>
    rw [List.flatMap_cons] at h
    rw [List.map_cons, readFields] at hread
    by_cases hf : f.Plain
    · obtain ⟨p₁, hfirst, h₁⟩ := readField_plain hf h
      rw [← List.append_assoc, ← List.length_append] at h₁
      rw [hfirst] at hread
      obtain ⟨fs', hrest, hcons⟩ := map_ok_some hread
      obtain rfl := (List.cons.inj hcons).2
      have hplain := ih (fun c hc => hbyte c (List.mem_cons_of_mem _ hc))
        (fun l hl => hsized l (List.mem_cons_of_mem _ hl)) h₁ hrest
      exact List.forall_mem_cons.mpr ⟨hf, hplain⟩
    · cases f with
      | byte c => exact absurd List.mem_cons_self (hbyte c)
      | string l =>
        obtain ⟨p₁, hfirst⟩ := readField_string (hsized l List.mem_cons_self) h
        rw [Field.kind, hfirst] at hread
        obtain ⟨fs', -, hcons⟩ := map_ok_some hread
        injection (List.cons.inj hcons).1 with heq
        exact absurd heq.symm (e.getString_terminated l)
      | _ => exact absurd ⟨nofun, nofun⟩ hf

/-! ## The round trip -/

/-- **Fields come back as they were written, with the cursor at the end, exactly if there is neither
a byte nor a string among them.** -/
theorem round_trips_iff {p p' : CmdPacket} {fs : List (Field e)}
    (hw : writeFields fs p.beginWrite = .ok p')
    (hlong : ∀ c l, .byte c ∈ fs → .string l ∈ fs → Longest e l) :
    RoundTrips fs p' ↔ ∀ f ∈ fs, f.Plain := by
  have hdata : p'.m_WriteData = fs.flatMap Field.encode := writeFields_ok hw
  have h : p'.beginReadOwn.Reading ([] ++ fs.flatMap Field.encode) 0 :=
    hdata ▸ CmdPacket.reading_beginReadOwn p'
  constructor
  · rintro ⟨q, hread, hend⟩
    by_cases hbyte : ∃ c, .byte c ∈ fs
    · obtain ⟨c, hc⟩ := hbyte
      have hoff := readFields_advances h hread fun l => hlong c l hc
      rw [hend, hdata, Nat.zero_add] at hoff
      exact plain_of_sum hoff
    · exact no_string_of_read (not_exists.mp hbyte) (fun l => length_le_of_writeFields hw) h hread
  · intro hfs
    obtain ⟨q, hread, hend⟩ := readFields_plain hfs h
    exact ⟨q, hread, hend.trans (congrArg List.length hdata).symm⟩

/-- Two numbers, one of them below zero. -/
theorem round_trips_numbers :
    RoundTrips [Field.short (-2), (.uint 7 : Field bytesEncoding)]
      ⟨[255, 254, 0, 0, 0, 7], none, 0⟩ :=
  (round_trips_iff (p := .new) rfl (by simp)).mpr (by decide)

/-- Behind a byte the next field is read one byte too early. -/
theorem byte_not_round_trip :
    ¬∀ (e : Encoding) (fs : List (Field e)) (p p' : CmdPacket),
      writeFields fs p.beginWrite = .ok p' → RoundTrips fs p' := by
  intro h
  obtain ⟨q, hread, -⟩ := h bytesEncoding [.byte 65, .short 7] .new ⟨[65, 0, 0, 7], none, 0⟩ rfl
  have hfirst : readFields bytesEncoding [.byte, .short]
      (CmdPacket.beginReadOwn ⟨[65, 0, 0, 7], none, 0⟩)
      = .ok (some [.byte 65, .short 0], ⟨[65, 0, 0, 7], some [65, 0, 0, 7], 3⟩) := rfl
  have heq := (Prod.mk.inj (Except.ok.inj (hfirst.symm.trans hread))).1
  injection heq with heq
  injection (List.cons.inj (List.cons.inj heq).2).1 with hshort
  exact absurd hshort (by decide)

end GhNet.Network
