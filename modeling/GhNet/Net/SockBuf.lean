import Mathlib.Algebra.Ring.Nat
import GhNet.Infra.Bytes
import GhNet.Infra.Sequencing

/-!
# `SockBuf`

The socket buffer of `libnet`: one block of memory with a read index and a write index. The
readable bytes lie between the two, the writable ones behind the write index.

All sizes and indices are 32-bit unsigned, so sums are taken modulo `2^32`. An operation that
throws keeps what it had written before, which is why the operations live in `EStateM`.

`content` is the abstraction the rest of the development reasons with: the readable bytes.
-/

namespace GhNet

/-- 32-bit unsigned arithmetic. -/
def u32 (n : Nat) : Nat := n % 2 ^ 32

theorem u32_lt (n : Nat) : u32 n < 2 ^ 32 := Nat.mod_lt _ (by decide)

theorem u32_of_lt {n : Nat} (h : n < 2 ^ 32) : u32 n = n := Nat.mod_eq_of_lt h

/-- `a - b` on 32-bit unsigned values: a negative difference wraps around. -/
def u32Sub (a b : Nat) : Nat := if b ≤ a then a - b else a + 2 ^ 32 - b

theorem u32Sub_of_le {a b : Nat} (h : b ≤ a) : u32Sub a b = a - b := if_pos h

/-- What the code throws, one constructor for each text. -/
inductive Exception
  /-- `write index:%u is not bigger than read index:%u` -/
  | writeNotBiggerThanRead (write_index read_index : Nat)
  /-- `write index is out of range.` -/
  | writeIndexOutOfRange
  /-- `write index:%u is bigger than size:%u` -/
  | writeBiggerThanSize (write_index size : Nat)
  /-- `malloc error.` -/
  | mallocError
  /-- `index:%u is out of range:%u` -/
  | indexOutOfRange (index max : Nat)
  /-- `CreateIoCompletionPort error.errno:%d` -/
  | createIoCompletionPort
  /-- `post erro. errnor:%d` -/
  | postError
  /-- `shoud not be here.` and `should not be here.` -/
  | shouldNotBeHere
  /-- thrown by a callback itself -/
  | user
  deriving DecidableEq, Repr

/--
A block of memory from `malloc`.

The program is a Win32 one, with 2 GiB of address space, so no block is larger.
-/
def Block : Type := { l : Bytes // l.length < 2 ^ 31 }

namespace Block

deriving instance DecidableEq for Block

/-- What was asked of `malloc`. -/
def size (m : Block) : Nat := m.val.length

theorem size_lt (m : Block) : m.size < 2 ^ 31 := m.property

/-- `memcpy` into the block. -/
def write (m : Block) (off : Nat) (src : Bytes) : Block :=
  ⟨overwrite m.val off src, by rw [length_overwrite]; exact m.property⟩

@[simp] theorem size_write (m : Block) (off : Nat) (src : Bytes) : (m.write off src).size = m.size :=
  length_overwrite _ _ _

/-- `malloc(n)`. The bytes are indeterminate; nothing reads them before they are written. -/
def malloc? (n : Nat) : Option Block :=
  if h : n < 2 ^ 31 then some ⟨List.replicate n 0, by simpa using h⟩ else none

theorem malloc?_of_lt {n : Nat} (h : n < 2 ^ 31) : ∃ m, malloc? n = some m ∧ m.size = n := by
  unfold malloc?
  rw [dif_pos h]
  exact ⟨_, rfl, by simp [size]⟩

end Block

/-- `class SockBuf`. `m_size` is the size of the block. -/
structure SockBuf where
  m_buf : Block
  m_read_index : Nat
  m_write_index : Nat
  m_read_index_lt : m_read_index < 2 ^ 32
  m_write_index_lt : m_write_index < 2 ^ 32
  deriving DecidableEq

/-- An operation of `SockBuf`: a result or an exception, and the buffer it leaves. -/
abbrev SockBufM := EStateM Exception SockBuf

namespace SockBuf

/-- The size of the block, which is kept beside it. -/
def m_size (b : SockBuf) : Nat := b.m_buf.size

theorem m_size_lt (b : SockBuf) : b.m_size < 2 ^ 31 := b.m_buf.size_lt

/-- `SockBuf(const UI32 size=100)` -/
def new : SockBuf where
  m_buf := ⟨List.replicate 100 0, by decide⟩
  m_read_index := 0
  m_write_index := 0
  m_read_index_lt := by decide
  m_write_index_lt := by decide

/-- `SockBuf(size)` -/
def ofSize (size : Nat) : Option SockBuf :=
  (Block.malloc? size).map fun m =>
    { m_buf := m
      m_read_index := 0
      m_write_index := 0
      m_read_index_lt := by decide
      m_write_index_lt := by decide }

/-- `reset()`: the block stays. -/
def reset (b : SockBuf) : SockBuf :=
  { b with
    m_read_index := 0, m_write_index := 0,
    m_read_index_lt := by decide, m_write_index_lt := by decide }

/-- The read index is set, modulo `2^32`. -/
def setRead (b : SockBuf) (n : Nat) : SockBuf :=
  { b with m_read_index := u32 n, m_read_index_lt := u32_lt n }

/-- The write index is set, modulo `2^32`. -/
def setWrite (b : SockBuf) (n : Nat) : SockBuf :=
  { b with m_write_index := u32 n, m_write_index_lt := u32_lt n }

/-- The buffer has another block. -/
def setBlock (b : SockBuf) (m : Block) : SockBuf := { b with m_buf := m }

@[simp] theorem setBlock_m_buf (b : SockBuf) (m : Block) : (b.setBlock m).m_buf = m := rfl
@[simp] theorem setBlock_m_size (b : SockBuf) (m : Block) : (b.setBlock m).m_size = m.size := rfl
@[simp] theorem setBlock_m_read_index (b : SockBuf) (m : Block) :
    (b.setBlock m).m_read_index = b.m_read_index := rfl
@[simp] theorem setBlock_m_write_index (b : SockBuf) (m : Block) :
    (b.setBlock m).m_write_index = b.m_write_index := rfl
@[simp] theorem setRead_m_buf (b : SockBuf) (n : Nat) : (b.setRead n).m_buf = b.m_buf := rfl
@[simp] theorem setRead_m_size (b : SockBuf) (n : Nat) : (b.setRead n).m_size = b.m_size := rfl
@[simp] theorem setRead_m_read_index (b : SockBuf) (n : Nat) :
    (b.setRead n).m_read_index = u32 n := rfl
@[simp] theorem setRead_m_write_index (b : SockBuf) (n : Nat) :
    (b.setRead n).m_write_index = b.m_write_index := rfl
@[simp] theorem setWrite_m_buf (b : SockBuf) (n : Nat) : (b.setWrite n).m_buf = b.m_buf := rfl
@[simp] theorem setWrite_m_size (b : SockBuf) (n : Nat) : (b.setWrite n).m_size = b.m_size := rfl
@[simp] theorem setWrite_m_read_index (b : SockBuf) (n : Nat) :
    (b.setWrite n).m_read_index = b.m_read_index := rfl
@[simp] theorem setWrite_m_write_index (b : SockBuf) (n : Nat) :
    (b.setWrite n).m_write_index = u32 n := rfl

/-- The bytes between `readStart()` and `writeStart()`. -/
def content (b : SockBuf) : Bytes :=
  slice b.m_buf.val b.m_read_index (b.m_write_index - b.m_read_index)

/-! ## The operations -/

/-- `readMove(len)`: the index is moved first and looked at then. -/
def readMove (len : Nat) : SockBufM Unit := fun b =>
  let b' := b.setRead (b.m_read_index + len)
  if b'.m_read_index > b'.m_write_index then
    .error (.writeNotBiggerThanRead b'.m_write_index b'.m_read_index) b'
  else .ok () b'

/-- `writeMove(len)`: the index is moved first and looked at then. -/
def writeMove (len : Nat) : SockBufM Unit := fun b =>
  let b' := b.setWrite (b.m_write_index + len)
  if b'.m_write_index > b'.m_size then .error .writeIndexOutOfRange b' else .ok () b'

-- The difference is stored in an `int`: from `2^31` on it is negative.
/-- `readableBytes()` -/
def readableBytes : SockBufM Nat := fun b =>
  let nret := u32Sub b.m_write_index b.m_read_index
  if 2 ^ 31 ≤ nret then .error (.writeNotBiggerThanRead b.m_write_index b.m_read_index) b
  else .ok nret b

/-- `writableBytes()` -/
def writableBytes : SockBufM Nat := fun b =>
  let nret := u32Sub b.m_size b.m_write_index
  if 2 ^ 31 ≤ nret then .error (.writeBiggerThanSize b.m_write_index b.m_size) b
  else .ok nret b

/-- `MPAlloc(size)` -/
def mpAlloc (size : Nat) : SockBufM Block := fun b =>
  match Block.malloc? size with
  | none => .error .mallocError b
  | some m => .ok m b

/-- Copies the readable bytes to the front of `m` and makes it the buffer. -/
def moveInto (m : Block) (readable_bytes : Nat) : SockBufM Unit := fun b =>
  let b' := b.setBlock (m.write 0 (slice b.m_buf.val b.m_read_index readable_bytes))
  .ok () ((b'.setRead 0).setWrite readable_bytes)

/-- `makeSpace(len)`: a new block if there is too little room behind and in front together, else
the bytes are moved to the front. -/
def makeSpace (len : Nat) : SockBufM Unit := do
  let readable_bytes ← readableBytes
  let writable_bytes ← writableBytes
  let b ← get
  if u32 (writable_bytes + b.m_read_index) < len then
    let new_buf ← mpAlloc (u32 (b.m_write_index + len))
    moveInto new_buf readable_bytes
  else
    -- memmove inside the old block
    moveInto b.m_buf readable_bytes

/-- `ensureWritableBytes(len)` -/
def ensureWritableBytes (len : Nat) : SockBufM Unit := do
  let writable_bytes ← writableBytes
  if writable_bytes < len then
    makeSpace len

/-- `memcpy(m_buf+m_write_index, buf, len)` -/
def copyIn (buf : Bytes) : SockBufM Unit :=
  fun b => .ok () (b.setBlock (b.m_buf.write b.m_write_index buf))

/-- `m_write_index += len` and the check behind it, as `apendBuf` has them. -/
def advanceWrite (len : Nat) : SockBufM Unit := fun b =>
  let b' := b.setWrite (b.m_write_index + len)
  if b'.m_write_index > b'.m_size then .error (.writeBiggerThanSize b'.m_write_index b'.m_size) b'
  else .ok () b'

/-- `apendBuf(buf, len)` -/
def apendBuf (buf : Bytes) : SockBufM Unit := do
  ensureWritableBytes buf.length
  copyIn buf
  advanceWrite buf.length

/-! ## Well-formed buffers -/

/-- The indices are in order and inside the block. -/
structure Valid (b : SockBuf) : Prop where
  read_le : b.m_read_index ≤ b.m_write_index
  write_le : b.m_write_index ≤ b.m_size

theorem valid_reset (b : SockBuf) : b.reset.Valid := ⟨Nat.le_refl _, Nat.zero_le _⟩

@[simp] theorem content_reset (b : SockBuf) : b.reset.content = [] := slice_zero_len _ _

@[simp] theorem reset_m_size (b : SockBuf) : b.reset.m_size = b.m_size := rfl

variable {b : SockBuf}

theorem Valid.length_content (h : b.Valid) :
    b.content.length = b.m_write_index - b.m_read_index := by
  have h1 := h.read_le
  have h2 : b.m_write_index ≤ b.m_buf.val.length := h.write_le
  exact length_slice (by omega)

theorem readableBytes_eq (h : b.Valid) : readableBytes b = .ok b.content.length b := by
  have h1 := h.read_le
  have h2 := h.write_le
  have h3 := b.m_size_lt
  simp only [readableBytes, u32Sub_of_le h1, h.length_content]
  rw [if_neg (by omega)]

theorem writableBytes_eq (h : b.Valid) :
    writableBytes b = .ok (b.m_size - b.m_write_index) b := by
  have h2 := h.write_le
  have h3 := b.m_size_lt
  simp only [writableBytes, u32Sub_of_le h2]
  rw [if_neg (by omega)]

/-- `readMove` inside the readable bytes drops them from the front. -/
theorem readMove_spec (h : b.Valid) {len : Nat} (hl : len ≤ b.content.length) :
    ∃ b', readMove len b = .ok () b' ∧ b'.Valid ∧ b'.content = b.content.drop len ∧
      b'.m_buf = b.m_buf ∧ b'.m_write_index = b.m_write_index := by
  have h1 := h.read_le
  have h2 := b.m_write_index_lt
  rw [h.length_content] at hl
  have hr : u32 (b.m_read_index + len) = b.m_read_index + len := u32_of_lt (by omega)
  refine ⟨b.setRead (b.m_read_index + len), ?_, ⟨?_, h.write_le⟩, ?_, rfl, rfl⟩
  · simp only [readMove, setRead_m_read_index, setRead_m_write_index, hr]
    rw [if_neg (by omega)]
  · simp only [setRead_m_read_index, setRead_m_write_index, hr]
    omega
  · simp only [content, setRead_m_buf, setRead_m_read_index, setRead_m_write_index, hr,
      Nat.sub_add_eq, slice_add]

/-- `writeMove` behind bytes that were put at `writeStart()` makes them readable. -/
theorem writeMove_spec (h : b.Valid) {len : Nat} (hl : b.m_write_index + len ≤ b.m_size) :
    ∃ b', writeMove len b = .ok () b' ∧ b'.Valid ∧
      b'.content = b.content ++ slice b.m_buf.val b.m_write_index len ∧
      b'.m_buf = b.m_buf ∧ b'.m_write_index = b.m_write_index + len := by
  have h1 := h.read_le
  have h3 := b.m_size_lt
  have hw : u32 (b.m_write_index + len) = b.m_write_index + len := u32_of_lt (by omega)
  refine ⟨b.setWrite (b.m_write_index + len), ?_, ⟨?_, ?_⟩, ?_, rfl, hw⟩
  · simp only [writeMove, setWrite_m_write_index, setWrite_m_size, hw]
    rw [if_neg (by omega)]
  · simp only [setWrite_m_read_index, setWrite_m_write_index, hw]
    omega
  · simp only [setWrite_m_write_index, setWrite_m_size, hw]
    exact hl
  · simp only [content, setWrite_m_buf, setWrite_m_read_index, setWrite_m_write_index, hw]
    exact slice_split h1

/-- Bytes that are put at `writeStart()` stand behind the content when `writeMove` has made them
readable. -/
theorem writeMove_write (h : b.Valid) {chunk : Bytes}
    (hroom : b.m_write_index + chunk.length ≤ b.m_size) :
    (b.setBlock (b.m_buf.write b.m_write_index chunk)).Valid ∧
      ∃ b', writeMove chunk.length (b.setBlock (b.m_buf.write b.m_write_index chunk)) = .ok () b' ∧
        b'.Valid ∧ b'.content = b.content ++ chunk := by
  have hsize : (b.m_buf.write b.m_write_index chunk).size = b.m_size := Block.size_write _ _ _
  have hv : (b.setBlock (b.m_buf.write b.m_write_index chunk)).Valid :=
    ⟨h.read_le, by rw [setBlock_m_size, hsize]; exact h.write_le⟩
  obtain ⟨b', hmove, hv', hcont, -, -⟩ := writeMove_spec hv
    (show b.m_write_index + chunk.length ≤ _ by rw [setBlock_m_size, hsize]; exact hroom)
  refine ⟨hv, b', hmove, hv', ?_⟩
  have hself : slice (b.m_buf.write b.m_write_index chunk).val b.m_write_index chunk.length
      = chunk := slice_overwrite_self hroom
  have hkeep : (b.setBlock (b.m_buf.write b.m_write_index chunk)).content = b.content :=
    slice_overwrite_before h.read_le hroom
  rw [hcont, hkeep]
  exact congrArg _ hself

/-- Moving the readable bytes to the front of a block that has room for them. -/
theorem moveInto_spec (h : b.Valid) {m : Block} (hm : b.content.length ≤ m.size) :
    ∃ b', moveInto m b.content.length b = .ok () b' ∧ b'.Valid ∧ b'.content = b.content ∧
      b'.m_size = m.size ∧ b'.m_write_index = b.content.length := by
  have h3 := m.size_lt
  have hw : u32 b.content.length = b.content.length := u32_of_lt (by omega)
  have h0 : u32 0 = 0 := rfl
  have hs : slice b.m_buf.val b.m_read_index b.content.length = b.content := by
    rw [h.length_content]; rfl
  have hover : slice (overwrite m.val 0 b.content) 0 b.content.length = b.content :=
    slice_overwrite_self (by rw [Nat.zero_add]; exact hm)
  refine ⟨_, rfl, ⟨?_, ?_⟩, ?_, ?_, ?_⟩
  · simp only [setWrite_m_read_index, setRead_m_read_index, h0, Nat.zero_le]
  · simpa only [setWrite_m_write_index, hw, setWrite_m_size, setRead_m_size, setBlock_m_size,
      Block.size_write] using hm
  · rw [hs]
    show slice (overwrite m.val 0 b.content) (u32 0) (u32 b.content.length - u32 0) = b.content
    rw [hw, h0, Nat.sub_zero, hover]
  · simp only [setWrite_m_size, setRead_m_size, setBlock_m_size, Block.size_write]
  · simp only [setWrite_m_write_index, hw]

/-- **`makeSpace(len)` keeps the content and leaves room for `len` bytes.** -/
theorem makeSpace_spec (h : b.Valid) {len : Nat} (hl : b.m_write_index + len < 2 ^ 31) :
    ∃ b', makeSpace len b = .ok () b' ∧ b'.Valid ∧ b'.content = b.content ∧
      b'.m_write_index + len ≤ b'.m_size ∧ b'.m_write_index ≤ b.m_write_index := by
  have h1 := h.read_le
  have h2 := h.write_le
  have h3 := b.m_size_lt
  have hc := h.length_content
  have hsum : u32 (b.m_size - b.m_write_index + b.m_read_index)
      = b.m_size - b.m_write_index + b.m_read_index := u32_of_lt (by omega)
  have hnew : u32 (b.m_write_index + len) = b.m_write_index + len := u32_of_lt (by omega)
  rw [makeSpace, bind_ok (readableBytes_eq h), bind_ok (writableBytes_eq h), bind_ok get_eq,
    hsum, hnew]
  by_cases hcase : b.m_size - b.m_write_index + b.m_read_index < len
  · -- a larger block
    obtain ⟨m, hm, hsize⟩ := Block.malloc?_of_lt hl
    have halloc : mpAlloc (b.m_write_index + len) b = .ok m b := by rw [mpAlloc, hm]
    obtain ⟨b', hb, hv, hcont, hms, hw⟩ := moveInto_spec h (m := m) (by omega)
    rw [if_pos hcase, bind_ok halloc]
    exact ⟨b', hb, hv, hcont, by omega, by omega⟩
  · have hbs : b.m_buf.size = b.m_size := rfl
    obtain ⟨b', hb, hv, hcont, hms, hw⟩ := moveInto_spec h (m := b.m_buf) (by omega)
    rw [if_neg hcase]
    exact ⟨b', hb, hv, hcont, by omega, by omega⟩

/-- **`ensureWritableBytes(len)` keeps the content and leaves room for `len` bytes.** -/
theorem ensureWritableBytes_spec (h : b.Valid) {len : Nat} (hl : b.m_write_index + len < 2 ^ 31) :
    ∃ b', ensureWritableBytes len b = .ok () b' ∧ b'.Valid ∧ b'.content = b.content ∧
      b'.m_write_index + len ≤ b'.m_size ∧ b'.m_write_index ≤ b.m_write_index := by
  have h2 := h.write_le
  rw [ensureWritableBytes, bind_ok (writableBytes_eq h)]
  by_cases hcase : b.m_size - b.m_write_index < len
  · rw [if_pos hcase]
    exact makeSpace_spec h hl
  · rw [if_neg hcase]
    exact ⟨b, rfl, h, rfl, by omega, Nat.le_refl _⟩

/-- `ensureWritableBytes` throws and changes nothing, or it keeps the content and leaves room. -/
theorem ensureWritableBytes_cases (h : b.Valid) {len : Nat} (hl : len ≤ 2 ^ 31) :
    (∃ e, ensureWritableBytes len b = .error e b) ∨
      ∃ b', ensureWritableBytes len b = .ok () b' ∧ b'.Valid ∧ b'.content = b.content ∧
        b'.m_write_index + len ≤ b'.m_size := by
  have h1 := h.read_le
  have h2 := h.write_le
  have h3 := b.m_size_lt
  by_cases hbound : b.m_write_index + len < 2 ^ 31
  · obtain ⟨b', hb, hv, hc, hroom, -⟩ := ensureWritableBytes_spec h hbound
    exact Or.inr ⟨b', hb, hv, hc, hroom⟩
  · -- a block of that size cannot be had, but the readable bytes may leave room at the front
    rw [ensureWritableBytes, bind_ok (writableBytes_eq h)]
    by_cases hcase : b.m_size - b.m_write_index < len
    · rw [if_pos hcase, makeSpace, bind_ok (readableBytes_eq h), bind_ok (writableBytes_eq h),
        bind_ok get_eq]
      have hsum : u32 (b.m_size - b.m_write_index + b.m_read_index)
          = b.m_size - b.m_write_index + b.m_read_index := u32_of_lt (by omega)
      have hnew : u32 (b.m_write_index + len) = b.m_write_index + len := u32_of_lt (by omega)
      rw [hsum, hnew]
      by_cases hmove : b.m_size - b.m_write_index + b.m_read_index < len
      · have halloc : mpAlloc (b.m_write_index + len) b = .error .mallocError b := by
          rw [mpAlloc, Block.malloc?, dif_neg (by omega)]
        rw [if_pos hmove, bind_error halloc]
        exact Or.inl ⟨_, rfl⟩
      · have hlen := h.length_content
        have hbs : b.m_buf.size = b.m_size := rfl
        obtain ⟨b', hb, hv, hcont, hms, hw⟩ := moveInto_spec h (m := b.m_buf) (by omega)
        rw [if_neg hmove]
        exact Or.inr ⟨b', hb, hv, hcont, by omega⟩
    · rw [if_neg hcase]
      exact Or.inr ⟨b, rfl, h, rfl, by omega⟩

/-- Writing behind the content and advancing over what was written. -/
theorem copyIn_advanceWrite (h : b.Valid) {buf : Bytes}
    (hl : b.m_write_index + buf.length ≤ b.m_size) :
    ∃ b₁ b', copyIn buf b = .ok () b₁ ∧ advanceWrite buf.length b₁ = .ok () b' ∧ b'.Valid ∧
      b'.content = b.content ++ buf ∧ b'.m_write_index = b.m_write_index + buf.length := by
  have h1 := h.read_le
  have h3 := b.m_size_lt
  have hu : u32 (b.m_write_index + buf.length) = b.m_write_index + buf.length :=
    u32_of_lt (by omega)
  have hsize : (b.m_buf.write b.m_write_index buf).size = b.m_size := Block.size_write _ _ _
  refine ⟨b.setBlock (b.m_buf.write b.m_write_index buf),
    (b.setBlock (b.m_buf.write b.m_write_index buf)).setWrite (b.m_write_index + buf.length),
    rfl, ?_, ⟨?_, ?_⟩, ?_, ?_⟩
  · simp only [advanceWrite, setBlock_m_write_index, setWrite_m_write_index, setWrite_m_size,
      setBlock_m_size, hu, hsize]
    rw [if_neg (by omega)]
  · simp only [setWrite_m_read_index, setBlock_m_read_index, setWrite_m_write_index, hu]
    omega
  · simpa only [setWrite_m_write_index, setWrite_m_size, setBlock_m_size, hu, hsize] using hl
  · simp only [content, setWrite_m_buf, setWrite_m_read_index, setWrite_m_write_index, hu,
      Block.write]
    exact slice_overwrite_append h1 hl
  · simp only [setWrite_m_write_index, hu]

/-- **`apendBuf` appends its bytes to the content.** -/
theorem apendBuf_spec (h : b.Valid) {buf : Bytes} (hl : b.m_write_index + buf.length < 2 ^ 31) :
    ∃ b', apendBuf buf b = .ok () b' ∧ b'.Valid ∧ b'.content = b.content ++ buf ∧
      b'.m_write_index ≤ b.m_write_index + buf.length := by
  obtain ⟨b₁, hb, hv, hc, hroom, hw⟩ := ensureWritableBytes_spec h hl
  obtain ⟨b₂, b', hcopy, hadv, hv', hc', hw'⟩ := copyIn_advanceWrite hv hroom
  refine ⟨b', ?_, hv', by rw [hc', hc], by omega⟩
  rw [apendBuf, bind_ok hb, bind_ok hcopy, hadv]

end SockBuf

end GhNet
