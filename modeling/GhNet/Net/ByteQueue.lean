import GhNet.Infra.Run
import GhNet.Net.SockBuf

/-!
# A `SockBuf` is a queue of bytes

What a `SockBuf` is for: bytes are put in at one end and taken out at the other. Where they lie in
the block, and in which block, is not seen.

`makeSpace` chooses between a larger block and moving the readable bytes to the front with sums and
differences of 32-bit unsigned values. As long as the sizes stay below `2^30` none of them wraps
around, so nothing is thrown.
-/

namespace GhNet.SockBuf

/-- What is done with a buffer. `write` stands for bytes that somebody else puts at `writeStart()`
and for the `writeMove` behind it. -/
inductive Op
  | apendBuf (buf : Bytes)
  | ensureWritableBytes (len : Nat)
  | write (bytes : Bytes)
  | readMove (len : Nat)
  | reset
  deriving DecidableEq

namespace Op

/-- The size that is passed. -/
def size : Op → Nat
  | .apendBuf buf => buf.length
  | .ensureWritableBytes len => len
  | .write bytes => bytes.length
  | .readMove len => len
  | .reset => 0

/-- The call on the buffer. -/
def call : Op → SockBufM Unit
  | .apendBuf buf => SockBuf.apendBuf buf
  | .ensureWritableBytes len => SockBuf.ensureWritableBytes len
  | .write bytes => do
    copyIn bytes
    writeMove bytes.length
  | .readMove len => SockBuf.readMove len
  | .reset => fun b => .ok () b.reset

/-- What the operation does to a queue. -/
def queue (q : Bytes) : Op → Bytes
  | .apendBuf buf => q ++ buf
  | .ensureWritableBytes _ => q
  | .write bytes => q ++ bytes
  | .readMove len => q.drop len
  | .reset => []

/-- Bytes are written where there is room, and taken only if they are there. -/
def Legal (b : SockBuf) : Op → Prop
  | .write bytes => bytes.length ≤ b.m_size - b.m_write_index
  | .readMove len => len ≤ b.m_write_index - b.m_read_index
  | _ => True

/-- The operation is legal and the sizes it works with are below `2^30`. -/
def Small (b : SockBuf) (op : Op) : Prop := op.Legal b ∧ op.size < 2 ^ 30 ∧ b.m_size < 2 ^ 30

end Op

/-- One operation. No step is made when it throws. -/
def step (b : SockBuf) (op : Op) : Option SockBuf :=
  match op.call b with
  | .ok _ b' => some b'
  | .error _ _ => none

theorem step_of_ok {b b' : SockBuf} {op : Op} (h : op.call b = .ok () b') :
    step b op = some b' := by
  rw [step, h]

variable {b : SockBuf}

/-- The bytes that were put at `writeStart()` become readable. -/
theorem write_spec (h : b.Valid) {bytes : Bytes} (hl : bytes.length ≤ b.m_size - b.m_write_index) :
    ∃ b', (Op.write bytes).call b = .ok () b' ∧ b'.Valid ∧ b'.content = b.content ++ bytes := by
  have h2 := h.write_le
  have hroom : b.m_write_index + bytes.length ≤ b.m_size := by omega
  have hsize : (b.m_buf.write b.m_write_index bytes).size = b.m_size := Block.size_write _ _ _
  have hcopy : copyIn bytes b = .ok () (b.setBlock (b.m_buf.write b.m_write_index bytes)) := rfl
  have hv : (b.setBlock (b.m_buf.write b.m_write_index bytes)).Valid :=
    ⟨h.read_le, by rw [setBlock_m_size, hsize]; exact h2⟩
  obtain ⟨b', hmove, hv', hc, -, -⟩ := writeMove_spec hv
    (show b.m_write_index + bytes.length ≤ _ by rw [setBlock_m_size, hsize]; exact hroom)
  have hkeep : (b.setBlock (b.m_buf.write b.m_write_index bytes)).content = b.content :=
    slice_overwrite_before h.read_le hroom
  have hself : slice (b.m_buf.write b.m_write_index bytes).val b.m_write_index bytes.length
      = bytes := slice_overwrite_self hroom
  refine ⟨b', ?_, hv', ?_⟩
  · rw [Op.call, bind_ok hcopy, hmove]
  · rw [hc, hkeep]
    exact congrArg _ hself

/-- **One operation on a buffer is the operation on the queue.** -/
theorem step_queue (h : b.Valid) {op : Op} (hop : op.Small b) :
    ∃ b', step b op = some b' ∧ b'.Valid ∧ b'.content = op.queue b.content := by
  obtain ⟨hlegal, hlen, hsize⟩ := hop
  have h2 := h.write_le
  cases op with
  | apendBuf buf =>
    have hfits : b.m_write_index + buf.length < 2 ^ 31 := by
      simp only [Op.size] at hlen
      omega
    obtain ⟨b', hb, hv, hc, -⟩ := apendBuf_spec h hfits
    exact ⟨b', step_of_ok hb, hv, hc⟩
  | ensureWritableBytes len =>
    have hfits : b.m_write_index + len < 2 ^ 31 := by
      simp only [Op.size] at hlen
      omega
    obtain ⟨b', hb, hv, hc, -, -⟩ := ensureWritableBytes_spec h hfits
    exact ⟨b', step_of_ok hb, hv, hc⟩
  | write bytes =>
    obtain ⟨b', hb, hv, hc⟩ := write_spec h hlegal
    exact ⟨b', step_of_ok hb, hv, hc⟩
  | readMove len =>
    have hle : len ≤ b.content.length := h.length_content ▸ hlegal
    obtain ⟨b', hb, hv, hc, -, -⟩ := readMove_spec h hle
    exact ⟨b', step_of_ok hb, hv, hc⟩
  | reset => exact ⟨b.reset, rfl, valid_reset b, content_reset b⟩

/-- `ensureWritableBytes` leaves as much room as it was asked for. -/
theorem step_ensureWritableBytes (h : b.Valid) {len : Nat}
    (hop : (Op.ensureWritableBytes len).Small b) :
    ∃ b', step b (.ensureWritableBytes len) = some b' ∧
      ∃ n, writableBytes b' = .ok n b' ∧ len ≤ n := by
  have h2 := h.write_le
  obtain ⟨-, hlen, hsize⟩ := hop
  have hfits : b.m_write_index + len < 2 ^ 31 := by
    simp only [Op.size] at hlen
    omega
  obtain ⟨b', hb, hv, -, hroom, -⟩ := ensureWritableBytes_spec h hfits
  exact ⟨b', step_of_ok hb, _, writableBytes_eq hv, by omega⟩

theorem ofSize_new {size : Nat} (h : ofSize size = some b) : b.Valid ∧ b.content = [] := by
  obtain ⟨m, -, rfl⟩ := Option.map_eq_some_iff.mp h
  exact ⟨⟨Nat.le_refl _, Nat.zero_le _⟩, slice_zero_len _ _⟩

/-- **A `SockBuf` refines a queue of bytes.** In every run of legal operations on sizes below
`2^30` nothing is thrown, the indices stay in order, the readable bytes are those of the queue, and
behind `ensureWritableBytes(n)` there is room for `n` bytes. -/
theorem refines_queue {size : Nat} {b₀ : SockBuf} (hnew : ofSize size = some b₀) (ops : List Op)
    (hops : Along step (fun b op => op.Small b) b₀ ops) :
    ∃ b, exec step b₀ ops = some b ∧ b.m_read_index ≤ b.m_write_index ∧
      b.m_write_index ≤ b.m_size ∧ b.content = ops.foldl Op.queue [] ∧
      ∀ before n, ops = before ++ [.ensureWritableBytes n] →
        ∃ m, writableBytes b = .ok m b ∧ n ≤ m := by
  obtain ⟨hv₀, hc₀⟩ := ofSize_new hnew
  have hsim := exec_simulates Valid content Op.queue fun b op hv hop => step_queue hv hop
  obtain ⟨b, hb, hv, hc⟩ := hsim ops hv₀ hops
  rw [hc₀] at hc
  refine ⟨b, hb, hv.read_le, hv.write_le, hc, ?_⟩
  rintro before n rfl
  obtain ⟨hbefore, hlast⟩ := hops.concat
  obtain ⟨u, hu, hstep⟩ := exec_concat hb
  obtain ⟨u', hu', hvu, -⟩ := hsim before hv₀ hbefore
  obtain rfl := Option.some.inj (hu'.symm.trans hu)
  obtain ⟨b', hb', hroom⟩ := step_ensureWritableBytes hvu (hlast _ hu)
  obtain rfl := Option.some.inj (hb'.symm.trans hstep)
  exact hroom

/-! ### A block that moves its bytes and then grows -/

instance (b : SockBuf) : ∀ op : Op, Decidable (op.Legal b)
  | .write bytes => inferInstanceAs (Decidable (bytes.length ≤ b.m_size - b.m_write_index))
  | .readMove len => inferInstanceAs (Decidable (len ≤ b.m_write_index - b.m_read_index))
  | .apendBuf _ | .ensureWritableBytes _ | .reset => .isTrue trivial

instance (b : SockBuf) (op : Op) : Decidable (op.Small b) := inferInstanceAs (Decidable (_ ∧ _))

/-- A buffer with a block of four bytes. -/
def fourBytes : SockBuf := (ofSize 4).get (by decide)

/-- The second `apendBuf` finds room at the front, the third needs a larger block. -/
def growing : List Op :=
  [.apendBuf [1, 2, 3], .readMove 2, .apendBuf [4, 5, 6], .apendBuf [7], .ensureWritableBytes 3]

theorem refines_queue_growing :
    ∃ b, exec step fourBytes growing = some b ∧ b.m_read_index ≤ b.m_write_index ∧
      b.m_write_index ≤ b.m_size ∧ b.content = growing.foldl Op.queue [] ∧
      ∀ before n, growing = before ++ [.ensureWritableBytes n] →
        ∃ m, writableBytes b = .ok m b ∧ n ≤ m :=
  refines_queue (Option.some_get _).symm growing (by decide +kernel)

end GhNet.SockBuf
