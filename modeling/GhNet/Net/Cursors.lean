import GhNet.Net.SockBuf

/-!
# The indices of a `SockBuf`

`readMove` and `writeMove` advance an index before they look at where it has come to, and the sum
wraps around. The indices are looked at here for all 32-bit values, also where no block is that
large.
-/

namespace GhNet

/-! ## Advancing and looking back -/

section Advance

variable {σ : Type} {index limit : σ → UInt32} {set : σ → UInt32 → σ} {e : σ → Exception}
  {s : σ} {len : UInt32}

/-- `index += len; if(index > limit) throw` -/
def advance (index limit : σ → UInt32) (set : σ → UInt32 → σ) (e : σ → Exception) (len : UInt32) :
    EStateM Exception σ Unit := fun s =>
  let s' := set s (index s + len)
  if index s' > limit s' then .error (e s') s' else .ok () s'

/-- The index is advanced if there is room for it, and otherwise an exception is thrown and nothing
is changed. -/
def MovesExactly (index limit : σ → UInt32) (set : σ → UInt32 → σ) (m : EStateM Exception σ Unit)
    (len : UInt32) (s : σ) : Prop :=
  (len ≤ limit s - index s → m s = .ok () (set s (index s + len))) ∧
    (¬len ≤ limit s - index s → ∃ e, m s = .error e s)

/-- The exception is thrown behind the limit. -/
theorem index_gt_of_error {s' : σ} {e' : Exception}
    (h : advance index limit set e len s = .error e' s') : index s' > limit s' := by
  unfold advance at h
  dsimp only at h
  split at h
  · next hgt =>
    injection h with _ hs
    exact hs ▸ hgt
  · cases h

variable (hindex : ∀ s n, index (set s n) = n) (hlimit : ∀ s n, limit (set s n) = limit s)

include hindex hlimit

theorem advance_eq (s : σ) (len : UInt32) : advance index limit set e len s =
    if index s + len > limit s then .error (e (set s (index s + len))) (set s (index s + len))
    else .ok () (set s (index s + len)) := by
  unfold advance
  simp only [hindex, hlimit]

theorem advance_le (h : index s ≤ limit s) (hlen : len ≤ limit s - index s) :
    advance index limit set e len s = .ok () (set s (index s + len)) := by
  rw [advance_eq hindex hlimit, if_neg]
  rw [UInt32.le_iff_toNat_le] at h
  rw [UInt32.le_iff_toNat_le, UInt32.toNat_sub_of_le _ _ h] at hlen
  rw [gt_iff_lt, UInt32.lt_iff_toNat_lt, UInt32.toNat_add]
  have hlt := (limit s).toNat_lt
  omega

/-- **Without room the index is moved all the same.** The exception is thrown behind the limit; if
the sum wraps around, the index is moved back and nothing is thrown. -/
theorem advance_gt (h : index s ≤ limit s) (hlen : ¬len ≤ limit s - index s) :
    ((index s).toNat + len.toNat < 2 ^ 32 ∧ advance index limit set e len s
        = .error (e (set s (index s + len))) (set s (index s + len))) ∨
      (2 ^ 32 ≤ (index s).toNat + len.toNat ∧ index s + len < index s ∧
        advance index limit set e len s = .ok () (set s (index s + len))) := by
  rw [UInt32.le_iff_toNat_le] at h
  rw [UInt32.le_iff_toNat_le, UInt32.toNat_sub_of_le _ _ h] at hlen
  have hsum : (index s + len).toNat = ((index s).toNat + len.toNat) % 2 ^ 32 :=
    UInt32.toNat_add ..
  have hlt := len.toNat_lt
  rw [advance_eq hindex hlimit]
  by_cases hwrap : (index s).toNat + len.toNat < 2 ^ 32
  · refine .inl ⟨hwrap, if_pos ?_⟩
    rw [gt_iff_lt, UInt32.lt_iff_toNat_lt]
    omega
  · refine .inr ⟨Nat.le_of_not_lt hwrap, ?_, if_neg ?_⟩
    · rw [UInt32.lt_iff_toNat_lt]
      omega
    · rw [gt_iff_lt, UInt32.lt_iff_toNat_lt]
      omega

/-- **The move is exact or has no effect if and only if there is room for it.** -/
theorem movesExactly_iff (h : index s ≤ limit s) :
    MovesExactly index limit set (advance index limit set e len) len s ↔
      len ≤ limit s - index s := by
  constructor
  · intro hexact
    by_contra hlen
    obtain ⟨e', he'⟩ := hexact.2 hlen
    rcases advance_gt (e := e) hindex hlimit h hlen with ⟨hsum, hthrow⟩ | ⟨-, -, hok⟩
    · rw [hthrow] at he'
      injection he' with _ hs
      -- the index has not been moved, so that `len` is 0
      have hsame := congrArg UInt32.toNat (congrArg index hs)
      rw [hindex, UInt32.toNat_add, Nat.mod_eq_of_lt hsum] at hsame
      rw [UInt32.le_iff_toNat_le] at hlen
      omega
    · rw [hok] at he'
      cases he'
  · exact fun hlen => ⟨fun _ => advance_le hindex hlimit h hlen, fun hx => absurd hlen hx⟩

end Advance

/-! ## The indices -/

/-- `m_size`, `m_read_index` and `m_write_index` of a buffer. -/
structure Cursors where
  m_size : UInt32
  m_read_index : UInt32
  m_write_index : UInt32
  deriving DecidableEq, Repr

namespace Cursors

/-- The indices are in order and inside the block. -/
structure Valid (c : Cursors) : Prop where
  read_le : c.m_read_index ≤ c.m_write_index
  write_le : c.m_write_index ≤ c.m_size

/-- The read index is set. -/
def withRead (c : Cursors) (n : UInt32) : Cursors := { c with m_read_index := n }

/-- The write index is set. -/
def withWrite (c : Cursors) (n : UInt32) : Cursors := { c with m_write_index := n }

/-- `readMove`, on the indices alone. -/
def readMove : UInt32 → EStateM Exception Cursors Unit :=
  advance m_read_index m_write_index withRead fun c =>
    .writeNotBiggerThanRead c.m_write_index.toNat c.m_read_index.toNat

/-- `writeMove`, on the indices alone. -/
def writeMove : UInt32 → EStateM Exception Cursors Unit :=
  advance m_write_index m_size withWrite fun _ => .writeIndexOutOfRange

/-- `readMove(len)` advances the read index if so much is readable, and otherwise throws and changes
nothing. -/
def ReadsExactly (len : UInt32) (c : Cursors) : Prop :=
  MovesExactly m_read_index m_write_index withRead (readMove len) len c

/-- `writeMove(len)` advances the write index if so much is writable, and otherwise throws and
changes nothing. -/
def WritesExactly (len : UInt32) (c : Cursors) : Prop :=
  MovesExactly m_write_index m_size withWrite (writeMove len) len c

/-- **The two moves keep to what is readable and writable if and only if their callers do.** -/
theorem moves_exactly_iff {c : Cursors} (h : c.Valid) (len : UInt32) :
    (c.ReadsExactly len ↔ len ≤ c.m_write_index - c.m_read_index) ∧
      (c.WritesExactly len ↔ len ≤ c.m_size - c.m_write_index) :=
  ⟨movesExactly_iff (fun _ _ => rfl) (fun _ _ => rfl) h.read_le,
    movesExactly_iff (fun _ _ => rfl) (fun _ _ => rfl) h.write_le⟩

/-- Three bytes are readable and one is writable. -/
theorem moves_exactly_three : ReadsExactly 3 ⟨4, 0, 3⟩ ∧ WritesExactly 1 ⟨4, 0, 3⟩ := by
  have h := moves_exactly_iff (c := ⟨4, 0, 3⟩) ⟨by decide, by decide⟩
  exact ⟨(h 3).1.mpr (by decide), (h 1).2.mpr (by decide)⟩

/-- **A read past the content throws, and has moved the index.** -/
theorem readMove_not_exact : ¬∀ (c : Cursors), c.Valid → ∀ len, c.ReadsExactly len := by
  intro h
  obtain ⟨e, he⟩ := (h ⟨4, 0, 3⟩ ⟨by decide, by decide⟩ 5).2 (by decide)
  have hmoved : readMove 5 ⟨4, 0, 3⟩ = .error (.writeNotBiggerThanRead 3 5) ⟨4, 5, 3⟩ := rfl
  rw [hmoved] at he
  injection he with _ hc
  exact absurd (congrArg m_read_index hc) (by decide)

/-- Whoever catches the exception has a buffer whose indices are out of order. -/
theorem not_valid_of_error {c c' : Cursors} {len : UInt32} {e : Exception}
    (h : readMove len c = .error e c' ∨ writeMove len c = .error e c') : ¬c'.Valid := by
  intro hvalid
  rcases h with h | h
  · exact UInt32.not_le.mpr (index_gt_of_error h) hvalid.read_le
  · exact UInt32.not_le.mpr (index_gt_of_error h) hvalid.write_le

end Cursors

/-! ## The buffer -/

/-- The same outcome, with what is left seen through `f`. -/
def mapState {ε σ τ α : Type} (f : σ → τ) : EStateM.Result ε σ α → EStateM.Result ε τ α
  | .ok a s => .ok a (f s)
  | .error e s => .error e (f s)

namespace SockBuf

/-- The indices of a buffer. -/
def cursors (b : SockBuf) : Cursors where
  m_size := .ofNat b.m_size
  m_read_index := .ofNat b.m_read_index
  m_write_index := .ofNat b.m_write_index

theorem ofNat_u32_add {n : Nat} (len : UInt32) :
    UInt32.ofNat (u32 (n + len.toNat)) = UInt32.ofNat n + len := by
  apply UInt32.toNat_inj.mp
  rw [UInt32.toNat_add, UInt32.toNat_ofNat', UInt32.toNat_ofNat', u32]
  omega

theorem ofNat_lt_iff {m n : Nat} (hm : m < 2 ^ 32) (hn : n < 2 ^ 32) :
    UInt32.ofNat m < UInt32.ofNat n ↔ m < n := by
  rw [UInt32.lt_iff_toNat_lt, UInt32.toNat_ofNat_of_lt' hm, UInt32.toNat_ofNat_of_lt' hn]

theorem cursors_m_size_lt (b : SockBuf) : b.m_size < 2 ^ 32 :=
  Nat.lt_trans b.m_size_lt (by decide)

theorem valid_cursors (b : SockBuf) : b.cursors.Valid ↔ b.Valid := by
  have hle : ∀ {m n : Nat}, m < 2 ^ 32 → n < 2 ^ 32 → (UInt32.ofNat m ≤ UInt32.ofNat n ↔ m ≤ n) :=
    fun hm hn => by
      rw [UInt32.le_iff_toNat_le, UInt32.toNat_ofNat_of_lt' hm, UInt32.toNat_ofNat_of_lt' hn]
  have hread := hle b.m_read_index_lt b.m_write_index_lt
  have hwrite := hle b.m_write_index_lt b.cursors_m_size_lt
  exact ⟨fun h => ⟨hread.mp h.read_le, hwrite.mp h.write_le⟩,
    fun h => ⟨hread.mpr h.read_le, hwrite.mpr h.write_le⟩⟩

theorem cursors_setRead (b : SockBuf) (len : UInt32) :
    (b.setRead (b.m_read_index + len.toNat)).cursors
      = b.cursors.withRead (b.cursors.m_read_index + len) := by
  rw [cursors, setRead_m_read_index, ofNat_u32_add]
  rfl

theorem cursors_setWrite (b : SockBuf) (len : UInt32) :
    (b.setWrite (b.m_write_index + len.toNat)).cursors
      = b.cursors.withWrite (b.cursors.m_write_index + len) := by
  rw [cursors, setWrite_m_write_index, ofNat_u32_add]
  rfl

/-- **The moves of a buffer are those of its indices.** -/
theorem readMove_cursors (b : SockBuf) (len : UInt32) :
    mapState cursors (readMove len.toNat b) = Cursors.readMove len b.cursors := by
  have hc := cursors_setRead b len
  unfold readMove Cursors.readMove advance
  dsimp only
  rw [← hc]
  generalize b.setRead (b.m_read_index + len.toNat) = b'
  have hgt : b'.cursors.m_read_index > b'.cursors.m_write_index ↔
      b'.m_read_index > b'.m_write_index := ofNat_lt_iff b'.m_write_index_lt b'.m_read_index_lt
  by_cases h : b'.m_read_index > b'.m_write_index
  · rw [if_pos h, if_pos (hgt.mpr h), mapState, cursors]
    dsimp only
    rw [UInt32.toNat_ofNat_of_lt' b'.m_write_index_lt, UInt32.toNat_ofNat_of_lt' b'.m_read_index_lt]
  · rw [if_neg h, if_neg (mt hgt.mp h), mapState]

theorem writeMove_cursors (b : SockBuf) (len : UInt32) :
    mapState cursors (writeMove len.toNat b) = Cursors.writeMove len b.cursors := by
  have hc := cursors_setWrite b len
  unfold writeMove Cursors.writeMove advance
  dsimp only
  rw [← hc]
  generalize b.setWrite (b.m_write_index + len.toNat) = b'
  have hgt : b'.cursors.m_write_index > b'.cursors.m_size ↔ b'.m_write_index > b'.m_size :=
    ofNat_lt_iff b'.cursors_m_size_lt b'.m_write_index_lt
  by_cases h : b'.m_write_index > b'.m_size
  · rw [if_pos h, if_pos (hgt.mpr h), mapState]
  · rw [if_neg h, if_neg (mt hgt.mp h), mapState]

end SockBuf

end GhNet
