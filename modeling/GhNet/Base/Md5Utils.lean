import GhNet.Base.Md5

/-!
# Digests of large data

`MD5lqUtils.cpp` takes the data of a file or in memory in blocks of 10 MiB, and chains the digests:
the digest of a block is put in front of what there is, and the digest of both is what there is
then. Both functions end with the first block that is not whole.

They do not agree. Where the data ends with a whole block, `ReadMemBuffer` reads an empty one once
more, while `fread` with nothing to read is taken for an error.
-/

namespace GhNet.Md5

open GhNet Blocks

/-- As much is read at a time. -/
def BLOCK_SIZE : Nat := 10 * 1024 * 1024

theorem BLOCK_SIZE_pos : 0 < BLOCK_SIZE := by decide

-- the context of each call is what is on the stack
variable (stack : MD5CTX)

/-- The constants are those of `MD5` in another order. -/
def GetMD5 (src : Bytes) : Bytes :=
  (MD5 stack src true ⟨0x10325476, 0xEFCDAB89, 0x67452301, 0x98BADCFE⟩).1

/-- The buffer and the number of bytes in it. -/
def ReadMemBuffer (nStartReadPos nEndReadPos : Nat) (lpMem : Bytes) (nNumberOfBytesToRead : Nat) :
    Option (Bytes × Nat) :=
  if nEndReadPos < nStartReadPos then none
  else
    let lpBuffer := List.replicate nNumberOfBytesToRead 0
    let nDeffReadPos := nEndReadPos - nStartReadPos
    if nDeffReadPos ≤ nNumberOfBytesToRead then
      some (overwrite lpBuffer 0 (slice lpMem nStartReadPos nDeffReadPos), nDeffReadPos)
    else
      some (overwrite lpBuffer 0 (slice lpMem nStartReadPos nNumberOfBytesToRead),
        nNumberOfBytesToRead)

/-- What the loops do with a block. -/
def chain (bufMD5 block : Bytes) : Bytes := GetMD5 stack (GetMD5 stack block ++ bufMD5.take 32)

theorem ReadMemBuffer_size {start stop n size : Nat} {mem buffer : Bytes}
    (h : ReadMemBuffer start stop mem n = some (buffer, size)) : start + size ≤ stop := by
  unfold ReadMemBuffer at h
  split at h
  · cases h
  · dsimp only at h
    split at h <;> (cases h; omega)

/-- The loop of `GenerateMemInfo` from a position on. -/
def GenerateMemInfo.loop (lpMem : Bytes) (start_pos : Nat) (bufMD5 : Bytes) : Bool × Bytes :=
  match _h : ReadMemBuffer start_pos lpMem.length lpMem BLOCK_SIZE with
  | none => (false, bufMD5)
  | some (buffer, size) =>
    if size = BLOCK_SIZE then
      GenerateMemInfo.loop lpMem (start_pos + BLOCK_SIZE) (chain stack bufMD5 (buffer.take size))
    else (true, chain stack bufMD5 (buffer.take size))
termination_by lpMem.length - start_pos
decreasing_by
  have hread := ReadMemBuffer_size _h
  have hpos := BLOCK_SIZE_pos
  omega

/-- A null pointer is refused. -/
def GenerateMemInfo (lpMem : Option Bytes) (bufMD5 : Bytes) : Bool × Bytes :=
  match lpMem with
  | none => (false, bufMD5)
  | some lpMem => GenerateMemInfo.loop stack lpMem 0 (bufMD5.set 0 0)

/-- The argument is what is left of the file. -/
def GenerateFileInfo.loop (file bufMD5 : Bytes) : Bool × Bytes :=
  if (file.take BLOCK_SIZE).length = 0 then (false, bufMD5)
  else if (file.take BLOCK_SIZE).length = BLOCK_SIZE then
    GenerateFileInfo.loop (file.drop BLOCK_SIZE) (chain stack bufMD5 (file.take BLOCK_SIZE))
  else (true, chain stack bufMD5 (file.take BLOCK_SIZE))
termination_by file.length
decreasing_by
  rw [List.length_take] at *
  rw [List.length_drop]
  omega

/-- `GenerateFileInfo`; `none` is a file that cannot be opened. -/
def GenerateFileInfo (file : Option Bytes) (bufMD5 : Bytes) : Bool × Bytes :=
  match file with
  | none => (false, bufMD5)
  | some file => GenerateFileInfo.loop stack file (bufMD5.set 0 0)

/-- The file is what `fopen_s` finds. -/
def GetMD5FromFile (file : Option Bytes) (bufMD5 : Bytes) : Bool × Bytes :=
  match file with
  | none => (false, bufMD5)
  | some file => GenerateFileInfo stack (some file) (List.replicate 32 0)

/-! ## The blocks -/

variable {stack}

/-- A block, or what is left at the end. -/
theorem ReadMemBuffer_eq {start n : Nat} {mem : Bytes} (h : start ≤ mem.length) :
    ∃ buffer, ReadMemBuffer start mem.length mem n
        = some (buffer, ((mem.drop start).take n).length) ∧
      buffer.take ((mem.drop start).take n).length = (mem.drop start).take n := by
  have hread : ∀ {k}, k ≤ n → start + k ≤ mem.length →
      (overwrite (List.replicate n 0) 0 (slice mem start k)).take k = slice mem start k := by
    intro k hk hle
    have hlen := length_slice hle
    have hroom : 0 + (slice mem start k).length ≤ (List.replicate n (0 : UInt8)).length := by
      rw [hlen, List.length_replicate]
      omega
    have hself := slice_overwrite_self hroom
    rwa [hlen, slice, List.drop_zero] at hself
  have hlen : ((mem.drop start).take n).length = min n (mem.length - start) := by
    rw [List.length_take, List.length_drop]
  unfold ReadMemBuffer
  rw [if_neg (Nat.not_lt.mpr h), hlen]
  dsimp only
  split
  · next hle =>
    rw [Nat.min_eq_right hle]
    refine ⟨_, rfl, ?_⟩
    rw [hread hle (by omega), slice, List.take_of_length_le (by rw [List.length_drop]),
      List.take_of_length_le (by rw [List.length_drop]; exact hle)]
  · next hle =>
    rw [Nat.min_eq_left (by omega)]
    exact ⟨_, rfl, hread (Nat.le_refl n) (by omega)⟩

/-- In memory the last block is not whole, and may be empty. -/
theorem GenerateMemInfo.loop_eq {mem : Bytes} {start : Nat} (h : start ≤ mem.length)
    (bufMD5 : Bytes) : GenerateMemInfo.loop stack mem start bufMD5 =
      (true, chain stack (absorb BLOCK_SIZE (chain stack) bufMD5 (mem.drop start))
        (rest BLOCK_SIZE (mem.drop start))) := by
  induction hk : mem.length - start using Nat.strongRecOn generalizing start bufMD5 with
  | _ k ih =>
    have hpos := BLOCK_SIZE_pos
    obtain ⟨buffer, hread, htake⟩ := ReadMemBuffer_eq (n := BLOCK_SIZE) h
    have hlen : ((mem.drop start).take BLOCK_SIZE).length
        = min BLOCK_SIZE (mem.length - start) := by
      rw [List.length_take, List.length_drop]
    have hdrop := List.length_drop (i := start) (l := mem)
    unfold GenerateMemInfo.loop
    split
    · next hnone =>
      rw [hread] at hnone
      cases hnone
    · next b size hsome =>
      obtain ⟨rfl, rfl⟩ := Prod.mk.inj (Option.some.inj (hread.symm.trans hsome))
      rw [htake]
      split
      · next hfull =>
        have hle : BLOCK_SIZE ≤ (mem.drop start).length := by omega
        rw [absorb_long hpos hle, rest_long hpos hle, List.drop_drop]
        exact ih _ (by omega) (by omega) _ rfl
      · next hpart =>
        have hlt : (mem.drop start).length < BLOCK_SIZE := by omega
        rw [absorb_short hlt, rest_short hlt, List.take_of_length_le (Nat.le_of_lt hlt)]

/-- From a file, an empty block is an error. -/
theorem GenerateFileInfo.loop_eq (file bufMD5 : Bytes) :
    GenerateFileInfo.loop stack file bufMD5 =
      let chained := absorb BLOCK_SIZE (chain stack) bufMD5 file
      if BLOCK_SIZE ∣ file.length then (false, chained)
      else (true, chain stack chained (rest BLOCK_SIZE file)) := by
  have hpos := BLOCK_SIZE_pos
  fun_induction GenerateFileInfo.loop stack file bufMD5 with
  | case1 file bufMD5 hnil =>
    have hlen : file.length = 0 := by
      rw [List.length_take] at hnil
      omega
    have habsorb : absorb BLOCK_SIZE (chain stack) bufMD5 file = bufMD5 :=
      absorb_short (by omega)
    dsimp only
    rw [habsorb, if_pos (by rw [hlen]; exact Nat.dvd_zero _)]
  | case2 file bufMD5 hne hfull ih =>
    have hle : BLOCK_SIZE ≤ file.length := by
      rw [List.length_take] at hfull
      omega
    have hdvd : BLOCK_SIZE ∣ (file.drop BLOCK_SIZE).length ↔ BLOCK_SIZE ∣ file.length := by
      rw [List.length_drop]
      exact Nat.dvd_sub_iff_left hle (Nat.dvd_refl _)
    dsimp only at ih ⊢
    rw [ih, absorb_long hpos hle, rest_long hpos hle]
    simp only [hdvd]
  | case3 file bufMD5 hne hpart =>
    rw [List.length_take] at hne hpart
    have hlt : file.length < BLOCK_SIZE := by omega
    have hnot : ¬BLOCK_SIZE ∣ file.length := Nat.not_dvd_of_pos_of_lt (by omega) hlt
    dsimp only
    rw [if_neg hnot, absorb_short hlt, rest_short hlt, List.take_of_length_le (Nat.le_of_lt hlt)]

/-! ## What is on the stack -/

theorem GetMD5_eq (stack : MD5CTX) (src : Bytes) : GetMD5 stack src =
    MD5Print (digest ⟨0x10325476, 0xEFCDAB89, 0x67452301, 0x98BADCFE⟩ src) :=
  MD5_eq stack src true _

theorem chain_eq (stack stack' : MD5CTX) : chain stack = chain stack' := by
  funext bufMD5 block
  simp only [chain, GetMD5_eq]

/-- **Files and memory.** In memory there is always a digest. A file has the same one, unless it is
empty or ends with a whole block: then there is none. -/
theorem file_as_memory (stack stack' : MD5CTX) (data bufMD5 : Bytes) :
    (GenerateMemInfo stack (some data) bufMD5).1 = true ∧
      (GenerateFileInfo stack' (some data) bufMD5 =
        if BLOCK_SIZE ∣ data.length then
          (false, absorb BLOCK_SIZE (chain stack) (bufMD5.set 0 0) data)
        else GenerateMemInfo stack (some data) bufMD5) ∧
      (GetMD5FromFile stack' (some data) bufMD5).1 = !decide (BLOCK_SIZE ∣ data.length) := by
  have hmem : GenerateMemInfo stack (some data) bufMD5 = _ :=
    GenerateMemInfo.loop_eq (Nat.zero_le _) _
  have hfile : ∀ buf, GenerateFileInfo stack' (some data) buf = _ :=
    fun buf => GenerateFileInfo.loop_eq data (buf.set 0 0)
  rw [List.drop_zero] at hmem
  refine ⟨by rw [hmem], ?_, ?_⟩
  · rw [hfile, hmem, chain_eq stack' stack]
  · rw [GetMD5FromFile, hfile]
    dsimp only
    split <;> next hdvd => simp [hdvd]

end GhNet.Md5
