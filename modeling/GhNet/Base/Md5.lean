import GhNet.Infra.Blocks
import GhNet.Infra.ByteOrder

/-!
# MD5

`MD5lq.cpp` takes data in pieces of any length and transforms its state with every 64 bytes. The
number of bits is counted in two words.

`digest` says what comes out: the padded data is transformed block by block. The context that `MD5`
starts with is not initialised, and what is in its buffer does not matter.

A piece is shorter than `2^32 - 64` bytes, as every array of a 32-bit program is: its length and the
index of the loop are 32-bit numbers, and `i + 63` must not wrap.
-/

namespace GhNet.Md5

open GhNet Blocks

/-! ## The transformation -/

/-- The function of the first round. -/
def F (x y z : UInt32) : UInt32 := (x &&& y) ||| (~~~x &&& z)

/-- The function of the second. -/
def G (x y z : UInt32) : UInt32 := (x &&& z) ||| (y &&& ~~~z)

/-- The function of the third. -/
def H (x y z : UInt32) : UInt32 := x ^^^ y ^^^ z

/-- The function of the fourth. -/
def I (x y z : UInt32) : UInt32 := y ^^^ (x ||| ~~~z)

/-- Rotates `x` left by `n` bits. -/
def ROTATE_LEFT (x n : UInt32) : UInt32 := (x <<< n) ||| (x >>> (32 - n))

/-- What the macro leaves in its first argument. -/
def FF (a b c d x s ac : UInt32) : UInt32 := ROTATE_LEFT (a + (F b c d + x + ac)) s + b

/-- `FF` with the function of the second round. -/
def GG (a b c d x s ac : UInt32) : UInt32 := ROTATE_LEFT (a + (G b c d + x + ac)) s + b

/-- `FF` with the function of the third. -/
def HH (a b c d x s ac : UInt32) : UInt32 := ROTATE_LEFT (a + (H b c d + x + ac)) s + b

/-- `FF` with the function of the fourth. -/
def II (a b c d x s ac : UInt32) : UInt32 := ROTATE_LEFT (a + (I b c d + x + ac)) s + b

/-- `state[4]`. -/
structure State where
  a : UInt32
  b : UInt32
  c : UInt32
  d : UInt32

/-- The four words in their order. -/
def State.words (s : State) : List UInt32 := [s.a, s.b, s.c, s.d]

/-- The words as bytes, low byte first. -/
def Encode (input : List UInt32) : Bytes := input.flatMap fun w => leBytes 4 w.toNat

/-- Four bytes make a word, low byte first. -/
def Decode : Bytes → List UInt32
  | b0 :: b1 :: b2 :: b3 :: rest => UInt32.ofNat (ofLeBytes [b0, b1, b2, b3]) :: Decode rest
  | _ => []

/-- The four rounds over one block of 64 bytes. -/
def MD5Transform (state : State) (block : Bytes) : State :=
  let a := state.a
  let b := state.b
  let c := state.c
  let d := state.d
  let x (k : Nat) := (Decode block).getD k 0
  -- Round 1
  let a := FF a b c d (x 0) 7 0xd76aa478
  let d := FF d a b c (x 1) 12 0xe8c7b756
  let c := FF c d a b (x 2) 17 0x242070db
  let b := FF b c d a (x 3) 22 0xc1bdceee
  let a := FF a b c d (x 4) 7 0xf57c0faf
  let d := FF d a b c (x 5) 12 0x4787c62a
  let c := FF c d a b (x 6) 17 0xa8304613
  let b := FF b c d a (x 7) 22 0xfd469501
  let a := FF a b c d (x 8) 7 0x698098d8
  let d := FF d a b c (x 9) 12 0x8b44f7af
  let c := FF c d a b (x 10) 17 0xffff5bb1
  let b := FF b c d a (x 11) 22 0x895cd7be
  let a := FF a b c d (x 12) 7 0x6b901122
  let d := FF d a b c (x 13) 12 0xfd987193
  let c := FF c d a b (x 14) 17 0xa679438e
  let b := FF b c d a (x 15) 22 0x49b40821
  -- Round 2
  let a := GG a b c d (x 1) 5 0xf61e2562
  let d := GG d a b c (x 6) 9 0xc040b340
  let c := GG c d a b (x 11) 14 0x265e5a51
  let b := GG b c d a (x 0) 20 0xe9b6c7aa
  let a := GG a b c d (x 5) 5 0xd62f105d
  let d := GG d a b c (x 10) 9 0x2441453
  let c := GG c d a b (x 15) 14 0xd8a1e681
  let b := GG b c d a (x 4) 20 0xe7d3fbc8
  let a := GG a b c d (x 9) 5 0x21e1cde6
  let d := GG d a b c (x 14) 9 0xc33707d6
  let c := GG c d a b (x 3) 14 0xf4d50d87
  let b := GG b c d a (x 8) 20 0x455a14ed
  let a := GG a b c d (x 13) 5 0xa9e3e905
  let d := GG d a b c (x 2) 9 0xfcefa3f8
  let c := GG c d a b (x 7) 14 0x676f02d9
  let b := GG b c d a (x 12) 20 0x8d2a4c8a
  -- Round 3
  let a := HH a b c d (x 5) 4 0xfffa3942
  let d := HH d a b c (x 8) 11 0x8771f681
  let c := HH c d a b (x 11) 16 0x6d9d6122
  let b := HH b c d a (x 14) 23 0xfde5380c
  let a := HH a b c d (x 1) 4 0xa4beea44
  let d := HH d a b c (x 4) 11 0x4bdecfa9
  let c := HH c d a b (x 7) 16 0xf6bb4b60
  let b := HH b c d a (x 10) 23 0xbebfbc70
  let a := HH a b c d (x 13) 4 0x289b7ec6
  let d := HH d a b c (x 0) 11 0xeaa127fa
  let c := HH c d a b (x 3) 16 0xd4ef3085
  let b := HH b c d a (x 6) 23 0x4881d05
  let a := HH a b c d (x 9) 4 0xd9d4d039
  let d := HH d a b c (x 12) 11 0xe6db99e5
  let c := HH c d a b (x 15) 16 0x1fa27cf8
  let b := HH b c d a (x 2) 23 0xc4ac5665
  -- Round 4
  let a := II a b c d (x 0) 6 0xf4292244
  let d := II d a b c (x 7) 10 0x432aff97
  let c := II c d a b (x 14) 15 0xab9423a7
  let b := II b c d a (x 5) 21 0xfc93a039
  let a := II a b c d (x 12) 6 0x655b59c3
  let d := II d a b c (x 3) 10 0x8f0ccc92
  let c := II c d a b (x 10) 15 0xffeff47d
  let b := II b c d a (x 1) 21 0x85845dd1
  let a := II a b c d (x 8) 6 0x6fa87e4f
  let d := II d a b c (x 15) 10 0xfe2ce6e0
  let c := II c d a b (x 6) 15 0xa3014314
  let b := II b c d a (x 13) 21 0x4e0811a1
  let a := II a b c d (x 4) 6 0xf7537e82
  let d := II d a b c (x 11) 10 0xbd3af235
  let c := II c d a b (x 2) 15 0x2ad7d2bb
  let b := II b c d a (x 9) 21 0xeb86d391
  ⟨state.a + a, state.b + b, state.c + c, state.d + d⟩

/-- What a message is filled up with. -/
def PADDING : Bytes := 0x80 :: List.replicate 63 0

/-- The digest of the empty message begins with `d4 1d 8c d9`. -/
example : (MD5Transform ⟨0x67452301, 0xefcdab89, 0x98badcfe, 0x10325476⟩ PADDING).a
    = 0xd98c1dd4 := by
  decide +kernel

/-! ## The context -/

/-- The input buffer holds one block, of which the front is in use. -/
structure MD5CTX where
  state : State
  count0 : Nat
  count1 : Nat
  buffer : Bytes
  sized : buffer.length = 64

/-- The count is 0 and the state is set. The buffer stays as it was. -/
def MD5Init (context : MD5CTX) (ulPara1 ulPara2 ulPara3 ulPara4 : UInt32) : MD5CTX :=
  { context with state := ⟨ulPara1, ulPara2, ulPara3, ulPara4⟩, count0 := 0, count1 := 0 }

/-- `MD5MemCpy(&buffer[index], data, length)`. -/
def MD5CTX.copy (context : MD5CTX) (index : Nat) (data : Bytes) : MD5CTX :=
  { context with
    buffer := overwrite context.buffer index data
    sized := by rw [length_overwrite, context.sized] }

/-- Adds the bits of the input, with the carry. -/
def MD5CTX.counted (context : MD5CTX) (inputLen : Nat) : MD5CTX :=
  let bits := inputLen * 8 % 2 ^ 32
  let count0 := (context.count0 + bits) % 2 ^ 32
  let count1 := if count0 < bits then (context.count1 + 1) % 2 ^ 32 else context.count1
  { context with count0, count1 := (count1 + inputLen / 2 ^ 29) % 2 ^ 32 }

/-- `for (i = partLen; i + 63 < inputLen; i += 64)`. -/
def MD5Update.loop (input : Bytes) (state : State) (i : Nat) : State × Nat :=
  if i + 63 < input.length then
    MD5Update.loop input (MD5Transform state (slice input i 64)) (i + 64)
  else (state, i)
termination_by input.length - i

/-- The piece fills the buffer up first. Whole blocks behind are transformed where they are, and
the rest waits in the buffer. -/
def MD5Update (context : MD5CTX) (input : Bytes) : MD5CTX :=
  let index := context.count0 / 8 % 64
  let context := context.counted input.length
  let partLen := 64 - index
  if partLen ≤ input.length then
    let context := context.copy index (input.take partLen)
    let (state, i) := MD5Update.loop input (MD5Transform context.state context.buffer) partLen
    { context with state }.copy 0 (input.drop i)
  else
    context.copy index input

/-- The message is filled up, its length is put behind it, and the state is the digest. -/
def MD5Final (context : MD5CTX) : Bytes :=
  let bits := leBytes 4 context.count0 ++ leBytes 4 context.count1
  let index := context.count0 / 8 % 64
  let padLen := if index < 56 then 56 - index else 120 - index
  let context := MD5Update context (PADDING.take padLen)
  let context := MD5Update context bits
  Encode context.state.words

/-- Two upper-case digits for each byte. -/
def MD5Print (digest : Bytes) : Bytes :=
  let digit (n : Nat) := UInt8.ofNat (if n < 10 then 0x30 + n else 0x41 + (n - 10))
  digest.flatMap fun b => [digit (b.toNat / 16), digit (b.toNat % 16)]

/-- The target and the parameters, which are set if they are not used. -/
def MD5 (context : MD5CTX) (lpszSource : Bytes) (bParamType : Bool) (nParam : State) :
    Bytes × State :=
  let nParam := if bParamType then nParam else ⟨0x67452301, 0xefcdab89, 0x98badcfe, 0x10325476⟩
  let context := MD5Init context nParam.a nParam.b nParam.c nParam.d
  (MD5Print (MD5Final (MD5Update context lpszSource)), nParam)

/-! ## What a context stands for -/

/-- The context after the message: its whole blocks are in the state, the rest is in the buffer. -/
structure Holds (init : State) (context : MD5CTX) (message : Bytes) : Prop where
  state : context.state = absorb 64 MD5Transform init message
  left : context.buffer.take (message.length % 64) = rest 64 message
  low : context.count0 < 2 ^ 32
  count : context.count0 + 2 ^ 32 * context.count1 = 8 * message.length % 2 ^ 64

variable {init : State} {context : MD5CTX} {message : Bytes}

theorem Holds.start (context : MD5CTX) (a b c d : UInt32) :
    Holds ⟨a, b, c, d⟩ (MD5Init context a b c d) [] where
  state := (absorb_short (by decide)).symm
  left := by
    rw [rest_short (show ([] : Bytes).length < 64 by decide)]
    rfl
  low := Nat.two_pow_pos 32
  count := rfl

/-- The number of bytes in the buffer. -/
theorem Holds.index (h : Holds init context message) :
    context.count0 / 8 % 64 = message.length % 64 := by
  have hlow := h.low
  have hcount := h.count
  omega

/-- The two words count modulo 2^64. -/
theorem Holds.counted (h : Holds init context message) (input : Bytes) :
    (context.counted input.length).count0 < 2 ^ 32 ∧
      (context.counted input.length).count0 + 2 ^ 32 * (context.counted input.length).count1
        = 8 * (message ++ input).length % 2 ^ 64 := by
  have hlow := h.low
  have hcount := h.count
  rw [List.length_append]
  unfold MD5CTX.counted
  dsimp only
  refine ⟨Nat.mod_lt _ (by decide), ?_⟩
  split <;> omega

theorem loop_eq (input : Bytes) (state : State) (i : Nat) :
    (MD5Update.loop input state i).1 = absorb 64 MD5Transform state (input.drop i) ∧
      input.drop (MD5Update.loop input state i).2 = rest 64 (input.drop i) := by
  fun_induction MD5Update.loop input state i with
  | case1 state i h ih =>
    have hlen : 64 ≤ (input.drop i).length := by
      rw [List.length_drop]
      omega
    rw [absorb_long (by decide) hlen, rest_long (by decide) hlen, List.drop_drop]
    exact ih
  | case2 state i h =>
    have hlen : (input.drop i).length < 64 := by
      rw [List.length_drop]
      omega
    exact ⟨(absorb_short hlen).symm, (rest_short hlen).symm⟩

/-- What is copied behind the front of the buffer extends it. -/
theorem take_copy {index : Nat} {data front : Bytes} (hfront : context.buffer.take index = front)
    (hindex : index + data.length ≤ 64) :
    (context.copy index data).buffer.take (index + data.length) = front ++ data := by
  have hext := slice_overwrite_append (Nat.zero_le index) (context.sized.symm ▸ hindex)
  simp only [slice, List.drop_zero, Nat.sub_zero] at hext
  rw [← hfront]
  exact hext

/-- The copy makes the buffer full. -/
theorem copy_full {data front : Bytes} (hfront : context.buffer.take front.length = front)
    (hlen : (front ++ data).length = 64) :
    (context.copy front.length data).buffer = front ++ data := by
  rw [List.length_append] at hlen
  have htake := take_copy hfront (Nat.le_of_eq hlen)
  rwa [hlen, List.take_of_length_le (Nat.le_of_eq (MD5CTX.sized _))] at htake

/-- **An update adds its input to the message.** -/
theorem Holds.update (h : Holds init context message) (input : Bytes) :
    Holds init (MD5Update context input) (message ++ input) := by
  obtain ⟨hlow, hcount⟩ := h.counted input
  have hrest := length_rest (n := 64) (by decide) message
  have hlt : message.length % 64 < 64 := Nat.mod_lt _ (by decide)
  have hcut : (context.counted input.length).buffer.take (message.length % 64) = rest 64 message :=
    h.left
  have hstate : (context.counted input.length).state = absorb 64 MD5Transform init message :=
    h.state
  have habsorb := absorb_append (n := 64) (by decide) MD5Transform init message input
  have hleft := rest_append (n := 64) (by decide) message input
  have hlenLeft := length_rest (n := 64) (by decide) (message ++ input)
  unfold MD5Update
  dsimp only
  rw [h.index]
  rw [← hrest] at hcut hlt ⊢
  generalize context.counted input.length = context at hlow hcount hcut hstate
  generalize rest 64 message = front at habsorb hleft hcut hlt
  split
  · next hlong =>
    have hblock : (front ++ input.take (64 - front.length)).length = 64 := by
      rw [List.length_append, List.length_take_of_le hlong]
      omega
    have hjoin : front ++ input
        = (front ++ input.take (64 - front.length)) ++ input.drop (64 - front.length) := by
      rw [List.append_assoc, List.take_append_drop]
    rw [hjoin, absorb_block (by decide) hblock, ← copy_full hcut hblock] at habsorb
    rw [hjoin, rest_block (by decide) hblock] at hleft
    obtain ⟨hloop, hdrop⟩ := loop_eq input (MD5Transform context.state
      (context.copy front.length (input.take (64 - front.length))).buffer) (64 - front.length)
    rw [← hdrop] at hleft
    refine ⟨?_, ?_, hlow, hcount⟩
    · rw [habsorb, ← hstate]
      exact hloop
    · rw [hleft] at hlenLeft
      rw [hleft, ← hlenLeft, ← Nat.zero_add (List.length _)]
      exact take_copy List.take_zero (by omega)
  · next hshort =>
    have hlen : (front ++ input).length < 64 := by
      rw [List.length_append]
      omega
    rw [absorb_short hlen] at habsorb
    rw [rest_short hlen] at hleft
    refine ⟨hstate.trans habsorb.symm, ?_, hlow, hcount⟩
    rw [hleft, List.length_append] at hlenLeft
    rw [hleft, ← hlenLeft]
    exact take_copy hcut (by omega)

/-! ## The digest -/

/-- The message, a bit, zeros and the number of bits, in whole blocks. -/
def padded (message : Bytes) : Bytes :=
  message ++ 0x80 :: List.replicate ((119 - message.length % 64) % 64) 0
    ++ leBytes 8 (8 * message.length)

/-- The padded message, transformed block by block. -/
def digest (init : State) (message : Bytes) : Bytes :=
  Encode (absorb 64 MD5Transform init (padded message)).words

theorem length_padded (message : Bytes) : (padded message).length % 64 = 0 := by
  simp only [padded, List.length_append, List.length_cons, List.length_replicate, length_leBytes]
  omega

/-- `PADDING` has as many zeros as can be needed. -/
theorem take_PADDING (n : Nat) (hn : n < 64) :
    PADDING.take (if n < 56 then 56 - n else 120 - n)
      = 0x80 :: List.replicate ((119 - n) % 64) 0 := by
  have hlen : (if n < 56 then 56 - n else 120 - n) = (119 - n) % 64 + 1 := by
    split <;> omega
  rw [hlen, PADDING, List.take_succ_cons, List.take_replicate, Nat.min_eq_left (by omega)]

/-- The two words of the count in memory. -/
theorem Holds.bits (h : Holds init context message) :
    leBytes 4 context.count0 ++ leBytes 4 context.count1 = leBytes 8 (8 * message.length) := by
  have hlow : (context.count0 + 2 ^ 32 * context.count1) % 256 ^ 4 = context.count0 % 256 ^ 4 := by
    omega
  have hhigh : (context.count0 + 2 ^ 32 * context.count1) / 256 ^ 4 = context.count1 := by
    have := h.low
    omega
  rw [← leBytes_mod 8, show (256 : Nat) ^ 8 = 2 ^ 64 by decide, ← h.count, leBytes_add 4 4, hhigh,
    ← leBytes_mod 4 (_ + _), hlow, leBytes_mod]

theorem Holds.final (h : Holds init context message) :
    MD5Final context = digest init message := by
  have hpad := take_PADDING (message.length % 64) (Nat.mod_lt _ (by decide))
  have hupdated := (h.update (0x80 :: List.replicate ((119 - message.length % 64) % 64) 0)).update
    (leBytes 8 (8 * message.length))
  unfold MD5Final digest
  dsimp only
  rw [h.index, hpad, h.bits, hupdated.state, padded]

/-- The context of `MD5` is on the stack and not initialised. -/
theorem MD5_eq (context : MD5CTX) (lpszSource : Bytes) (bParamType : Bool) (nParam : State) :
    (MD5 context lpszSource bParamType nParam).1
      = MD5Print (digest (MD5 context lpszSource bParamType nParam).2 lpszSource) := by
  have h := fun init : State =>
    (Holds.start context init.a init.b init.c init.d).update lpszSource
  exact congrArg MD5Print (h _).final

/-- **The digest does not depend on the pieces** in which the message comes, nor on what the context
was before. -/
theorem digest_of_pieces (context : MD5CTX) (init : State) (pieces : List Bytes) :
    MD5Final (pieces.foldl MD5Update (MD5Init context init.a init.b init.c init.d))
      = digest init pieces.flatten := by
  have hpieces : ∀ (pieces : List Bytes) {context message}, Holds init context message →
      Holds init (pieces.foldl MD5Update context) (message ++ pieces.flatten) := by
    intro pieces
    induction pieces with
    | nil =>
      intro context message h
      rw [List.flatten_nil, List.append_nil]
      exact h
    | cons piece pieces ih =>
      intro context message h
      rw [List.flatten_cons, ← List.append_assoc]
      exact ih (h.update piece)
  exact (hpieces pieces (.start context init.a init.b init.c init.d)).final

end GhNet.Md5
