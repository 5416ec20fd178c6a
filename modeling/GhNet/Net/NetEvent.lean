import GhNet.Infra.Framing
import GhNet.Infra.Run
import GhNet.Net.SockBuf

/-!
# `NetEvent::onRead`

The server's side of one connection's input: the service makes room in the buffer, the system puts
received bytes there, and `NetEvent::onRead` looks for a message in what is readable and hands it
to the lobby.

`onRead` looks for one message only, and only when more than a header is readable. So it keeps up
with the stream exactly when no more than one message is completed at a time and an empty message
is not the last thing that has arrived.
-/

namespace GhNet.Net

open GhNet

/-- `#define MSGHEADERLEN sizeof(MsgHeader)` -/
def MSGHEADERLEN : Nat := 2

/-- The read side of a connection, and the bodies that were handed to `GHS_Lobby::onRead`. -/
structure Conn where
  read_buf : SockBuf
  handed : List Bytes

/-- A connection that has been registered. The slot's buffer is reset and keeps the block that an
earlier connection has left there. -/
def Conn.registered (read_buf : SockBuf) : Conn := ⟨read_buf.reset, []⟩

/-- Code that works on one connection and may throw. -/
abbrev ConnM := EStateM Exception Conn

namespace Conn

/-- Runs code on `read_buf`. -/
def onBuf {α : Type} (m : SockBufM α) : ConnM α := fun c =>
  match m c.read_buf with
  | .ok a b => .ok a { c with read_buf := b }
  | .error e b => .error e { c with read_buf := b }

/-- `GHS_Lobby::onRead` with a packet on these bytes. -/
def hand (body : Bytes) : ConnM Unit := fun c => .ok () { c with handed := c.handed ++ [body] }

end Conn

open Conn

/-- `ntohs(*(u_short*)begin)` -/
def ntohs : Bytes → Nat
  | hi :: lo :: _ => be16Val hi lo
  | _ => 0

/-- `NetEvent::onRead`: hands on the message at the front, if it is all there. -/
def onRead : ConnM Int := do
  let c ← get
  let begin_ := c.read_buf.m_read_index
  let mem := c.read_buf.m_buf.val
  let len ← onBuf SockBuf.readableBytes
  -- an incomplete message
  if len ≤ MSGHEADERLEN then return 0
  else
    let packetLen := ntohs (slice mem begin_ 2)
    let total_msg_len := u32 (MSGHEADERLEN + packetLen)
    if len < total_msg_len then return 0
    else
      hand (slice mem (begin_ + MSGHEADERLEN) packetLen)
      onBuf (SockBuf.readMove total_msg_len)
      return 0

/-- `postRecvRequest`: makes room and offers all that is writable. -/
def postRecvRequest : ConnM Nat := do
  onBuf (SockBuf.ensureWritableBytes 512)
  onBuf SockBuf.writableBytes

/-- The system has put the bytes at `writeStart()`. -/
def received (chunk : Bytes) : ConnM Unit :=
  onBuf fun b => .ok () (b.setBlock (b.m_buf.write b.m_write_index chunk))

/-- `processRead` for a completion with these bytes. -/
def processRead (chunk : Bytes) : ConnM Int := do
  received chunk
  onBuf (SockBuf.writeMove chunk.length)
  onRead

/-- From one call of `onRead` to the next: a `WSARecv` is posted and completes with some of the
bytes it offered, at least one. No step is made when something throws. -/
def step (c : Conn) (chunk : Bytes) : Option Conn :=
  match postRecvRequest c with
  | .error _ _ => none
  | .ok len c =>
    if 0 < chunk.length ∧ chunk.length ≤ len then
      match processRead chunk c with
      | .error _ _ => none
      | .ok _ c => some c
    else none

/-! ## What one step does -/

theorem onBuf_ok {α : Type} {m : SockBufM α} {c : Conn} {a : α} {b : SockBuf}
    (h : m c.read_buf = .ok a b) : onBuf m c = .ok a { c with read_buf := b } := by
  rw [onBuf, h]

theorem onBuf_error {α : Type} {m : SockBufM α} {c : Conn} {e : Exception} {b : SockBuf}
    (h : m c.read_buf = .error e b) : onBuf m c = .error e { c with read_buf := b } := by
  rw [onBuf, h]

theorem u32_total (s : Bytes) : u32 (MSGHEADERLEN + ntohs s) = MSGHEADERLEN + ntohs s := by
  have hlt : ntohs s < 65536 := by
    unfold ntohs
    split
    · exact be16Val_lt _ _
    · decide
  exact u32_of_lt (by unfold MSGHEADERLEN; omega)

/-- The length that `onRead` reads from the header is the one of the frame format. -/
theorem ntohs_eq_bodyLen {s : Bytes} (h : 2 ≤ s.length) :
    ntohs (s.take 2) = be16Format.bodyLen (s.take be16Format.headerLen) := by
  match s, h with
  | hi :: lo :: rest, _ => rfl

/-- **`onRead` takes at most one frame off the front of the content.** -/
theorem onRead_spec {c : Conn} (h : c.read_buf.Valid) :
    ∃ c', onRead c = .ok 0 c' ∧ c'.read_buf.Valid ∧
      c'.handed = c.handed ++ (be16Format.takeOne c.read_buf.content).1 ∧
      c'.read_buf.content = (be16Format.takeOne c.read_buf.content).2 := by
  have hlen : onBuf SockBuf.readableBytes c = .ok c.read_buf.content.length c :=
    onBuf_ok (SockBuf.readableBytes_eq h)
  -- the bytes the pointers lead to are the content
  have hslice : ∀ off n, off + n ≤ c.read_buf.content.length →
      slice c.read_buf.m_buf.val (c.read_buf.m_read_index + off) n
        = (c.read_buf.content.drop off).take n := by
    intro off n hle
    rw [h.length_content] at hle
    rw [SockBuf.content, ← slice_add]
    simp only [slice, List.take_take]
    rw [Nat.min_eq_left (by omega)]
  rw [onRead, bind_ok get_eq, bind_ok hlen]
  unfold FrameFormat.takeOne
  by_cases hshort : c.read_buf.content.length ≤ MSGHEADERLEN
  · rw [if_pos hshort, if_neg (fun hx => absurd hx.1 (Nat.not_lt.mpr hshort))]
    exact ⟨c, rfl, h, (List.append_nil _).symm, rfl⟩
  · have hlong : 2 < c.read_buf.content.length := Nat.lt_of_not_le hshort
    have hhead : slice c.read_buf.m_buf.val c.read_buf.m_read_index 2
        = c.read_buf.content.take 2 := hslice 0 2 (by omega)
    have htotal : MSGHEADERLEN + ntohs (c.read_buf.content.take 2)
        = be16Format.total c.read_buf.content := by
      rw [ntohs_eq_bodyLen (by omega)]
      rfl
    rw [if_neg hshort, hhead, u32_total, htotal]
    by_cases hpart : c.read_buf.content.length < be16Format.total c.read_buf.content
    · have hnot : ¬be16Format.Complete c.read_buf.content :=
        fun hc => absurd hc.2 (Nat.not_le.mpr hpart)
      rw [if_pos hpart, if_neg (fun hx => hnot hx.2)]
      exact ⟨c, rfl, h, (List.append_nil _).symm, rfl⟩
    · have hcomplete : be16Format.Complete c.read_buf.content :=
        ⟨Nat.le_of_lt hlong, Nat.le_of_not_lt hpart⟩
      have hbody : slice c.read_buf.m_buf.val (c.read_buf.m_read_index + MSGHEADERLEN)
          (ntohs (c.read_buf.content.take 2)) = be16Format.body c.read_buf.content := by
        rw [hslice MSGHEADERLEN _ (by omega), ntohs_eq_bodyLen (by omega)]
        rfl
      obtain ⟨b', hmove, hv, hcont, -, -⟩ := SockBuf.readMove_spec h hcomplete.2
      have hhand : hand (be16Format.body c.read_buf.content) c
          = .ok () { c with handed := c.handed ++ [be16Format.body c.read_buf.content] } := rfl
      have hmove' : onBuf (SockBuf.readMove (be16Format.total c.read_buf.content))
          { c with handed := c.handed ++ [be16Format.body c.read_buf.content] }
          = .ok () ⟨b', c.handed ++ [be16Format.body c.read_buf.content]⟩ := onBuf_ok hmove
      rw [if_neg hpart, hbody, bind_ok hhand, bind_ok hmove', if_pos ⟨hlong, hcomplete⟩]
      exact ⟨_, rfl, hv, rfl, hcont⟩

/-- `onRead` never asks for the connection to be closed. -/
theorem onRead_ret {c c' : Conn} {ret : Int} (h : onRead c = .ok ret c') : ret = 0 := by
  rw [onRead, bind_ok get_eq] at h
  cases hlen : onBuf SockBuf.readableBytes c with
  | error e c₁ => rw [bind_error hlen] at h; cases h
  | ok len c₁ =>
    rw [bind_ok hlen] at h
    split at h
    · exact (EStateM.Result.ok.inj h).1.symm
    · dsimp only at h
      generalize slice c.read_buf.m_buf.val (c.read_buf.m_read_index + MSGHEADERLEN) _ = body at h
      generalize u32 _ = total at h
      split at h
      · exact (EStateM.Result.ok.inj h).1.symm
      · have hhand : hand body c₁ = .ok () { c₁ with handed := c₁.handed ++ [body] } := rfl
        rw [bind_ok hhand] at h
        cases hmove : onBuf (SockBuf.readMove total) { c₁ with handed := c₁.handed ++ [body] } with
        | error e c₂ => rw [bind_error hmove] at h; cases h
        | ok u c₂ =>
          rw [bind_ok hmove] at h
          exact (EStateM.Result.ok.inj h).1.symm

/-- What arrives is put behind what is still there, and `onRead` looks at the whole. -/
theorem step_spec {c c' : Conn} {chunk : Bytes} (h : c.read_buf.Valid)
    (hs : step c chunk = some c') :
    c'.read_buf.Valid ∧
      c'.handed = c.handed ++ (be16Format.takeOne (c.read_buf.content ++ chunk)).1 ∧
      c'.read_buf.content = (be16Format.takeOne (c.read_buf.content ++ chunk)).2 := by
  rw [step, postRecvRequest] at hs
  rcases SockBuf.ensureWritableBytes_cases h (show 512 ≤ 2 ^ 31 by decide) with
    ⟨e, he⟩ | ⟨b, hb, hv, hcont, -⟩
  · rw [bind_error (onBuf_error he)] at hs
    cases hs
  · rw [bind_ok (onBuf_ok hb), onBuf_ok (SockBuf.writableBytes_eq hv)] at hs
    dsimp only at hs
    split at hs
    · next hfits =>
      have h2 := hv.write_le
      have hroom : b.m_write_index + chunk.length ≤ b.m_size := by omega
      have hput : received chunk { c with read_buf := b }
          = .ok () { c with read_buf := b.setBlock (b.m_buf.write b.m_write_index chunk) } :=
        onBuf_ok rfl
      obtain ⟨-, b2, hmove, hv2, hcont2⟩ := SockBuf.writeMove_write hv hroom
      rw [hcont] at hcont2
      obtain ⟨c3, hread, hv3, hh3, hc3⟩ := onRead_spec (c := { c with read_buf := b2 }) hv2
      rw [processRead, bind_ok hput, bind_ok (onBuf_ok hmove), hread] at hs
      obtain rfl := Option.some.inj hs
      rw [hcont2] at hh3 hc3
      exact ⟨hv3, hh3, hc3⟩
    · cases hs

/-! ## Runs -/

/-- **The connection is a reader of one frame at a time.** -/
theorem exec_reader {read_buf : SockBuf} {chunks : List Bytes} {c : Conn}
    (h : exec step (.registered read_buf) chunks = some c) :
    c.read_buf.Valid ∧ c.handed = (be16Format.reader chunks).1 ∧
      c.read_buf.content = (be16Format.reader chunks).2 := by
  induction chunks using List.reverseRecOn generalizing c with
  | nil =>
    obtain rfl := Option.some.inj h
    exact ⟨SockBuf.valid_reset _, rfl, SockBuf.content_reset _⟩
  | append_singleton chunks chunk ih =>
    obtain ⟨u, hu, hs⟩ := exec_concat h
    obtain ⟨hv, hhanded, hcont⟩ := ih hu
    obtain ⟨hv', hhanded', hcont'⟩ := step_spec hv hs
    rw [hhanded, hcont] at hhanded'
    rw [hcont] at hcont'
    rw [FrameFormat.reader_concat]
    exact ⟨hv', hhanded', hcont'⟩

/-- No whole frame is readable, and the frames that have arrived were handed to the lobby. -/
def CaughtUp (received : Bytes) (c : Conn) : Prop :=
  ¬be16Format.Complete c.read_buf.content ∧ c.handed = be16Format.frames received

/-- **When no frame is left behind.** Each time `onRead` has returned, every frame that has arrived
is handed to the lobby, if and only if each completion brought at most one whole frame and did not
end with an empty frame. -/
theorem no_frame_left_iff (read_buf : SockBuf) (chunks : List Bytes) {c : Conn}
    (h : exec step (.registered read_buf) chunks = some c) :
    (∀ xs ys c', chunks = xs ++ ys → exec step (.registered read_buf) xs = some c' →
        CaughtUp xs.flatten c') ↔
      ∀ xs chunk ys, chunks = xs ++ chunk :: ys → be16Format.AtMostOne xs.flatten chunk := by
  rw [← FrameFormat.reader_keeps_up_iff]
  constructor
  · intro hall xs ys hxs
    obtain ⟨c', hc'⟩ := exec_prefix (hxs ▸ h)
    rw [← (exec_reader hc').2.2]
    exact (hall xs ys c' hxs hc').1
  · intro hall xs ys c' hxs hc'
    obtain ⟨-, hhanded, hcont⟩ := exec_reader hc'
    have hnot := hall xs ys hxs
    exact ⟨hcont ▸ hnot, hhanded.trans (FrameFormat.reader_of_not_complete hnot).1⟩

/-- Two frames, one after the other. -/
theorem no_frame_left_two :
    let chunks := [[0, 1, 7], [0, 1, 8]]
    (∀ xs ys c', chunks = xs ++ ys → exec step (.registered .new) xs = some c' →
        CaughtUp xs.flatten c') ↔
      ∀ xs chunk ys, chunks = xs ++ chunk :: ys → be16Format.AtMostOne xs.flatten chunk :=
  no_frame_left_iff .new [[0, 1, 7], [0, 1, 8]]
    (Option.some_get (by decide +kernel : (exec step (.registered .new) _).isSome = true)).symm

theorem twoTogether_runs :
    (exec step (.registered .new) [[0, 1, 7, 0, 1, 8]]).isSome = true := by
  decide +kernel

/-- **Two frames that arrive together: the second stays in the buffer.** -/
theorem frame_left_behind :
    ¬∀ (read_buf : SockBuf) (chunks : List Bytes) (c : Conn),
      exec step (.registered read_buf) chunks = some c → CaughtUp chunks.flatten c := by
  intro h
  have hc := h .new [[0, 1, 7, 0, 1, 8]] _ (Option.some_get twoTogether_runs).symm
  exact hc.1 (by decide +kernel)

end GhNet.Net
