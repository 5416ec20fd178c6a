import GhNet.Client.CmdPacket
import GhNet.Infra.Framing
import GhNet.Infra.Run

/-!
# `TcpCli.RecvData`

The client's side of the connection: `RecvData` hands what a receive has brought to
`Session.addBuff`, which looks for one message in what has been collected, and raises
`ReceivedDatagram`. The event is raised after every receive, with `RecvPacket` as it then is; the
packet is an object of the session that keeps its data and its cursor from one event to the next.

So the events follow the messages exactly when every receive completes one message and no more.
-/

namespace GhNet.Client

open GhNet

/-! ## The session -/

/-- The receiving part of a `Session`. `begun` records the bodies that `RecvPacket.BeginRead` was
given. -/
structure Session where
  RecvBuffer : Bytes
  RecvPacket : CmdPacket
  begun : List Bytes

namespace Session

/-- A session that has received nothing. -/
def new : Session := ⟨[], CmdPacket.new, []⟩

/-- How much a callback can receive. -/
def DefaultBufferSize : Nat := 1024

/-- `addBuff`: what was received is put behind what is left of a message. -/
def addBuff (s : Session) (buff : Bytes) : Session :=
  if buff.length = 0 then s
  else
    let s := { s with RecvBuffer := s.RecvBuffer ++ buff }
    if s.RecvBuffer.length ≤ 2 then s
    else
      let len := hostToNetworkOrder (toUInt16 s.RecvBuffer 0)
      let total := len + 2
      if s.RecvBuffer.length < total then s
      else
        let tbuff := slice s.RecvBuffer 2 len
        { RecvPacket := s.RecvPacket.beginRead tbuff
          RecvBuffer := s.RecvBuffer.drop total
          begun := s.begun ++ [tbuff] }

/-- The packet after `addBuff` has begun the bodies that were taken: at most one. -/
def afterBodies (packet : CmdPacket) : List Bytes → CmdPacket
  | [] => packet
  | body :: _ => packet.beginRead body

/-- **`addBuff` takes at most one frame off the front of what has been collected.** -/
theorem addBuff_eq (s : Session) {buff : Bytes} (h : 0 < buff.length) :
    s.addBuff buff =
      { RecvBuffer := (be16Format.takeOne (s.RecvBuffer ++ buff)).2
        RecvPacket := afterBodies s.RecvPacket (be16Format.takeOne (s.RecvBuffer ++ buff)).1
        begun := s.begun ++ (be16Format.takeOne (s.RecvBuffer ++ buff)).1 } := by
  rw [addBuff, if_neg (by omega)]
  dsimp only
  generalize s.RecvBuffer ++ buff = q
  unfold FrameFormat.takeOne
  by_cases hshort : q.length ≤ 2
  · rw [if_pos hshort, if_neg (fun hx => absurd hx.1 (Nat.not_lt.mpr hshort))]
    simp only [List.append_nil, afterBodies]
  · have hlong : 2 < q.length := Nat.lt_of_not_le hshort
    have hlen : hostToNetworkOrder (toUInt16 q 0) = be16Format.bodyLen (q.take 2) := by
      match q, hlong with
      | hi :: lo :: rest, _ => exact hostToNetworkOrder_toUInt16 hi lo rest
    have htotal : be16Format.bodyLen (q.take 2) + 2 = be16Format.total q := Nat.add_comm _ _
    have hbody : slice q 2 (be16Format.bodyLen (q.take 2)) = be16Format.body q := rfl
    rw [if_neg hshort, hlen, htotal, hbody]
    by_cases hpart : q.length < be16Format.total q
    · rw [if_pos hpart, if_neg (fun hx => absurd hx.2.2 (Nat.not_le.mpr hpart))]
      simp only [List.append_nil, afterBodies]
    · rw [if_neg hpart, if_pos ⟨hlong, Nat.le_of_lt hlong, Nat.le_of_not_lt hpart⟩]
      rfl

end Session

/-! ## The client -/

/-- A connected client with a handler for `ReceivedDatagram`. `events` records the packet as it was
at each event. -/
structure TcpCli where
  session : Session
  events : List CmdPacket

/-- A client that has handed on nothing. -/
def TcpCli.new : TcpCli := ⟨Session.new, []⟩

/-- A receive callback: the bytes that have come, and the packet as the handler of the event leaves
it. The handler may read all, some or nothing of the packet. -/
structure Receive where
  buff : Bytes
  left : CmdPacket

namespace TcpCli

/-- One callback from which the handler returns. A receive of no bytes is the end of the
connection. -/
def recvData (c : TcpCli) (r : Receive) : Option TcpCli :=
  if 0 < r.buff.length ∧ r.buff.length ≤ Session.DefaultBufferSize then
    let session := c.session.addBuff r.buff
    some { session := { session with RecvPacket := r.left }
           events := c.events ++ [session.RecvPacket] }
  else none

/-- The bytes of a list of callbacks. -/
def received (rs : List Receive) : Bytes := (rs.map Receive.buff).flatten

theorem received_concat (rs : List Receive) (r : Receive) :
    received (rs ++ [r]) = received rs ++ r.buff := by
  simp only [received, List.map_append, List.flatten_append, List.map_cons, List.map_nil,
    List.flatten_singleton]

/-- What one callback does. -/
theorem recvData_spec {c c' : TcpCli} {r : Receive} (h : recvData c r = some c') :
    let taken := be16Format.takeOne (c.session.RecvBuffer ++ r.buff)
    c'.session.RecvBuffer = taken.2 ∧ c'.session.begun = c.session.begun ++ taken.1 ∧
      c'.events = c.events ++ [Session.afterBodies c.session.RecvPacket taken.1] := by
  rw [recvData] at h
  split at h
  · next hlen =>
    obtain rfl := Option.some.inj h
    rw [c.session.addBuff_eq hlen.1]
    exact ⟨rfl, rfl, rfl⟩
  · cases h

/-! ## Runs -/

/-- **The session is a reader of one frame at a time**, and every callback raises one event. -/
theorem exec_reader {rs : List Receive} {c : TcpCli}
    (h : exec recvData TcpCli.new rs = some c) :
    c.session.begun = (be16Format.reader (rs.map Receive.buff)).1 ∧
      c.session.RecvBuffer = (be16Format.reader (rs.map Receive.buff)).2 ∧
      c.events.length = rs.length := by
  induction rs using List.reverseRecOn generalizing c with
  | nil =>
    obtain rfl := Option.some.inj h
    exact ⟨rfl, rfl, rfl⟩
  | append_singleton rs r ih =>
    obtain ⟨u, hu, hs⟩ := exec_concat h
    obtain ⟨hbegun, hbuf, hevents⟩ := ih hu
    obtain ⟨hbuf', hbegun', hevents'⟩ := recvData_spec hs
    rw [List.map_append, List.map_cons, List.map_nil, FrameFormat.reader_concat, ← hbuf,
      ← hbegun]
    refine ⟨hbegun', hbuf', ?_⟩
    rw [hevents', List.length_append, List.length_append, hevents]
    rfl

/-- There has been one event for each frame that has come, with a packet that was begun on the
frame's body and of which nothing had been read. -/
def OneEventPerFrame (received : Bytes) (c : TcpCli) : Prop :=
  c.session.begun = be16Format.frames received ∧
    c.events = (be16Format.frames received).map CmdPacket.holding

/-- What arrives behind `p` completes one frame, and does not end with it if it is empty. -/
def CompletesOne (p buff : Bytes) : Prop :=
  (be16Format.frames (p ++ buff)).length = (be16Format.frames p).length + 1 ∧
    ¬(be16Format.frames (p ++ buff) = be16Format.frames p ++ [[]] ∧
      be16Format.rest (p ++ buff) = [])

theorem CompletesOne.atMostOne {p buff : Bytes} (h : CompletesOne p buff) :
    be16Format.AtMostOne p buff := ⟨Nat.le_of_eq h.1, h.2⟩

/-- A callback that completes one frame raises one event for it. -/
theorem oneEventPerFrame_step {p : Bytes} {c c' : TcpCli} {r : Receive}
    (hc : OneEventPerFrame p c) (hbuf : c.session.RecvBuffer = be16Format.rest p)
    (hone : CompletesOne p r.buff) (h : recvData c r = some c') :
    OneEventPerFrame (p ++ r.buff) c' ∧ c'.session.RecvBuffer = be16Format.rest (p ++ r.buff) := by
  obtain ⟨hbuf', hbegun', hevents'⟩ := recvData_spec h
  obtain ⟨hframes, hrest⟩ := FrameFormat.takeOne_frames (F := be16Format)
    (c.session.RecvBuffer ++ r.buff)
  have hnot : ¬be16Format.Complete c'.session.RecvBuffer := by
    rw [hbuf', hbuf]
    exact (FrameFormat.not_complete_takeOne_iff p r.buff).mpr hone.atMostOne
  rw [hbuf] at hbuf' hbegun' hevents' hframes hrest
  -- the reader took everything that was new
  rw [← hbuf', FrameFormat.frames_of_not_complete hnot, List.append_nil] at hframes
  rw [← hbuf', FrameFormat.rest_of_not_complete hnot, ← FrameFormat.rest_append] at hrest
  have hall : be16Format.frames (p ++ r.buff)
      = be16Format.frames p ++ (be16Format.takeOne (be16Format.rest p ++ r.buff)).1 := by
    rw [FrameFormat.frames_append, hframes]
  -- and it was one frame
  have hlen : (be16Format.takeOne (be16Format.rest p ++ r.buff)).1.length = 1 := by
    have h1 := hone.1
    rw [hall, List.length_append] at h1
    omega
  obtain ⟨body, hbody⟩ := List.length_eq_one_iff.mp hlen
  rw [hbody] at hbegun' hevents' hall
  refine ⟨⟨?_, ?_⟩, hrest⟩
  · rw [hbegun', hc.1, hall]
  · rw [hevents', hc.2, hall, List.map_append]
    rfl

/-- **When the events follow the frames.** At the end of every callback there has been one event
for each frame that has come, with a fresh packet that holds its body, if and only if every receive
completed one frame, no more, and did not end with it if it was empty. -/
theorem one_event_per_frame_iff (rs : List Receive) {c : TcpCli}
    (h : exec recvData TcpCli.new rs = some c) :
    (∀ xs ys c', rs = xs ++ ys → exec recvData TcpCli.new xs = some c' →
        OneEventPerFrame (received xs) c') ↔
      ∀ xs r ys, rs = xs ++ r :: ys → CompletesOne (received xs) r.buff := by
  constructor
  · intro hall xs r ys hrs
    have hrs' : rs = (xs ++ [r]) ++ ys := by rw [hrs, List.append_assoc]; rfl
    obtain ⟨c2, hc2⟩ := exec_prefix (hrs' ▸ h)
    obtain ⟨c1, hc1, hs⟩ := exec_concat hc2
    obtain ⟨hbegun1, hevents1⟩ := hall xs (r :: ys) c1 hrs hc1
    obtain ⟨hbegun2, hevents2⟩ := hall (xs ++ [r]) ys c2 hrs' hc2
    rw [received_concat] at hbegun2 hevents2
    -- the callback raised one event
    have hlen1 := congrArg List.length hevents1
    have hlen2 := congrArg List.length hevents2
    rw [(exec_reader hc1).2.2, List.length_map] at hlen1
    rw [(exec_reader hc2).2.2, List.length_map, List.length_append, List.length_singleton] at hlen2
    refine ⟨by omega, ?_⟩
    -- and left no frame behind
    have hkeeps : ∀ {zs : List Receive} {d : TcpCli}, exec recvData TcpCli.new zs = some d →
        d.session.begun = be16Format.frames (received zs) →
        ¬be16Format.Complete d.session.RecvBuffer := by
      intro zs d hd hbegun
      obtain ⟨hb, hbuf, -⟩ := exec_reader hd
      have hframes := (FrameFormat.reader_frames (F := be16Format) (zs.map Receive.buff)).1
      rw [← hb, ← hbuf, hbegun] at hframes
      exact FrameFormat.frames_eq_nil_iff.mp (List.append_right_eq_self.mp hframes)
    have hnot1 := hkeeps hc1 hbegun1
    have hnot2 := hkeeps hc2 (by rw [received_concat]; exact hbegun2)
    have hbuf1 := (exec_reader hc1).2.1
    rw [hbuf1] at hnot1
    rw [(recvData_spec hs).1, hbuf1, (FrameFormat.reader_of_not_complete hnot1).2] at hnot2
    exact ((FrameFormat.not_complete_takeOne_iff _ _).mp hnot2).2
  · intro hone
    have hgo : ∀ xs ys c', rs = xs ++ ys → exec recvData TcpCli.new xs = some c' →
        OneEventPerFrame (received xs) c' ∧
          c'.session.RecvBuffer = be16Format.rest (received xs) := by
      intro xs
      induction xs using List.reverseRecOn with
      | nil =>
        intro ys c' _ hc'
        obtain rfl := Option.some.inj hc'
        exact ⟨⟨rfl, rfl⟩, rfl⟩
      | append_singleton xs r ih =>
        intro ys c' hrs hc'
        obtain ⟨u, hu, hs⟩ := exec_concat hc'
        rw [List.append_assoc] at hrs
        obtain ⟨hu1, hu2⟩ := ih _ u hrs hu
        rw [received_concat]
        exact oneEventPerFrame_step hu1 hu2 (hone xs r ys hrs) hs
    exact fun xs ys c' hrs hc' => (hgo xs ys c' hrs hc').1

/-- Two frames, each in a receive of its own; the handler reads the first and not the second. -/
theorem one_event_per_frame_two :
    let rs := [Receive.mk [0, 2, 0, 3] ⟨some [0, 3], 2⟩, Receive.mk [0, 1, 8] ⟨some [8], 0⟩]
    (∀ xs ys c', rs = xs ++ ys → exec recvData TcpCli.new xs = some c' →
        OneEventPerFrame (received xs) c') ↔
      ∀ xs r ys, rs = xs ++ r :: ys → CompletesOne (received xs) r.buff :=
  one_event_per_frame_iff
    [Receive.mk [0, 2, 0, 3] ⟨some [0, 3], 2⟩, Receive.mk [0, 1, 8] ⟨some [8], 0⟩]
    (Option.some_get (by decide +kernel : (exec recvData TcpCli.new _).isSome = true)).symm

theorem frameAndPart_runs : (exec recvData TcpCli.new
    [⟨[0, 2, 0, 3], ⟨some [0, 3], 2⟩⟩, ⟨[0], ⟨some [0, 3], 2⟩⟩]).isSome = true := by
  decide +kernel

/-- **A frame and then a part of the next one: the packet that was handled is handed out again.** -/
theorem event_for_part_of_frame :
    ¬∀ (rs : List Receive) (c : TcpCli), exec recvData TcpCli.new rs = some c →
      OneEventPerFrame (received rs) c := by
  intro h
  obtain ⟨-, hevents⟩ := h _ _ (Option.some_get frameAndPart_runs).symm
  have hlen := congrArg List.length hevents
  rw [List.length_map] at hlen
  revert hlen
  decide +kernel

end TcpCli

end GhNet.Client
