import Mathlib.Logic.Function.Basic
import GhNet.Network.Stream

/-!
# A connection

Two sessions that have set the same seed, and what happens to them in any order: a user sends a
packet, `DefProc` keeps the session alive, flushes and reads, `GetPacket` is called. A socket gives
the bytes that the other side has sent, in order and as many at a time as it likes.
-/

namespace GhNet.Network

open GhNet TNetState NetPacket

/-- The two ends. -/
inductive Side
  | near
  | far
  deriving DecidableEq, Repr

/-- The end on the other side. -/
def Side.other : Side → Side
  | .near => .far
  | .far => .near

theorem Side.other_ne (i : Side) : i.other ≠ i := by cases i <;> decide

theorem Side.other_other (i : Side) : i.other.other = i := by cases i <;> rfl

theorem Side.eq_or_other (i j : Side) : j = i ∨ j = i.other := by cases i <;> cases j <;> decide

/-- A session, the users' data that `SendPacket` has accepted, and those that `GetPacket` has
returned. -/
structure Endpoint where
  session : TcpSession
  accepted : List Bytes
  delivered : List Bytes

/-- An endpoint for each side. -/
abbrev Connection := Side → Endpoint

/-- What can be called on a session. The last takes a packet from what was received. -/
inductive Call
  | sendPacket (env : Env) (packet : CmdPacket)
  | defProc (env : Env)
  | getPacket (env : Env)

/-- What is called on one side. -/
structure Act where
  side : Side
  call : Call

namespace Connection

/-- One end is another now. -/
def set (c : Connection) (i : Side) (e : Endpoint) : Connection := Function.update c i e

/-- One call. A user's packet has from 1 to `MAX_CMD_PACKET_SIZE` bytes. -/
def step (c : Connection) (a : Act) : Option Connection :=
  let e := c a.side
  match a.call with
  | .sendPacket env packet =>
    if 1 ≤ packet.getDataSize ∧ packet.getDataSize ≤ MAX_CMD_PACKET_SIZE then
      match e.session.sendPacket env packet false false with
      | .error _ => none
      | .ok (r, s) =>
        let accepted := if r then e.accepted ++ [packet.getData] else e.accepted
        some (c.set a.side { e with session := s, accepted := accepted })
    else none
  | .defProc env =>
    match e.session.defProc env with
    | .error _ => none
    | .ok s =>
      if s.received <+: (c a.side.other).session.sent then
        some (c.set a.side { e with session := s })
      else none
  | .getPacket env =>
    match e.session.getPacket env with
    | .error _ => none
    | .ok (r, s) =>
      let packet := s.m_recvCmdPkt.m_ReadData.getD []
      let delivered := if r then e.delivered ++ [packet] else e.delivered
      some (c.set a.side { e with session := s, delivered := delivered })

/-- Both sides have just set the seed. -/
def Init (seed : UInt32) (c : Connection) : Prop :=
  ∀ i, ∃ s : TcpSession, s.key.Valid ∧ s.m_clientSocket = true ∧ s.m_readBuff = [] ∧
    s.m_writeBuf = [] ∧ s.sent = [] ∧ s.received = [] ∧
    c i = ⟨{ s.setSeed seed with m_state := NET_STATE_CONNECTED }, [], []⟩

/-! ## One direction -/

/-- What has gone from one endpoint to the other. -/
structure Link (seed : UInt32) (A B : Endpoint) : Prop where
  received : B.session.received <+: A.session.sent
  stream : ∃ ps₁ ms₁ ps₂ ms₂, List.Forall₂ (Carries seed) ps₁ ms₁ ∧
    List.Forall₂ (Carries seed) ps₂ ms₂ ∧
    A.session.sent ++ A.session.m_writeBuf = wire (ps₁ ++ ps₂) ∧
    B.session.received = wire ps₁ ++ B.session.m_readBuff ∧
    A.accepted = users (ms₁ ++ ms₂) ∧ B.delivered = users ms₁

variable {seed : UInt32} {A A' B B' : Endpoint}

/-- One endpoint puts messages behind. -/
theorem Link.tells (h : Link seed A B) {ps : List NetPacket} {ms : List Message}
    (hc : List.Forall₂ (Carries seed) ps ms) (hsent : A.session.sent <+: A'.session.sent)
    (hout : A'.session.sent ++ A'.session.m_writeBuf
      = A.session.sent ++ A.session.m_writeBuf ++ wire ps)
    (hacc : A'.accepted = A.accepted ++ users ms) : Link seed A' B := by
  obtain ⟨ps₁, ms₁, ps₂, ms₂, hc₁, hc₂, hstream, hbuf, haccepted, hdelivered⟩ := h.stream
  refine ⟨h.received.trans hsent, ps₁, ms₁, ps₂ ++ ps, ms₂ ++ ms, hc₁, List.rel_append hc₂ hc, ?_,
    hbuf, ?_, hdelivered⟩
  · rw [hout, hstream, ← wire_append, List.append_assoc]
  · rw [hacc, haccepted, ← users_append, List.append_assoc]

/-- A session speaks of its own. -/
theorem Link.speaks (h : Link seed A B) (hs : TcpSession.Speaks seed A.session A'.session)
    (hacc : A'.accepted = A.accepted) : Link seed A' B := by
  obtain ⟨ps, ms, hc, hsys, hout⟩ := hs.own
  exact h.tells hc hs.sent hout (by rw [hacc, users_sys hsys, List.append_nil])

/-- The other endpoint reads. -/
theorem Link.reads (h : Link seed A B) {c : Bytes}
    (hreceived : B'.session.received = B.session.received ++ c)
    (hbuff : B'.session.m_readBuff = B.session.m_readBuff ++ c)
    (hdel : B'.delivered = B.delivered) (hpre : B'.session.received <+: A.session.sent) :
    Link seed A B' := by
  obtain ⟨ps₁, ms₁, ps₂, ms₂, hc₁, hc₂, hstream, hbuf, haccepted, hdelivered⟩ := h.stream
  refine ⟨hpre, ps₁, ms₁, ps₂, ms₂, hc₁, hc₂, hstream, ?_, haccepted, hdel.trans hdelivered⟩
  rw [hreceived, hbuff, hbuf, List.append_assoc]

/-- **`GetPacket` returns what comes next**, or false when nothing more has arrived, unless `Send`
throws. -/
theorem Link.takes (h : Link seed A B) (hs : TcpSession.Keyed seed B.session)
    (hsock : B.session.m_clientSocket = true) (env : Env) :
    (B.session.getPacket env = .error .socket ∧ ∃ k, env.send k = .exception) ∨
    ∃ r s', B.session.getPacket env = .ok (r, s') ∧ TcpSession.Speaks seed B.session s' ∧
      s'.received = B.session.received ∧
      Link seed A { B with session := s', delivered :=
        if r then B.delivered ++ [s'.m_recvCmdPkt.m_ReadData.getD []] else B.delivered } ∧
      (r = false → B.session.received = A.session.sent ++ A.session.m_writeBuf →
        B.delivered = A.accepted) := by
  obtain ⟨ps₁, ms₁, ps₂, ms₂, hc₁, hc₂, hstream, hbuf, haccepted, hdelivered⟩ := h.stream
  obtain ⟨t, ht⟩ := h.received
  have hq : B.session.m_readBuff ++ (t ++ A.session.m_writeBuf) = wire ps₂ := by
    rw [wire_append, ← ht, hbuf, List.append_assoc, List.append_assoc] at hstream
    exact List.append_cancel_left hstream
  rcases TcpSession.getPacketLoop_spec env hs hsock hc₂ hq (Nat.lt_succ_self _) with herror |
    ⟨r, s', ps₃, ms₃, ps₄, ms₄, hget, hspeaks, hreceived, rfl, rfl, hc₃, hc₄, hbuff, husers, hend⟩
  · exact .inl herror
  refine .inr ⟨r, s', hget, hspeaks, hreceived, ⟨?_, ps₁ ++ ps₃, ms₁ ++ ms₃, ps₄, ms₄,
    List.rel_append hc₁ hc₃, hc₄, ?_, ?_, ?_, ?_⟩, fun hr hall => ?_⟩
  · show s'.received <+: _
    rw [hreceived]
    exact h.received
  · rw [hstream, List.append_assoc]
  · show s'.received = _
    rw [hreceived, hbuf, hbuff, wire_append, List.append_assoc]
  · rw [haccepted, List.append_assoc]
  · dsimp only
    rw [users_append, husers, ← hdelivered]
    cases r with
    | false => exact (List.append_nil _).symm
    | true => rfl
  · have hnil : t ++ A.session.m_writeBuf = [] := by
      rw [← ht, List.append_assoc] at hall
      exact (List.append_right_eq_self.mp hall.symm)
    have hps₄ := hend hr hnil
    subst hps₄
    obtain rfl := List.forall₂_nil_left_iff.mp hc₄
    rw [hr] at husers
    rw [haccepted, hdelivered, users_append, List.append_nil, husers]
    exact (List.append_nil _).symm

/-! ## Both directions -/

/-- What holds at any time. -/
structure Inv (seed : UInt32) (c : Connection) : Prop where
  keyed : ∀ i, TcpSession.Keyed seed (c i).session
  socket : ∀ i, (c i).session.m_clientSocket = true
  link : ∀ i, Link seed (c i) (c i.other)

variable {c c' : Connection} {i : Side}

theorem set_self (c : Connection) (i : Side) (e : Endpoint) : c.set i e i = e := by
  rw [Connection.set, Function.update_self]

theorem set_other (c : Connection) (i : Side) (e : Endpoint) : c.set i e i.other = c i.other := by
  rw [Connection.set, Function.update_of_ne i.other_ne]

/-- One endpoint changes, and is in step with the other as before. -/
theorem Inv.set (h : Inv seed c) {e : Endpoint} (hkeyed : TcpSession.Keyed seed e.session)
    (hsock : e.session.m_clientSocket = true) (hout : Link seed e (c i.other))
    (hin : Link seed (c i.other) e) : Inv seed (c.set i e) := by
  refine ⟨fun j => ?_, fun j => ?_, fun j => ?_⟩
  · rcases i.eq_or_other j with rfl | rfl
    · rwa [set_self]
    · rw [set_other]
      exact h.keyed _
  · rcases i.eq_or_other j with rfl | rfl
    · rwa [set_self]
    · rw [set_other]
      exact h.socket _
  · rcases i.eq_or_other j with rfl | rfl
    · rwa [set_self, set_other]
    · rwa [Side.other_other, set_self, set_other]

/-- The other direction, seen from this side. -/
theorem Inv.link_in (h : Inv seed c) (i : Side) : Link seed (c i.other) (c i) := by
  have hlink := h.link i.other
  rwa [Side.other_other] at hlink

theorem Inv.init (h : Init seed c) : Inv seed c := by
  have hset : ∀ s : TcpSession, (s.setSeed seed).m_clientSocket = s.m_clientSocket ∧
      (s.setSeed seed).m_readBuff = s.m_readBuff ∧ (s.setSeed seed).m_writeBuf = s.m_writeBuf ∧
      (s.setSeed seed).sent = s.sent ∧ (s.setSeed seed).received = s.received := by
    intro s
    unfold TcpSession.setSeed
    split <;> exact ⟨rfl, rfl, rfl, rfl, rfl⟩
  refine ⟨fun i => ?_, fun i => ?_, fun i => ?_⟩
  · obtain ⟨s, hvalid, -, -, -, -, -, hi⟩ := h i
    have hkeyed := TcpSession.keyed_setSeed hvalid seed
    rw [hi]
    exact ⟨hkeyed.valid, hkeyed.encrypt, hkeyed.key⟩
  · obtain ⟨s, -, hsock, -, -, -, -, hi⟩ := h i
    rw [hi]
    exact (hset s).1.trans hsock
  · obtain ⟨s, -, -, -, hwrite, hsent, -, hi⟩ := h i
    obtain ⟨s', -, -, hread', -, -, hreceived', hj⟩ := h i.other
    obtain ⟨-, -, hw, hs, -⟩ := hset s
    obtain ⟨-, hr', -, -, hv'⟩ := hset s'
    rw [hi, hj]
    refine ⟨?_, [], [], [], [], .nil, .nil, ?_, ?_, rfl, rfl⟩
    · exact (hv'.trans hreceived').symm ▸ List.nil_prefix
    · exact congrArg₂ _ (hs.trans hsent) (hw.trans hwrite)
    · exact (hv'.trans hreceived').trans (hr'.trans hread').symm

theorem Inv.step (h : Inv seed c) {a : Act} (hs : c.step a = some c') : Inv seed c' := by
  obtain ⟨i, call⟩ := a
  cases call with
  | sendPacket env packet =>
    by_cases hsize : 1 ≤ packet.getDataSize ∧ packet.getDataSize ≤ MAX_CMD_PACKET_SIZE
    · by_cases hstate : (c i).session.m_state = NET_STATE_CONNECTED
      · obtain ⟨pkt, hfill, hcarries⟩ := TcpSession.fill_user (h.keyed i) hsize.1 hsize.2
          (TcpSession.nextSeq (c i).session.m_seq)
        have hsend := TcpSession.sendPacket_push env hstate hfill
        have hwork := TcpSession.pushed_works True (c i).session pkt
        simp only [Connection.step, if_pos hsize, hsend, if_true] at hs
        obtain rfl := Option.some.inj hs
        refine h.set (TcpSession.keyed_of_works hwork (h.keyed i))
          (hwork.socket.trans (h.socket i))
          ((h.link i).tells (.cons hcarries .nil) hwork.sent ?_ rfl)
          ((h.link_in i).reads hwork.received hwork.readBuff rfl ?_)
        · rw [wire_cons, wire, List.flatMap_nil, List.append_nil]
          exact hwork.out
        · rw [hwork.received, List.append_nil]
          exact (h.link_in i).received
      · have hsend := TcpSession.sendPacket_refused env packet false false hstate
        simp only [Connection.step, if_pos hsize, hsend, Bool.false_eq_true, if_false] at hs
        obtain rfl := Option.some.inj hs
        exact h.set (h.keyed i) (h.socket i) (h.link i) (h.link_in i)
    · simp only [Connection.step, if_neg hsize] at hs
      cases hs
  | defProc env =>
    rcases TcpSession.defProc_spec env (h.socket i) with ⟨herror, -⟩ |
      ⟨s', d, chunk, hproc, hwork, hown, -⟩
    · simp only [Connection.step, herror] at hs
      cases hs
    simp only [Connection.step, hproc] at hs
    split at hs
    · next hpre =>
      obtain rfl := Option.some.inj hs
      exact h.set (TcpSession.keyed_of_works hwork (h.keyed i)) (hwork.socket.trans (h.socket i))
        ((h.link i).speaks (.of_works hwork hown) rfl)
        ((h.link_in i).reads hwork.received hwork.readBuff rfl hpre)
    · cases hs
  | getPacket env =>
    rcases (h.link_in i).takes (h.keyed i) (h.socket i) env with ⟨herror, -⟩ |
      ⟨r, s', hget, hspeaks, hreceived, hlink, -⟩
    · simp only [Connection.step, herror] at hs
      cases hs
    simp only [Connection.step, hget] at hs
    obtain rfl := Option.some.inj hs
    exact h.set (hspeaks.keyed (h.keyed i)) (hspeaks.socket.trans (h.socket i))
      ((h.link i).speaks hspeaks rfl) hlink

/-- **The users' packets arrive, each once and in order.** What `GetPacket` has returned on one side
are the first of the packets that the other side's users have sent, and it raises no exception but
what `Send` throws. If it returns true, it is the next of them; if it returns false when all that was
sent has arrived, all of them have been returned. -/
theorem stream_delivered (seed : UInt32) {c : Connection}
    (h : Reach (Init seed) step anyStep c) (i : Side) :
    (c i.other).delivered <+: (c i).accepted ∧
      ∀ env, ((c i.other).session.getPacket env = .error .socket ∧ ∃ k, env.send k = .exception) ∨
        ∃ r s, (c i.other).session.getPacket env = .ok (r, s) ∧
        (r = true → (c i.other).delivered ++ [s.m_recvCmdPkt.m_ReadData.getD []]
          <+: (c i).accepted) ∧
        (r = false → (c i.other).session.received
            = (c i).session.sent ++ (c i).session.m_writeBuf →
          (c i.other).delivered = (c i).accepted) := by
  have hinv : Inv seed c := h.invariant (Inv seed) (fun _ => Inv.init) fun _ _ _ hi _ hs => hi.step hs
  have hbefore : ∀ {A B : Endpoint}, Link seed A B → B.delivered <+: A.accepted := by
    intro A B hlink
    obtain ⟨ps₁, ms₁, ps₂, ms₂, -, -, -, -, haccepted, hdelivered⟩ := hlink.stream
    rw [haccepted, hdelivered, users_append]
    exact List.prefix_append _ _
  refine ⟨hbefore (hinv.link i), fun env => ?_⟩
  rcases (hinv.link i).takes (hinv.keyed _) (hinv.socket _) env with herror |
    ⟨r, s, hget, -, -, hlink, hend⟩
  · exact .inl herror
  refine .inr ⟨r, s, hget, fun hr => ?_, hend⟩
  have hnext := hbefore hlink
  rwa [hr, if_pos rfl] at hnext

/-! ### A packet in two parts -/

/-- Two new sessions with the seed 7. -/
def start : Connection := fun _ =>
  ⟨{ ({ TcpSession.new with m_clientSocket := true } : TcpSession).setSeed 7 with
      m_state := NET_STATE_CONNECTED }, [], []⟩

/-- The clock stands at 20000, a `Receive` gives these bytes, and a `Send` takes all. -/
def reading (b : Bytes) : Env :=
  ⟨fun _ => 20000, true, true, false, .bytes b, fun _ => .count 100⟩

/-- A user's packet of three bytes, behind it a packet that keeps the session alive. They arrive cut
through the first header. -/
def twoParts : List Act :=
  [⟨.near, .sendPacket (reading []) ⟨[1, 2, 3], none, 0⟩⟩,
    ⟨.near, .defProc (reading [])⟩,
    ⟨.far, .defProc (reading [83, 0, 1])⟩,
    ⟨.far, .getPacket (reading [])⟩,
    ⟨.far, .defProc (reading [0, 3, 9, 3, 2, 84, 0, 2, 0, 6, 0, 2, 0, 0, 78, 32])⟩,
    ⟨.far, .getPacket (reading [])⟩]

theorem twoParts_runs : (exec step start twoParts).isSome = true := by decide +kernel

theorem start_init : Init 7 start := fun _ =>
  ⟨{ TcpSession.new with m_clientSocket := true }, ⟨rfl, .inl rfl⟩, rfl, rfl, rfl, rfl, rfl, rfl⟩

/-- The packet has been returned. -/
theorem stream_delivered_twoParts :
    (((exec step start twoParts).get twoParts_runs) .far).delivered = [[1, 2, 3]] ∧
      [[1, 2, 3]] <+: (((exec step start twoParts).get twoParts_runs) .near).accepted := by
  have hdelivered : (((exec step start twoParts).get twoParts_runs) .far).delivered
      = [[1, 2, 3]] := by decide +kernel
  refine ⟨hdelivered, ?_⟩
  have h := (stream_delivered 7 (Reach.of_exec (.start start_init) (by decide +kernel)
    (Option.some_get twoParts_runs).symm) .near).1
  rwa [Side.other, hdelivered] at h

end Connection

end GhNet.Network
