import GhNet.Network.TcpSession

/-!
# The sending side of a session

What sending does to a session: it appends to what has been and will be sent, and leaves the
receiving side alone. If the session becomes dead of it, then because `Send` returned a number below
zero. An exception leaves it only if `Send` throws, and which call of `Send` it would be is known:
`Line` counts them.
-/

namespace GhNet.Network

open GhNet TNetState

/-- No `Send` of the round returns a number below zero. -/
def Env.SendsOk (env : Env) : Prop := ∀ k, env.send k ≠ .negative

/-- What a session sends a packet of its own on: how many `Send`s there have been, and whether it is
connected. -/
structure Line where
  sends : Nat
  connected : Bool

namespace Line

/-- The `Send` of the next packet throws. -/
def Throws (env : Env) (l : Line) : Prop := l.connected = true ∧ env.send l.sends = .exception

instance (env : Env) (l : Line) : Decidable (l.Throws env) := inferInstanceAs (Decidable (_ ∧ _))

/-- The line behind a packet of the session's own. -/
def next (env : Env) (l : Line) : Line :=
  if l.connected then ⟨l.sends + 1, decide (env.send l.sends ≠ .negative)⟩ else l

end Line

namespace TcpSession

variable {env : Env} {s s₁ s' : TcpSession} {d d' : Bytes}

/-- The session has put `d` behind what it sends, and `c` behind what it has received. If it has
become dead, `ok` did not hold. -/
structure Works (ok : Prop) (s s' : TcpSession) (d c : Bytes) : Prop where
  out : s'.sent ++ s'.m_writeBuf = s.sent ++ s.m_writeBuf ++ d
  sent : s.sent <+: s'.sent
  received : s'.received = s.received ++ c
  readBuff : s'.m_readBuff = s.m_readBuff ++ c
  socket : s'.m_clientSocket = s.m_clientSocket
  lastRecvTime : c = [] → s'.m_lastRecvTime = s.m_lastRecvTime
  encrypt : s'.m_bEncrypt = s.m_bEncrypt
  seed : s'.m_seed = s.m_seed
  seedLen : s'.m_seedLen = s.m_seedLen
  state : s'.m_state = s.m_state ∨ s'.m_state = NET_STATE_DEAD
  events : ∃ n, s'.events = s.events ++ List.replicate n .dead
  alive : ok → s'.m_state = s.m_state ∧ s'.events = s.events

namespace Works

variable {ok ok' : Prop} {c c' : Bytes}

theorem refl (ok : Prop) (s : TcpSession) : Works ok s s [] [] where
  out := (List.append_nil _).symm
  sent := List.prefix_refl _
  received := (List.append_nil _).symm
  readBuff := (List.append_nil _).symm
  socket := rfl
  lastRecvTime _ := rfl
  encrypt := rfl
  seed := rfl
  seedLen := rfl
  state := .inl rfl
  events := ⟨0, (List.append_nil _).symm⟩
  alive _ := ⟨rfl, rfl⟩

theorem trans (h : Works ok s s₁ d c) (h' : Works ok s₁ s' d' c') :
    Works ok s s' (d ++ d') (c ++ c') where
  out := by rw [h'.out, h.out, List.append_assoc]
  sent := h.sent.trans h'.sent
  received := by rw [h'.received, h.received, List.append_assoc]
  readBuff := by rw [h'.readBuff, h.readBuff, List.append_assoc]
  socket := h'.socket.trans h.socket
  lastRecvTime hc :=
    (h'.lastRecvTime (List.append_eq_nil_iff.mp hc).2).trans
      (h.lastRecvTime (List.append_eq_nil_iff.mp hc).1)
  encrypt := h'.encrypt.trans h.encrypt
  seed := h'.seed.trans h.seed
  seedLen := h'.seedLen.trans h.seedLen
  state := by
    rcases h'.state with hs | hs
    · rw [hs]
      exact h.state
    · exact .inr hs
  events := by
    obtain ⟨n, hn⟩ := h.events
    obtain ⟨m, hm⟩ := h'.events
    exact ⟨n + m, by rw [hm, hn, List.append_assoc, List.replicate_append_replicate]⟩
  alive hok :=
    ⟨(h'.alive hok).1.trans (h.alive hok).1, (h'.alive hok).2.trans (h.alive hok).2⟩

theorem mono (hok : ok' → ok) (h : Works ok s s' d c) : Works ok' s s' d c :=
  { h with alive := fun hx => h.alive (hok hx) }

/-- The session becomes dead. -/
theorem die (ok : Prop) (s : TcpSession) (h : ¬ok) : Works ok s s.die [] [] :=
  { Works.refl ok s with
    state := .inr rfl
    events := ⟨1, rfl⟩
    alive := fun hok => absurd hok h }

end Works

/-! ## Flushing -/

/-- How often `Send` was called, and whether the session sends packets. -/
def line (s : TcpSession) : Line := ⟨s.sends, decide (s.m_state = NET_STATE_CONNECTED)⟩

/-- `FlushData` with something to send. -/
theorem flushData_send (env : Env) (h : s.m_clientSocket = true)
    (hdead : s.m_state ≠ NET_STATE_DEAD) (hbuf : s.m_writeBuf.length ≠ 0) :
    (env.send s.sends = .exception ∧ s.flushData env = .error .socket) ∨
    (env.send s.sends ≠ .exception ∧ ∃ s', s.flushData env = .ok s' ∧
      Works env.SendsOk s s' [] [] ∧ s'.sends = s.sends + 1 ∧
      s'.m_state = if env.send s.sends = .negative then NET_STATE_DEAD else s.m_state) := by
  have hsocket : ¬(!s.m_clientSocket) = true := by rw [h]; exact Bool.false_ne_true
  rw [flushData, if_neg hdead, if_neg hbuf, if_neg hsocket]
  dsimp only
  cases hret : env.send s.sends with
  | exception => exact .inl ⟨rfl, rfl⟩
  | negative =>
    exact .inr ⟨nofun, _, rfl, { Works.die env.SendsOk s fun hok => hok _ hret with }, rfl, rfl⟩
  | count n =>
    refine .inr ⟨nofun, ?_⟩
    dsimp only
    split
    · exact ⟨_, rfl, { Works.refl env.SendsOk s with }, rfl, rfl⟩
    · refine ⟨_, rfl, { Works.refl env.SendsOk s with
        out := ?_
        sent := List.prefix_append _ _ }, rfl, rfl⟩
      simp [Sys_GetTime]

theorem flushData_spec (env : Env) (h : s.m_clientSocket = true) :
    (s.flushData env = .error .socket ∧ ∃ k, env.send k = .exception) ∨
    ∃ s', s.flushData env = .ok s' ∧ Works env.SendsOk s s' [] [] := by
  by_cases hdead : s.m_state = NET_STATE_DEAD
  · exact .inr ⟨s, if_pos hdead, .refl _ s⟩
  · by_cases hbuf : s.m_writeBuf.length = 0
    · exact .inr ⟨s, by rw [flushData, if_neg hdead, if_pos hbuf], .refl _ s⟩
    · rcases flushData_send env h hdead hbuf with ⟨hret, herror⟩ | ⟨-, s', hs', hwork, -, -⟩
      · exact .inl ⟨herror, _, hret⟩
      · exact .inr ⟨s', hs', hwork⟩

/-! ## Packets of the session's own -/

/-- A system packet with this data. -/
def sysPacket (seq : UInt16) (data : Bytes) : NetPacket where
  m_pktFlag := 0x54
  m_pktDataSize := UInt16.ofNat data.length
  m_pktSeq := seq
  m_buffer := data

/-- A packet of the user's with this data. -/
def userPacket (flag : UInt8) (size : Nat) (seq : UInt16) (data : Bytes) : NetPacket where
  m_pktFlag := flag
  m_pktDataSize := UInt16.ofNat size
  m_pktSeq := seq
  m_buffer := data

/-- The flags that a packet can get. -/
theorem flags_of_fill : NetPacket.PROTOCOL_FLAG <<< 4 = 0x50 ∧
    0x50 ||| NetPacket.FLAG_SYSTEM = 0x54 ∧ 0x50 ||| NetPacket.FLAG_ENCRYPT = 0x51 ∧
    0x50 ||| NetPacket.FLAG_COMPRESS = 0x52 ∧ 0x51 ||| NetPacket.FLAG_COMPRESS = 0x53 := by decide

section Fill

variable {packet : CmdPacket} (h : packet.getDataSize < 65536) (s : TcpSession) (seq : UInt16)
include h

theorem addCmdPacket_eq (p : NetPacket) : p.addCmdPacket packet
    = .ok { userPacket 0x50 packet.getDataSize p.m_pktSeq packet.getData with } := by
  rw [NetPacket.addCmdPacket, if_pos h, flags_of_fill.1]
  rfl

theorem fill_sys : s.fill packet seq true = .ok (sysPacket seq packet.m_WriteData) := by
  simp only [fill, addCmdPacket_eq h, bind, Except.bind, pure, Except.pure, if_true,
    NetPacket.setSeq, NetPacket.setSysPacket, NetPacket.setFlag, userPacket, flags_of_fill]
  rfl

theorem fill_plain (henc : s.m_bEncrypt = false) : s.fill packet seq false
    = .ok (userPacket (if s.m_bCompress then 0x52 else 0x50) packet.getDataSize seq
        packet.getData) := by
  cases hc : s.m_bCompress <;>
    simp only [fill, addCmdPacket_eq h, henc, hc, bind, Except.bind, pure, Except.pure,
      Bool.false_eq_true, if_false, if_true, NetPacket.setSeq, NetPacket.compress,
      NetPacket.setFlag, userPacket, flags_of_fill]

theorem fill_encrypted {buffer : Bytes} (henc : s.m_bEncrypt = true)
    (hcrypt : NetPacket.crypt s.m_seed s.m_seedLen packet.getDataSize 0 packet.getData
      = .ok buffer) : s.fill packet seq false
    = .ok (userPacket (if s.m_bCompress then 0x53 else 0x51) packet.getDataSize seq buffer) := by
  have hnum : (UInt16.ofNat packet.getDataSize).toNat = packet.getDataSize :=
    UInt16.toNat_ofNat_of_lt h
  cases hc : s.m_bCompress <;>
    simp only [fill, addCmdPacket_eq h, henc, hc, bind, Except.bind, pure, Except.pure,
      Bool.false_eq_true, if_false, if_true, NetPacket.setSeq, NetPacket.compress,
      NetPacket.setFlag, NetPacket.encrypt, userPacket, hnum, hcrypt, Except.map, flags_of_fill]

end Fill

/-- The session with a packet behind what it sends. -/
def pushed (s : TcpSession) (pkt : NetPacket) : TcpSession :=
  { s with m_seq := nextSeq s.m_seq, m_sendNetPkt := pkt }.pushData pkt.getBuffer

theorem pushed_works (ok : Prop) (s : TcpSession) (pkt : NetPacket) :
    Works ok s (s.pushed pkt) pkt.getBuffer [] :=
  { Works.refl ok s with out := (List.append_assoc ..).symm }

section SendPacket

variable {packet : CmdPacket} {pkt : NetPacket} {sys : Bool} (env : Env)
  (hstate : s.m_state = NET_STATE_CONNECTED)
  (hfill : s.fill packet (nextSeq s.m_seq) sys = .ok pkt)
include hstate hfill

/-- `SendPacket`, of a packet that can be put on the wire later. -/
theorem sendPacket_push :
    s.sendPacket env packet false sys = .ok (true, s.pushed pkt) := by
  rw [sendPacket, if_neg (not_not_intro hstate), hfill]
  rfl

/-- `SendPacket`, of a packet that is put on the wire at once. -/
theorem sendPacket_flush (h : s.m_clientSocket = true) :
    (s.line.Throws env ∧ s.sendPacket env packet true sys = .error .socket) ∨
    (¬s.line.Throws env ∧ ∃ s', s.sendPacket env packet true sys = .ok (true, s') ∧
      Works env.SendsOk s s' pkt.getBuffer [] ∧ s'.line = s.line.next env) := by
  have hconnected : s.line.connected = true := decide_eq_true hstate
  have hsend : s.sendPacket env packet true sys
      = ((s.pushed pkt).flushData env).bind fun s => .ok (true, s) := by
    rw [sendPacket, if_neg (not_not_intro hstate), hfill]
    rfl
  have hbuf : (s.pushed pkt).m_writeBuf.length ≠ 0 := by
    show (s.m_writeBuf ++ pkt.getBuffer).length ≠ 0
    rw [List.length_append]
    exact Nat.ne_of_gt (Nat.lt_of_lt_of_le (Nat.succ_pos _) (Nat.le_add_left _ _))
  have hlive : (s.pushed pkt).m_state ≠ NET_STATE_DEAD := fun hd => by
    rw [show (s.pushed pkt).m_state = s.m_state from rfl, hstate] at hd
    cases hd
  rw [hsend]
  rcases flushData_send env (s := s.pushed pkt) h hlive hbuf with
    ⟨hret, herror⟩ | ⟨hret, s', hs', hwork, hsends, hstate'⟩
  · exact .inl ⟨⟨hconnected, hret⟩, by rw [herror]; rfl⟩
  · refine .inr ⟨fun ht => hret ht.2, s', by rw [hs']; rfl,
      List.append_nil pkt.getBuffer ▸ (pushed_works _ s pkt).trans hwork, ?_⟩
    rw [line, Line.next, if_pos hconnected, hsends, hstate']
    have hsame : (s.pushed pkt).m_state = NET_STATE_CONNECTED := hstate
    congr 1
    rw [hsame]
    show decide _ = decide (env.send s.sends ≠ .negative)
    by_cases hneg : env.send s.sends = .negative
    · rw [if_pos (show env.send (s.pushed pkt).sends = .negative from hneg), hneg]
      rfl
    · rw [if_neg (show env.send (s.pushed pkt).sends ≠ .negative from hneg)]
      exact (decide_eq_true hneg).symm

end SendPacket

theorem sendPacket_refused (env : Env) (packet : CmdPacket) (flush sys : Bool)
    (h : s.m_state ≠ NET_STATE_CONNECTED) :
    s.sendPacket env packet flush sys = .ok (false, s) := by
  rw [sendPacket, if_pos h]
  rfl

/-- The data of the packets that a session sends of its own. -/
def sysData (type : Int16) (param : UInt32) : Bytes :=
  CmdPacket.networkBytes 2 type.toUInt16.toNat ++ CmdPacket.networkBytes 4 param.toNat

theorem length_sysData (type : Int16) (param : UInt32) : (sysData type param).length = 6 := by
  simp [sysData, CmdPacket.networkBytes]

/-- What a session puts on the wire of its own: nothing, or a packet that says it is alive. -/
def OwnPacket (d : Bytes) : Prop :=
  d = [] ∨ ∃ seq type param,
    (type = NetPacket.SYS_PACKET_KEEP_ALIVE ∨ type = NetPacket.SYS_PACKET_ALIVE_ACK) ∧
      d = (sysPacket seq (sysData type param)).getBuffer

/-- If the session sends, no `Send` of the round fails. -/
def SendsIfConnected (env : Env) (s : TcpSession) : Prop :=
  s.m_state = NET_STATE_CONNECTED → env.SendsOk

/-- A packet of the session's own is sent if the session is connected. -/
theorem sendOwn_spec (env : Env) (packet : CmdPacket) {type : Int16} (param : UInt32)
    (h : s.m_clientSocket = true) (hdata : packet.m_WriteData = sysData type param)
    (htype : type = NetPacket.SYS_PACKET_KEEP_ALIVE ∨ type = NetPacket.SYS_PACKET_ALIVE_ACK) :
    (s.line.Throws env ∧
      { s with m_sendCmdPkt := packet }.sendPacket env packet true true = .error .socket) ∨
    (¬s.line.Throws env ∧ ∃ r s' d,
      { s with m_sendCmdPkt := packet }.sendPacket env packet true true = .ok (r, s') ∧
      Works (SendsIfConnected env s) s s' d [] ∧ OwnPacket d ∧ s'.line = s.line.next env) := by
  have hset : ∀ ok, Works ok s { s with m_sendCmdPkt := packet } [] [] := fun ok =>
    { Works.refl ok s with }
  by_cases hstate : s.m_state = NET_STATE_CONNECTED
  · have hsize : packet.m_WriteData.length < 65536 := by
      rw [hdata, length_sysData]
      decide
    rcases sendPacket_flush (s := { s with m_sendCmdPkt := packet }) env hstate
      (fill_sys hsize { s with m_sendCmdPkt := packet } (nextSeq s.m_seq)) h with
      hthrows | ⟨hthrows, s', hs', hsend, hline⟩
    · exact .inl hthrows
    · refine .inr ⟨hthrows, true, s', _, hs', ((hset _).trans hsend).mono fun hok => hok hstate,
        .inr ⟨nextSeq s.m_seq, type, param, htype, ?_⟩, hline⟩
      rw [hdata, List.nil_append]
  · have hline : s.line.connected = false := decide_eq_false hstate
    refine .inr ⟨fun ht => ?_, false, _, [], sendPacket_refused env packet true true hstate,
      hset _, .inl rfl, ?_⟩
    · rw [Line.Throws, hline] at ht
      exact Bool.false_ne_true ht.1
    · rw [Line.next, hline]
      rfl

theorem keepAlive_spec (env : Env) (h : s.m_clientSocket = true) (now : UInt32) :
    (s.line.Throws env ∧ s.keepAlive env now = .error .socket) ∨
    ∃ s' d, s.keepAlive env now = .ok s' ∧ Works (SendsIfConnected env s) s s' d [] ∧
      OwnPacket d := by
  rcases sendOwn_spec env
    ((s.m_sendCmdPkt.beginWrite.writeShort NetPacket.SYS_PACKET_KEEP_ALIVE).writeUInt now) now
    h rfl (.inl rfl) with ⟨hthrows, herror⟩ | ⟨-, r, s', d, hs', hsend, hown, -⟩
  · refine .inl ⟨hthrows, ?_⟩
    simp only [keepAlive, herror, bind, Except.bind]
  · refine .inr ⟨s', d, ?_, hsend, hown⟩
    simp only [keepAlive, hs', bind, Except.bind, pure, Except.pure]

theorem sendAck_spec (env : Env) (h : s.m_clientSocket = true) (param : UInt32) :
    (s.line.Throws env ∧ s.sendAck env param = .error .socket) ∨
    (¬s.line.Throws env ∧ ∃ s' d, s.sendAck env param = .ok s' ∧
      Works (SendsIfConnected env s) s s' d [] ∧ OwnPacket d ∧ s'.line = s.line.next env) := by
  rcases sendOwn_spec env
    ((s.m_sendCmdPkt.beginWrite.writeShort NetPacket.SYS_PACKET_ALIVE_ACK).writeInt
      param.toInt32) param h rfl (.inr rfl) with
    ⟨hthrows, herror⟩ | ⟨hthrows, r, s', d, hs', hsend, hown, hline⟩
  · refine .inl ⟨hthrows, ?_⟩
    simp only [sendAck, herror, bind, Except.bind]
  · refine .inr ⟨hthrows, s', d, ?_, hsend, hown, hline⟩
    simp only [sendAck, hs', bind, Except.bind, pure, Except.pure]

end TcpSession

end GhNet.Network
