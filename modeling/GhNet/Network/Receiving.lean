import GhNet.Network.Sending

/-!
# The receiving side of a session

What `RecvPacket` and `HandleSysPacket` do, for every buffer and every packet: which packet is
taken, what its data are without the key, and that only `SYS_PACKET_SET_SEED` changes the state of a
session and its key. `SYS_PACKET_KEEP_ALIVE` is answered, and the answer may throw.
-/

namespace GhNet.Network

open GhNet TNetState NetPacket

/-- The key of a session: the array, and how much of it is used. No key has been set if that is
nothing. -/
structure Key where
  seed : Bytes
  len : Nat

namespace Key

/-- The array has its length, and a key uses all of it. -/
def Valid (k : Key) : Prop :=
  k.seed.length = MAX_NET_SEED_SIZE ∧ (k.len = 0 ∨ k.len = MAX_NET_SEED_SIZE)

/-- The data of a packet without the key. -/
def plain (k : Key) (p : NetPacket) : Bytes :=
  if p.isEncrypt then xored k.seed k.len 0 p.m_buffer else p.m_buffer

/-- The packet is encrypted, there is no key, and the array is too short for it. -/
def Locks (k : Key) (p : NetPacket) : Prop :=
  p.isEncrypt = true ∧ k.len = 0 ∧ MAX_NET_SEED_SIZE < p.m_buffer.length

instance (k : Key) (p : NetPacket) : Decidable (k.Locks p) := inferInstanceAs (Decidable (_ ∧ _))

end Key

/-- The key that a seed makes. -/
def keyOf (seed : UInt32) : Key := ⟨TcpSession.seedBytes MAX_NET_SEED_SIZE seed, MAX_NET_SEED_SIZE⟩

theorem valid_keyOf (seed : UInt32) : (keyOf seed).Valid := ⟨rfl, .inr rfl⟩

namespace NetPacket

/-- The packet has as many bytes as it says. -/
def Sized (p : NetPacket) : Prop := p.m_buffer.length = p.m_pktDataSize.toNat

theorem sized_front {q : Bytes} (h : Whole q) : (front q).Sized := by
  have htotal : (ushortAt q 3).toNat + 5 ≤ q.length := h.2.2
  exact length_slice (by rw [Nat.add_comm]; exact htotal)

theorem crypt_key_ok {k : Key} {p : NetPacket} (hk : k.Valid) (hp : p.Sized) (he : p.isEncrypt)
    (h : ¬k.Locks p) :
    crypt k.seed k.len p.m_pktDataSize.toNat 0 p.m_buffer = .ok (k.plain p) := by
  rw [Key.plain, if_pos he, ← hp]
  rcases hk.2 with hlen | hlen
  · have hfits : p.m_buffer.length ≤ k.seed.length := by
      rw [hk.1]
      exact Nat.le_of_not_lt fun hlt => h ⟨he, hlen, hlt⟩
    rw [hlen]
    exact crypt_no_key p.m_buffer (by omega)
  · exact crypt_key (by rw [hlen]; decide) (Nat.le_of_eq (hlen.trans hk.1.symm)) p.m_buffer
      (Nat.zero_le _)

/-- Neither flag that is cleared is the one that a system packet has. -/
theorem isSysPacket_clearFlag {flag : UInt8} (h : ~~~flag &&& FLAG_SYSTEM = FLAG_SYSTEM)
    (p : NetPacket) : (p.clearFlag flag).isSysPacket = p.isSysPacket := by
  rw [isSysPacket, isSysPacket, clearFlag, UInt8.and_assoc, h]

end NetPacket

namespace TcpSession

variable {env : Env} {s s' : TcpSession}

/-- The key, as it is set now. -/
def key (s : TcpSession) : Key := ⟨s.m_seed, s.m_seedLen⟩

/-! ## One packet -/

theorem unpack_ok {p : NetPacket} (hk : s.key.Valid) (hp : p.Sized) (h : ¬s.key.Locks p) :
    ∃ pkt, s.unpack p = .ok pkt ∧ pkt.m_buffer = s.key.plain p ∧
      pkt.isSysPacket = p.isSysPacket := by
  have huncompress : ∀ pkt : NetPacket,
      (if pkt.isCompress then pkt.uncompress else pkt).m_buffer = pkt.m_buffer ∧
        (if pkt.isCompress then pkt.uncompress else pkt).isSysPacket = pkt.isSysPacket := by
    intro pkt
    split
    · exact ⟨rfl, isSysPacket_clearFlag (by decide) pkt⟩
    · exact ⟨rfl, rfl⟩
  by_cases he : p.isEncrypt
  · have hdecrypt : p.decrypt s.m_seed s.m_seedLen
        = .ok ({ p with m_buffer := s.key.plain p }.clearFlag FLAG_ENCRYPT) := by
      have hcrypt : crypt s.m_seed s.m_seedLen p.m_pktDataSize.toNat 0 p.m_buffer
          = .ok (s.key.plain p) := crypt_key_ok hk hp he h
      rw [decrypt, hcrypt]
      rfl
    obtain ⟨hbuf, hsys⟩ := huncompress ({ p with m_buffer := s.key.plain p }.clearFlag FLAG_ENCRYPT)
    refine ⟨_, ?_, hbuf, hsys.trans (isSysPacket_clearFlag (by decide) _)⟩
    simp only [unpack, he, if_true, hdecrypt, bind, Except.bind, pure, Except.pure]
  · obtain ⟨hbuf, hsys⟩ := huncompress p
    refine ⟨_, ?_, hbuf.trans (if_neg he).symm, hsys⟩
    simp only [unpack, he, Bool.false_eq_true, if_false, bind, Except.bind, pure, Except.pure]

theorem unpack_locked {p : NetPacket} (hk : s.key.Valid) (hp : p.Sized) (h : s.key.Locks p) :
    s.unpack p = .error .indexOutOfRange := by
  obtain ⟨he, hlen, hlong⟩ := h
  have hseed : s.m_seed.length = MAX_NET_SEED_SIZE := hk.1
  have hcrypt : crypt s.m_seed 0 p.m_buffer.length 0 p.m_buffer = .error .indexOutOfRange :=
    crypt_no_key_error p.m_buffer (by rw [hseed]; omega) (Nat.zero_le _)
  have hdecrypt : p.decrypt s.m_seed s.m_seedLen = .error .indexOutOfRange := by
    have hzero : s.m_seedLen = 0 := hlen
    rw [decrypt, hzero, ← hp, hcrypt]
    rfl
  simp only [unpack, he, if_true, hdecrypt, bind, Except.bind]

theorem recvPacket_whole {pkt : NetPacket} (h : Whole s.m_readBuff)
    (hu : s.unpack (front s.m_readBuff) = .ok pkt) :
    s.recvPacket = .ok (true, { s with m_readBuff := s.m_readBuff.drop (total s.m_readBuff)
                                       m_recvNetPkt := pkt }.log (.packet (front s.m_readBuff))) := by
  have hpos : (total s.m_readBuff : Int) > 0 := Int.natCast_pos.mpr (Nat.succ_pos _)
  rw [recvPacket, beginRead_whole _ h]
  dsimp only
  rw [if_pos hpos, Int.toNat_natCast]
  show (s.unpack (front s.m_readBuff)).bind _ = _
  rw [hu]
  rfl

theorem recvPacket_locked (hk : s.key.Valid) (h : Whole s.m_readBuff)
    (hl : s.key.Locks (front s.m_readBuff)) : s.recvPacket = .error .indexOutOfRange := by
  have hpos : (total s.m_readBuff : Int) > 0 := Int.natCast_pos.mpr (Nat.succ_pos _)
  rw [recvPacket, beginRead_whole _ h]
  dsimp only
  rw [if_pos hpos]
  show (s.unpack (front s.m_readBuff)).bind _ = _
  rw [unpack_locked hk (sized_front h) hl]
  rfl

theorem recvPacket_bad (h : Bad s.m_readBuff) :
    ∃ packet, s.recvPacket = .ok (false, { s with m_recvNetPkt := packet }.die) := by
  refine ⟨(s.m_recvNetPkt.beginRead s.m_readBuff).2, ?_⟩
  have hret := beginRead_bad s.m_recvNetPkt h
  rw [recvPacket]
  dsimp only
  rw [hret, if_neg (by decide), if_neg (by decide)]
  rfl

theorem recvPacket_part (hb : ¬Bad s.m_readBuff) (h : ¬Whole s.m_readBuff) :
    ∃ packet, s.recvPacket = .ok (false, { s with m_recvNetPkt := packet }) := by
  refine ⟨(s.m_recvNetPkt.beginRead s.m_readBuff).2, ?_⟩
  have hret := beginRead_part s.m_recvNetPkt hb h
  rw [recvPacket]
  dsimp only
  rw [hret, if_neg (by decide), if_pos rfl]
  rfl

/-! ## System packets -/

/-- The seed that a system packet with these data sets. -/
def seedOf (data : Bytes) : Option UInt32 :=
  if 6 ≤ data.length ∧
      Int16.ofNat (Client.CmdPacket.networkNumber (slice data 0 2)) = SYS_PACKET_SET_SEED then
    some (UInt32.ofNat (Client.CmdPacket.networkNumber (slice data 2 4)))
  else none

/-- The data of a system packet that is to be answered. -/
def Asks (data : Bytes) : Prop :=
  6 ≤ data.length ∧
    Int16.ofNat (Client.CmdPacket.networkNumber (slice data 0 2)) = SYS_PACKET_KEEP_ALIVE

instance (data : Bytes) : Decidable (Asks data) := inferInstanceAs (Decidable (_ ∧ _))

theorem seedOf_of_asks {data : Bytes} (h : Asks data) : seedOf data = none :=
  if_neg fun hx => absurd (h.2.symm.trans hx.2) (by decide)

theorem withParam_spec {data : Bytes} (h : s.m_recvCmdPkt.Reading data 2) (type : Int16)
    (f : TcpSession → UInt32 → Except Exception TcpSession) :
    (data.length < 6 ∧ s.withParam type f = .ok (0, s)) ∨
    (6 ≤ data.length ∧ ∃ packet, s.withParam type f
      = (f { s with m_recvCmdPkt := packet }
          (UInt32.ofNat (Client.CmdPacket.networkNumber (slice data 2 4)))).map (type, ·)) := by
  by_cases hlen : 6 ≤ data.length
  · obtain ⟨packet, hread, -⟩ := CmdPacket.readAs_enough
      (fun b => UInt32.ofNat (Client.CmdPacket.networkNumber b)) h (n := 4) (by omega)
    refine .inr ⟨hlen, packet, ?_⟩
    rw [withParam, CmdPacket.readUInt, hread]
    rfl
  · refine .inl ⟨Nat.lt_of_not_le hlen, ?_⟩
    rw [withParam, CmdPacket.readUInt, CmdPacket.readAs_short h (by omega)]
    rfl

/-- `HandleSysPacket` behind the type of the packet. -/
theorem handleSysPacket_type (env : Env) {data : Bytes} {type : Int16}
    (h : s.m_recvCmdPkt.Reading data 0) (hlen : 2 ≤ data.length)
    (htype : Int16.ofNat (Client.CmdPacket.networkNumber (slice data 0 2)) = type) :
    ∃ packet, packet.Reading data 2 ∧ s.handleSysPacket env =
      if type = SYS_PACKET_KEEP_ALIVE then
        { s with m_recvCmdPkt := packet }.withParam type (sendAck env)
      else if type = SYS_PACKET_ALIVE_ACK then
        { s with m_recvCmdPkt := packet }.withParam type fun s param => .ok (s.takeAck env param)
      else if type = SYS_PACKET_SET_SEED then
        { s with m_recvCmdPkt := packet }.withParam type fun s param => .ok (s.takeSeed param)
      else .ok (0, { s with m_recvCmdPkt := packet }) := by
  obtain ⟨packet, hread, hp⟩ := CmdPacket.readAs_enough
    (fun b => Int16.ofNat (Client.CmdPacket.networkNumber b)) h (n := 2) (by omega)
  rw [htype] at hread
  refine ⟨packet, hp, ?_⟩
  rw [handleSysPacket, CmdPacket.readShort, hread]
  rfl

/-- **What a system packet does.** It sets a seed, or it is answered at most. The answer throws what
`Send` throws. -/
theorem handleSysPacket_spec (env : Env) {data : Bytes} (hs : s.m_clientSocket = true)
    (h : s.m_recvCmdPkt.Reading data 0) :
    (∃ packet param, seedOf data = some param ∧ s.handleSysPacket env
      = .ok (SYS_PACKET_SET_SEED, { s with m_recvCmdPkt := packet }.takeSeed param)) ∨
    (Asks data ∧ s.line.Throws env ∧ s.handleSysPacket env = .error .socket) ∨
    (seedOf data = none ∧ ¬(Asks data ∧ s.line.Throws env) ∧ ∃ type s' d,
      s.handleSysPacket env = .ok (type, s') ∧ Works (SendsIfConnected env s) s s' d [] ∧
      OwnPacket d ∧ s'.line = if Asks data then s.line.next env else s.line) := by
  have hattach : ∀ packet,
      Works (SendsIfConnected env s) s { s with m_recvCmdPkt := packet } [] [] := fun packet =>
    { Works.refl _ s with }
  -- nothing is set and nothing is answered
  have hquiet : ∀ {k s'}, ¬Asks data → seedOf data = none →
      s.handleSysPacket env = .ok (k, s') → Works (SendsIfConnected env s) s s' [] [] →
      s'.line = s.line → seedOf data = none ∧ ¬(Asks data ∧ s.line.Throws env) ∧ ∃ type s' d,
        s.handleSysPacket env = .ok (type, s') ∧ Works (SendsIfConnected env s) s s' d [] ∧
        OwnPacket d ∧ s'.line = if Asks data then s.line.next env else s.line :=
    fun hasks hseed hok hwork hline => ⟨hseed, fun hx => hasks hx.1, _, _, [], hok, hwork, .inl rfl,
      hline.trans (if_neg hasks).symm⟩
  by_cases hlen : 2 ≤ data.length
  · generalize htype : Int16.ofNat (Client.CmdPacket.networkNumber (slice data 0 2)) = type
    obtain ⟨p, hp, hhandle⟩ := handleSysPacket_type env h hlen htype
    have hparam := withParam_spec (s := { s with m_recvCmdPkt := p }) hp type
    have hnoseed : type ≠ SYS_PACKET_SET_SEED → seedOf data = none := fun hne =>
      if_neg fun hx => hne (htype.symm.trans hx.2)
    by_cases hkeep : type = SYS_PACKET_KEEP_ALIVE
    · have hseed := hnoseed (by rw [hkeep]; decide)
      rw [if_pos hkeep] at hhandle
      rcases hparam (sendAck env) with ⟨hshort, hw⟩ | ⟨hlong, packet, hw⟩
      · exact .inr (.inr (hquiet (fun hx => absurd hx.1 (Nat.not_le.mpr hshort)) hseed
          (hhandle.trans hw) (hattach p) rfl))
      · have hasks : Asks data := ⟨hlong, htype.trans hkeep⟩
        rcases sendAck_spec (s := { s with m_recvCmdPkt := packet }) env hs
          (UInt32.ofNat (Client.CmdPacket.networkNumber (slice data 2 4))) with
          ⟨hthrows, herror⟩ | ⟨hthrows, s', d, hack, hsend, hown, hline⟩
        · refine .inr (.inl ⟨hasks, hthrows, ?_⟩)
          rw [hhandle, hw]
          exact congrArg (Except.map (type, ·)) herror
        · refine .inr (.inr ⟨hseed, fun hx => hthrows hx.2, type, s', d, ?_,
            (hattach packet).trans hsend, hown, hline.trans (if_pos hasks).symm⟩)
          rw [hhandle, hw]
          exact congrArg (Except.map (type, ·)) hack
    · have hasks : ¬Asks data := fun hx => hkeep (htype.symm.trans hx.2)
      rw [if_neg hkeep] at hhandle
      by_cases hack : type = SYS_PACKET_ALIVE_ACK
      · have hseed := hnoseed (by rw [hack]; decide)
        rw [if_pos hack] at hhandle
        rcases hparam fun s param => .ok (s.takeAck env param) with ⟨-, hw⟩ | ⟨-, packet, hw⟩
        · exact .inr (.inr (hquiet hasks hseed (hhandle.trans hw) (hattach p) rfl))
        · exact .inr (.inr (hquiet hasks hseed (hhandle.trans hw) { Works.refl _ s with } rfl))
      · rw [if_neg hack] at hhandle
        by_cases hset : type = SYS_PACKET_SET_SEED
        · rw [if_pos hset] at hhandle
          rcases hparam fun s param => .ok (s.takeSeed param) with ⟨hshort, hw⟩ | ⟨hlong, packet, hw⟩
          · exact .inr (.inr (hquiet hasks (if_neg fun hx => absurd hx.1 (Nat.not_le.mpr hshort))
              (hhandle.trans hw) (hattach p) rfl))
          · refine .inl ⟨packet, _, if_pos ⟨hlong, htype.trans hset⟩, ?_⟩
            rw [hhandle, hw, hset]
            rfl
        · rw [if_neg hset] at hhandle
          exact .inr (.inr (hquiet hasks (hnoseed hset) hhandle (hattach p) rfl))
  · refine .inr (.inr (hquiet (fun hx => hlen (Nat.le_trans (by decide) hx.1))
      (if_neg fun hx => hlen (Nat.le_trans (by decide) hx.1)) (k := 0) ?_
      (hattach s.m_recvCmdPkt) rfl))
    rw [handleSysPacket, CmdPacket.readShort, CmdPacket.readAs_short h (Nat.lt_of_not_le hlen)]
    rfl

/-! ## The rounds of `GetPacket` -/

variable {s₂ : TcpSession} {fuel : Nat} {type : Int16}

theorem getPacketLoop_error {e : Exception} (h : s.recvPacket = .error e) :
    getPacketLoop env (fuel + 1) s = .error e := by
  rw [getPacketLoop, h]
  rfl

theorem getPacketLoop_none (h : s.recvPacket = .ok (false, s₁)) :
    getPacketLoop env (fuel + 1) s = .ok (false, s₁) := by
  rw [getPacketLoop, h]
  rfl

/-- A user's packet is returned. -/
theorem getPacketLoop_user (h : s.recvPacket = .ok (true, s₁))
    (hsys : s₁.attach.m_recvNetPkt.isSysPacket = false) :
    getPacketLoop env (fuel + 1) s = .ok (true, s₁.attach) := by
  rw [getPacketLoop, h]
  simp only [bind, Except.bind, pure, Except.pure, if_true, hsys, Bool.false_eq_true, if_false]

/-- One of the session's own is handled, and the loop goes on. -/
theorem getPacketLoop_sys (h : s.recvPacket = .ok (true, s₁))
    (hsys : s₁.attach.m_recvNetPkt.isSysPacket = true)
    (hhandle : s₁.attach.handleSysPacket env = .ok (type, s₂)) :
    getPacketLoop env (fuel + 1) s = getPacketLoop env fuel s₂ := by
  rw [getPacketLoop, h]
  simp only [bind, Except.bind, if_true, hsys, hhandle]

/-- One of the session's own cannot be answered. -/
theorem getPacketLoop_sys_error {e : Exception} (h : s.recvPacket = .ok (true, s₁))
    (hsys : s₁.attach.m_recvNetPkt.isSysPacket = true)
    (hhandle : s₁.attach.handleSysPacket env = .error e) :
    getPacketLoop env (fuel + 1) s = .error e := by
  rw [getPacketLoop, h]
  simp only [bind, Except.bind, if_true, hsys, hhandle]

end TcpSession

end GhNet.Network
