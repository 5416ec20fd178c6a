import Mathlib.Data.List.Forall2
import GhNet.Infra.Run
import GhNet.Network.Rounds

/-!
# The stream of packets

Two sessions that have set the same seed. What one has sent and will send is, at any time, the
packets of the users' data and of the session's own, one behind the other. The other takes them off
what it has received one by one, however that arrived: it has taken some of them, and what is in its
buffer is the beginning of the others.

So what `GetPacket` has returned are the users' data, from the first on and in order.
-/

namespace GhNet.Network

open GhNet TNetState NetPacket

/-! ## Messages and packets -/

/-- What a packet is for. -/
structure Message where
  sys : Bool
  data : Bytes

/-- The users' data of a list of messages. -/
def users (ms : List Message) : List Bytes := (ms.filter fun m => !m.sys).map Message.data

theorem users_append (ms ms' : List Message) : users (ms ++ ms') = users ms ++ users ms' := by
  rw [users, List.filter_append, List.map_append, users, users]

theorem users_sys {ms : List Message} (h : ∀ m ∈ ms, m.sys = true) : users ms = [] := by
  have hnone : (ms.filter fun m => !m.sys) = [] := List.filter_eq_nil_iff.mpr fun m hm => by
    rw [h m hm]
    decide
  rw [users, hnone, List.map_nil]

/-- Packets on the wire. -/
def wire (ps : List NetPacket) : Bytes := ps.flatMap getBuffer

theorem wire_cons (p : NetPacket) (ps : List NetPacket) :
    wire (p :: ps) = p.getBuffer ++ wire ps := List.flatMap_cons

theorem wire_append (ps ps' : List NetPacket) : wire (ps ++ ps') = wire ps ++ wire ps' :=
  List.flatMap_append

/-- The packet is one that the message is sent in. -/
structure Carries (seed : UInt32) (p : NetPacket) (m : Message) : Prop where
  sized : p.Sized
  whole : Whole p.getBuffer
  sys : p.isSysPacket = m.sys
  data : p.isEncrypt = false ∧ p.m_buffer = m.data ∨
    seed ≠ 0 ∧ p.isEncrypt = true ∧
      p.m_buffer = xored (keyOf seed).seed (keyOf seed).len 0 m.data
  quiet : m.sys = true → TcpSession.seedOf m.data = none

theorem whole_getBuffer {p : NetPacket} (h : p.Sized) (hflag : p.m_pktFlag >>> 4 = PROTOCOL_FLAG)
    (hpos : 0 < p.m_buffer.length) (hmax : p.m_buffer.length ≤ MAX_CMD_PACKET_SIZE) :
    Whole p.getBuffer := by
  obtain ⟨hfront, htotal⟩ := front_getBuffer h
  have hsize : ushortAt p.getBuffer 3 = p.m_pktDataSize := congrArg m_pktDataSize hfront
  have hhead : NET_PACKET_HEAD_SIZE ≤ p.getBuffer.length :=
    htotal ▸ Nat.le_add_left _ _
  refine ⟨?_, hhead, Nat.le_of_eq htotal⟩
  rintro ⟨-, hf | hz | hl⟩
  · exact hf hflag
  · rw [hsize] at hz
    rw [h, hz] at hpos
    exact absurd hpos (Nat.lt_irrefl 0)
  · rw [hsize, ← h] at hl
    exact absurd hmax (Nat.not_le.mpr hl)

namespace TcpSession

variable {env : Env} {seed : UInt32} {s s₁ s' : TcpSession}

/-- The session has set the seed. -/
structure Keyed (seed : UInt32) (s : TcpSession) : Prop where
  valid : s.key.Valid
  encrypt : s.m_bEncrypt = decide (seed ≠ 0)
  key : seed ≠ 0 → s.key = keyOf seed

theorem keyed_setSeed (h : s.key.Valid) (seed : UInt32) : Keyed seed (s.setSeed seed) := by
  unfold setSeed
  by_cases hz : seed = 0
  · rw [if_pos hz]
    exact ⟨h, (decide_eq_false (not_not_intro hz)).symm, fun hne => absurd hz hne⟩
  · rw [if_neg hz]
    exact ⟨valid_keyOf seed, (decide_eq_true hz).symm, fun _ => rfl⟩

/-! ### Packing -/

theorem seedOf_own {type : Int16} (param : UInt32)
    (h : type = SYS_PACKET_KEEP_ALIVE ∨ type = SYS_PACKET_ALIVE_ACK) :
    seedOf (sysData type param) = none := by
  have hfirst : slice (sysData type param) 0 2
      = CmdPacket.networkBytes 2 type.toUInt16.toNat := by
    have hlen : (CmdPacket.networkBytes 2 type.toUInt16.toNat).length = 2 := length_leBytes 2 _
    rw [slice, List.drop_zero, sysData, List.take_append_of_le_length (Nat.le_of_eq hlen.symm),
      List.take_of_length_le (Nat.le_of_eq hlen)]
  refine if_neg ?_
  rintro ⟨-, hseed⟩
  rw [hfirst] at hseed
  rcases h with rfl | rfl
  · exact absurd hseed (by decide)
  · exact absurd hseed (by decide)

theorem carries_own (seed : UInt32) (seq : UInt16) {type : Int16} (param : UInt32)
    (h : type = SYS_PACKET_KEEP_ALIVE ∨ type = SYS_PACKET_ALIVE_ACK) :
    Carries seed (sysPacket seq (sysData type param)) ⟨true, sysData type param⟩ := by
  have hlen : (sysPacket seq (sysData type param)).m_buffer.length = 6 := length_sysData type param
  have hsized : (sysPacket seq (sysData type param)).Sized := by
    rw [Sized, hlen, sysPacket, length_sysData]
    rfl
  have hflag : (sysPacket seq (sysData type param)).m_pktFlag = 0x54 := rfl
  refine ⟨hsized, whole_getBuffer hsized ?_ ?_ ?_, ?_, .inl ⟨?_, rfl⟩, fun _ => seedOf_own param h⟩
  · rw [hflag]
    decide
  · rw [hlen]
    decide
  · rw [hlen]
    decide
  · rw [isSysPacket, hflag]
    rfl
  · rw [isEncrypt, hflag]
    decide

/-- The flags of a user's packet. -/
theorem carries_user {p : NetPacket} {data : Bytes} (hp : p.Sized)
    (hlen : p.m_buffer.length = data.length) (hpos : 1 ≤ data.length)
    (hmax : data.length ≤ MAX_CMD_PACKET_SIZE)
    (h : (p.m_pktFlag = 0x50 ∨ p.m_pktFlag = 0x52) ∧ p.m_buffer = data ∨
      (p.m_pktFlag = 0x51 ∨ p.m_pktFlag = 0x53) ∧ seed ≠ 0 ∧
        p.m_buffer = xored (keyOf seed).seed (keyOf seed).len 0 data) :
    Carries seed p ⟨false, data⟩ := by
  have hflags : p.m_pktFlag >>> (4 : UInt8) = PROTOCOL_FLAG ∧ p.isSysPacket = false ∧
      (p.isEncrypt = false ∧ p.m_buffer = data ∨ seed ≠ 0 ∧ p.isEncrypt = true ∧
        p.m_buffer = xored (keyOf seed).seed (keyOf seed).len 0 data) := by
    rcases h with ⟨hf, hdata⟩ | ⟨hf, hne, hdata⟩
    · rcases hf with hf | hf <;>
        exact ⟨by rw [hf]; decide, by rw [isSysPacket, hf]; decide,
          .inl ⟨by rw [isEncrypt, hf]; decide, hdata⟩⟩
    · rcases hf with hf | hf <;>
        exact ⟨by rw [hf]; decide, by rw [isSysPacket, hf]; decide,
          .inr ⟨hne, by rw [isEncrypt, hf]; decide, hdata⟩⟩
  exact ⟨hp, whole_getBuffer hp hflags.1 (by omega) (by omega), hflags.2.1, hflags.2.2,
    fun hsys => absurd hsys Bool.false_ne_true⟩

/-- **A user's packet carries the user's data.** -/
theorem fill_user (hs : Keyed seed s) {packet : CmdPacket} (hpos : 1 ≤ packet.getDataSize)
    (hmax : packet.getDataSize ≤ MAX_CMD_PACKET_SIZE) (seq : UInt16) :
    ∃ pkt, s.fill packet seq false = .ok pkt ∧ Carries seed pkt ⟨false, packet.getData⟩ := by
  have hlarge : packet.getDataSize ≤ 16384 := hmax
  have hsize : packet.getDataSize < 65536 := by omega
  have hnum : packet.getData.length = (UInt16.ofNat packet.getDataSize).toNat :=
    (UInt16.toNat_ofNat_of_lt hsize).symm
  by_cases hz : seed = 0
  · have henc : s.m_bEncrypt = false := hs.encrypt.trans (decide_eq_false (not_not_intro hz))
    refine ⟨_, fill_plain hsize s seq henc, carries_user hnum rfl hpos hmax (.inl ⟨?_, rfl⟩)⟩
    cases s.m_bCompress with
    | false => exact .inl rfl
    | true => exact .inr rfl
  · have henc : s.m_bEncrypt = true := hs.encrypt.trans (decide_eq_true hz)
    have hkey : s.key = keyOf seed := hs.key hz
    have hcrypt : crypt s.key.seed s.key.len packet.getDataSize 0 packet.getData
        = .ok (xored (keyOf seed).seed (keyOf seed).len 0 packet.getData) := by
      rw [hkey]
      exact crypt_key (show 0 < MAX_NET_SEED_SIZE from Nat.succ_pos _) (Nat.le_refl _) packet.getData
        (Nat.zero_le _)
    have hlen := length_xored (keyOf seed).seed (keyOf seed).len 0 packet.getData
    refine ⟨_, fill_encrypted hsize s seq henc hcrypt,
      carries_user (hlen.trans hnum) hlen hpos hmax (.inr ⟨?_, hz, rfl⟩)⟩
    cases s.m_bCompress with
    | false => exact .inl rfl
    | true => exact .inr rfl

/-! ### Unpacking -/

/-- A session with the same seed unpacks what the packet carries. -/
theorem unpack_carries {p : NetPacket} {m : Message} (hs : Keyed seed s) (h : Carries seed p m) :
    ∃ pkt, s.unpack p = .ok pkt ∧ pkt.m_buffer = m.data ∧ pkt.isSysPacket = m.sys := by
  have hplain : ¬s.key.Locks p ∧ s.key.plain p = m.data := by
    rcases h.data with ⟨he, hdata⟩ | ⟨hz, he, hdata⟩
    · refine ⟨fun hl => absurd hl.1 (by rw [he]; decide), ?_⟩
      rw [Key.plain, if_neg (by rw [he]; decide), hdata]
    · have hkey := hs.key hz
      refine ⟨fun hl => absurd ((congrArg Key.len hkey).symm.trans hl.2.1)
        (Nat.succ_ne_zero 15), ?_⟩
      rw [Key.plain, if_pos he, hdata, hkey, xored_xored]
  obtain ⟨pkt, hu, hbuf, hsys⟩ := unpack_ok hs.valid h.sized hplain.1
  exact ⟨pkt, hu, hbuf.trans hplain.2, hsys.trans h.sys⟩

/-- What stands at the front of a buffer that the packet and others arrive in: the packet, or
nothing yet. -/
theorem front_of_wire {p : NetPacket} {m : Message} (h : Carries seed p m) {q t r : Bytes}
    (hq : q ++ t = p.getBuffer ++ r) :
    (∃ q', q = p.getBuffer ++ q' ∧ q' ++ t = r) ∨
    (q.length < p.getBuffer.length ∧ ¬Bad q ∧ ¬Whole q) := by
  have htotal := (front_getBuffer h.sized).2
  by_cases hlen : p.getBuffer.length ≤ q.length
  · obtain ⟨q', rfl⟩ : p.getBuffer <+: q :=
      List.prefix_of_prefix_length_le (List.prefix_append _ _) (hq ▸ List.prefix_append q t) hlen
    rw [List.append_assoc] at hq
    exact .inl ⟨q', rfl, List.append_cancel_left hq⟩
  · refine .inr ⟨Nat.lt_of_not_le hlen, not_bad_of_append (t := t) ?_, fun hw => hlen ?_⟩
    · rw [hq]
      exact fun hb => h.whole.1 ((bad_append h.whole.2.1 r).mp hb)
    · rw [← htotal, ← total_append h.whole.2.1 r, ← hq, total_append hw.2.1]
      exact hw.2.2

/-! ## What a session says -/

/-- The session has put packets of its own behind what it sends. -/
structure Speaks (seed : UInt32) (s s' : TcpSession) : Prop where
  keyed : Keyed seed s → Keyed seed s'
  socket : s'.m_clientSocket = s.m_clientSocket
  sent : s.sent <+: s'.sent
  own : ∃ ps ms, List.Forall₂ (Carries seed) ps ms ∧ (∀ m ∈ ms, m.sys = true) ∧
    s'.sent ++ s'.m_writeBuf = s.sent ++ s.m_writeBuf ++ wire ps

/-- Nothing that sending needs has changed. -/
theorem Speaks.silent (hkey : s'.key = s.key) (henc : s'.m_bEncrypt = s.m_bEncrypt)
    (hsock : s'.m_clientSocket = s.m_clientSocket) (hsent : s'.sent = s.sent)
    (hwrite : s'.m_writeBuf = s.m_writeBuf) : Speaks seed s s' := by
  refine ⟨fun hs => ⟨hkey ▸ hs.valid, henc.trans hs.encrypt, fun hz => hkey.trans (hs.key hz)⟩,
    hsock, hsent ▸ List.prefix_refl _, [], [], .nil, by nofun, ?_⟩
  rw [hsent, hwrite]
  exact (List.append_nil _).symm

theorem Speaks.trans (h : Speaks seed s s₁) (h' : Speaks seed s₁ s') : Speaks seed s s' := by
  obtain ⟨ps, ms, hc, hsys, hout⟩ := h.own
  obtain ⟨ps', ms', hc', hsys', hout'⟩ := h'.own
  refine ⟨h'.keyed ∘ h.keyed, h'.socket.trans h.socket, h.sent.trans h'.sent, ps ++ ps', ms ++ ms',
    List.rel_append hc hc', fun m hm => ?_, ?_⟩
  · rcases List.mem_append.mp hm with hm | hm
    · exact hsys m hm
    · exact hsys' m hm
  · rw [hout', hout, wire_append, List.append_assoc]

theorem keyed_of_works {ok : Prop} {d c : Bytes} (h : Works ok s s' d c) (hs : Keyed seed s) :
    Keyed seed s' := by
  have hkey : s'.key = s.key := by rw [key, key, h.seed, h.seedLen]
  exact ⟨hkey ▸ hs.valid, h.encrypt.trans hs.encrypt, fun hz => hkey.trans (hs.key hz)⟩

theorem Speaks.of_works {ok : Prop} {d c : Bytes} (h : Works ok s s' d c) (hown : OwnPacket d) :
    Speaks seed s s' := by
  refine ⟨keyed_of_works h, h.socket, h.sent, ?_⟩
  rcases hown with rfl | ⟨seq, type, param, htype, rfl⟩
  · exact ⟨[], [], .nil, by nofun, h.out⟩
  · refine ⟨[sysPacket seq (sysData type param)], [⟨true, sysData type param⟩],
      .cons (carries_own seed seq param htype) .nil, fun m hm => ?_, ?_⟩
    · rw [List.mem_singleton.mp hm]
    · rw [h.out, wire, List.flatMap_singleton]

/-! ## What a session hears -/

/-- `RecvPacket` takes the packet and `AttachCmdPacket` shows what it carries. -/
theorem recvPacket_carries {p : NetPacket} {m : Message} (hs : Keyed seed s)
    (hp : Carries seed p m) {q : Bytes} (hq : s.m_readBuff = p.getBuffer ++ q) :
    ∃ s₁, s.recvPacket = .ok (true, s₁) ∧ Speaks seed s s₁.attach ∧
      s₁.attach.m_recvCmdPkt.Reading m.data 0 ∧ s₁.attach.m_recvNetPkt.isSysPacket = m.sys ∧
      s₁.attach.m_readBuff = q ∧ s₁.attach.received = s.received := by
  obtain ⟨hfront, htotal⟩ := front_getBuffer hp.sized
  obtain ⟨pkt, hu, hbuf, hsys⟩ := unpack_carries hs hp
  have hw : Whole s.m_readBuff := hq ▸ whole_append hp.whole q
  have hpkt : front s.m_readBuff = p := by rw [hq, front_append hp.whole, hfront]
  have hdrop : s.m_readBuff.drop (total s.m_readBuff) = q := by
    rw [hq, total_append hp.whole.2.1, htotal, List.drop_left]
  refine ⟨_, recvPacket_whole hw (hpkt ▸ hu), .silent rfl rfl rfl rfl rfl, ⟨congrArg some hbuf, rfl⟩,
    hsys, hdrop, rfl⟩

/-- **`GetPacket` takes packets off the front**, up to one of the user's, and answers those of the
session's own, unless `Send` throws. It returns false only if no packet is left whole. -/
theorem getPacketLoop_spec (env : Env) {fuel : Nat} (hs : Keyed seed s)
    (hsock : s.m_clientSocket = true) {ps : List NetPacket} {ms : List Message}
    (hc : List.Forall₂ (Carries seed) ps ms) {t : Bytes} (hq : s.m_readBuff ++ t = wire ps)
    (hfuel : s.m_readBuff.length < fuel) :
    (getPacketLoop env fuel s = .error .socket ∧ ∃ k, env.send k = .exception) ∨
    ∃ r s' ps₁ ms₁ ps₂ ms₂, getPacketLoop env fuel s = .ok (r, s') ∧ Speaks seed s s' ∧
      s'.received = s.received ∧ ps = ps₁ ++ ps₂ ∧ ms = ms₁ ++ ms₂ ∧
      List.Forall₂ (Carries seed) ps₁ ms₁ ∧ List.Forall₂ (Carries seed) ps₂ ms₂ ∧
      s.m_readBuff = wire ps₁ ++ s'.m_readBuff ∧
      users ms₁ = (if r then [s'.m_recvCmdPkt.m_ReadData.getD []] else []) ∧
      (r = false → t = [] → ps₂ = []) := by
  induction fuel generalizing s ps ms with
  | zero => exact absurd hfuel (Nat.not_lt_zero _)
  | succ fuel ih =>
    cases hc with
    | nil =>
      obtain ⟨hnil, -⟩ := List.append_eq_nil_iff.mp hq
      obtain ⟨packet, hrecv⟩ := recvPacket_part (s := s)
        (fun hb => by rw [hnil] at hb; exact absurd hb.1 (by decide))
        (fun hw => by rw [hnil] at hw; exact absurd hw.2.1 (by decide))
      exact .inr ⟨false, { s with m_recvNetPkt := packet }, [], [], [], [],
        getPacketLoop_none hrecv, .silent rfl rfl rfl rfl rfl, rfl, rfl, rfl, .nil, .nil, rfl, rfl,
        fun _ _ => rfl⟩
    | cons hp hrest =>
      next p m ps ms =>
      rw [wire_cons] at hq
      rcases front_of_wire hp hq with ⟨q, hfront, hq'⟩ | ⟨hshort, hb, hw⟩
      · obtain ⟨s₁, hrecv, hspeaks, hdata, hsys, hbuff, hreceived⟩ := recvPacket_carries hs hp hfront
        cases hm : m.sys with
        | false =>
          refine .inr ⟨true, s₁.attach, [p], [m], ps, ms, getPacketLoop_user hrecv (hsys.trans hm),
            hspeaks, hreceived, rfl, rfl, .cons hp .nil, hrest, ?_, ?_, by nofun⟩
          · rw [hbuff, wire, List.flatMap_singleton, hfront]
          · rw [hdata.holds]
            simp only [users, List.filter_singleton, hm]
            rfl
        | true =>
          have hquiet := hp.quiet hm
          rcases handleSysPacket_spec env (hspeaks.socket.trans hsock) hdata with
            ⟨_, param, hseed, -⟩ | ⟨-, hthrows, herror⟩ |
            ⟨-, -, type, s₂, d, hsysPacket, hwork, hown, -⟩
          · rw [hquiet] at hseed
            cases hseed
          · exact .inl ⟨getPacketLoop_sys_error hrecv (hsys.trans hm) herror, _, hthrows.2⟩
          · have hspeaks₂ : Speaks seed s s₂ := hspeaks.trans (.of_works hwork hown)
            have hbuff₂ : s₂.m_readBuff = q := by rw [hwork.readBuff, hbuff, List.append_nil]
            have hlt : s₂.m_readBuff.length < fuel := by
              have hpos : 0 < p.getBuffer.length := Nat.succ_pos _
              rw [hfront, List.length_append] at hfuel
              rw [hbuff₂]
              omega
            have hgo : getPacketLoop env (fuel + 1) s = getPacketLoop env fuel s₂ :=
              getPacketLoop_sys hrecv (hsys.trans hm) hsysPacket
            rcases ih (hspeaks₂.keyed hs) (hspeaks₂.socket.trans hsock) hrest
              (by rw [hbuff₂, hq']) hlt with ⟨herror, hthrows⟩ |
              ⟨r, s', ps₁, ms₁, ps₂, ms₂, hloop, hspeaks', hreceived', rfl, rfl, hc₁, hc₂, hbuff',
                husers, hend⟩
            · exact .inl ⟨hgo.trans herror, hthrows⟩
            refine .inr ⟨r, s', p :: ps₁, m :: ms₁, ps₂, ms₂,
              hgo.trans hloop, hspeaks₂.trans hspeaks', ?_, rfl, rfl, .cons hp hc₁, hc₂, ?_, ?_, hend⟩
            · rw [hreceived', hwork.received, hreceived, List.append_nil]
            · rw [hfront, ← hbuff₂, hbuff', wire_cons, List.append_assoc]
            · rw [← husers, users, List.filter_cons_of_neg (by rw [hm]; decide), users]
      · obtain ⟨packet, hrecv⟩ := recvPacket_part hb hw
        refine .inr ⟨false, { s with m_recvNetPkt := packet }, [], [], p :: ps, m :: ms,
          getPacketLoop_none hrecv, .silent rfl rfl rfl rfl rfl, rfl, rfl, rfl, .nil,
          .cons hp hrest, rfl, rfl, fun _ ht => ?_⟩
        rw [ht, List.append_nil] at hq
        rw [hq, List.length_append] at hshort
        omega

end TcpSession

end GhNet.Network
