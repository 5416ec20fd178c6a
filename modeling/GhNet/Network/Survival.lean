import GhNet.Network.Listener

/-!
# What the peer can do to the thread

The packets that have arrived are taken off the buffer one by one, each once, and every loop ends.
An exception is raised by three kinds of packets only: one that is encrypted, and longer than the
array of the key, while there is no key; a user's packet whose string has a length below zero; and
one that is to be answered when `Send` throws.
-/

namespace GhNet.Network

open GhNet TNetState NetPacket

namespace Key

/-- The key behind a system packet. -/
def after (k : Key) (data : Bytes) : Key :=
  match TcpSession.seedOf data with
  | none => k
  | some param => if param = 0 then k else keyOf param

/-- The string of a user's packet has a length below zero. -/
def NegativeString (data : Bytes) : Prop := 4 ≤ data.length ∧ CmdPacket.shortAt data 2 < 0

instance (data : Bytes) : Decidable (NegativeString data) := inferInstanceAs (Decidable (_ ∧ _))

/-- The line behind a system packet: the answer is a `Send` more, and behind a seed the session is
connected. -/
def lineAfter (env : Env) (l : Line) (data : Bytes) : Line :=
  if (TcpSession.seedOf data).isSome then ⟨l.sends, true⟩
  else if TcpSession.Asks data then l.next env else l

/-- No packet of these raises an exception. The packets that set a seed change the key for those
behind them, and each answer is a `Send` more. -/
def Harmless (env : Env) (k : Key) (l : Line) : List NetPacket → Prop
  | [] => True
  | p :: ps =>
    ¬k.Locks p ∧
      if p.isSysPacket then
        ¬(TcpSession.Asks (k.plain p) ∧ l.Throws env) ∧
          (k.after (k.plain p)).Harmless env (lineAfter env l (k.plain p)) ps
      else ¬NegativeString (k.plain p) ∧ k.Harmless env l ps

instance decHarmless (env : Env) :
    ∀ (k : Key) (l : Line) (ps : List NetPacket), Decidable (k.Harmless env l ps)
  | _, _, [] => .isTrue trivial
  | k, l, p :: ps =>
    have := decHarmless env (k.after (k.plain p)) (lineAfter env l (k.plain p)) ps
    have := decHarmless env k l ps
    inferInstanceAs (Decidable (¬_ ∧ ite _ _ _))

/-- The users' data of these packets. -/
def delivers (k : Key) : List NetPacket → List Bytes
  | [] => []
  | p :: ps =>
    if p.isSysPacket then (k.after (k.plain p)).delivers ps
    else k.plain p :: k.delivers ps

theorem valid_after {k : Key} (h : k.Valid) (data : Bytes) : (k.after data).Valid := by
  unfold after
  split
  · exact h
  · split
    · exact h
    · exact valid_keyOf _

end Key

namespace Event

/-- The packet that was taken off the buffer. -/
def taken : Event → Option NetPacket
  | .packet p => some p
  | _ => none

/-- The data that the user was given. -/
def given : Event → Option Bytes
  | .onReceive d => some d
  | _ => none

/-- Nothing that ends the session. -/
def Calm : Event → Prop
  | .packet _ => True
  | .onReceive _ => True
  | .onConnect ret => ret = true
  | _ => False

end Event

namespace TcpSession

variable {env : Env} {ok ok' : Prop} {s s₁ s' : TcpSession} {ps ps' : List NetPacket}
  {ds ds' : List Bytes}

/-- The packets that have been taken off the buffer. -/
def taken (s : TcpSession) : List NetPacket := s.events.filterMap Event.taken

/-- What `OnReceive` has been given. -/
def given (s : TcpSession) : List Bytes := s.events.filterMap Event.given

/-- The session has taken these packets and given these data to `OnReceive`. If something happened
that ends it, `ok` did not hold. -/
structure Takes (ok : Prop) (s s' : TcpSession) (ps : List NetPacket) (ds : List Bytes) : Prop where
  taken : s'.taken = s.taken ++ ps
  given : s'.given = s.given ++ ds
  socket : s'.m_clientSocket = s.m_clientSocket
  valid : s.key.Valid → s'.key.Valid
  state : s'.m_state = s.m_state ∨ s'.m_state = NET_STATE_CONNECTED ∨ s'.m_state = NET_STATE_DEAD
  calm : ok → (s'.m_state = s.m_state ∨ s'.m_state = NET_STATE_CONNECTED) ∧
    ∃ es, s'.events = s.events ++ es ∧ ∀ e ∈ es, e.Calm

theorem Takes.of_events (es : List Event) (hevents : s'.events = s.events ++ es)
    (hcalm : ∀ e ∈ es, e.Calm) (hsocket : s'.m_clientSocket = s.m_clientSocket)
    (hvalid : s.key.Valid → s'.key.Valid)
    (hstate : s'.m_state = s.m_state ∨ s'.m_state = NET_STATE_CONNECTED) :
    Takes ok s s' (es.filterMap Event.taken) (es.filterMap Event.given) where
  taken := by rw [TcpSession.taken, hevents, List.filterMap_append, TcpSession.taken]
  given := by rw [TcpSession.given, hevents, List.filterMap_append, TcpSession.given]
  socket := hsocket
  valid := hvalid
  state := hstate.imp_right .inl
  calm _ := ⟨hstate, es, hevents, hcalm⟩

theorem Takes.refl (ok : Prop) (s : TcpSession) : Takes ok s s [] [] :=
  .of_events [] (List.append_nil _).symm (by nofun) rfl id (.inl rfl)

theorem Takes.mono (hok : ok' → ok) (h : Takes ok s s' ps ds) : Takes ok' s s' ps ds :=
  { h with calm := fun hx => h.calm (hok hx) }

theorem Takes.trans (h : Takes ok s s₁ ps ds) (h' : Takes ok s₁ s' ps' ds') :
    Takes ok s s' (ps ++ ps') (ds ++ ds') where
  taken := by rw [h'.taken, h.taken, List.append_assoc]
  given := by rw [h'.given, h.given, List.append_assoc]
  socket := h'.socket.trans h.socket
  valid := h'.valid ∘ h.valid
  state := by
    rcases h'.state with hs | hs
    · rw [hs]
      exact h.state
    · exact .inr hs
  calm hok := by
    obtain ⟨hstate, es, hes, hcalm⟩ := h.calm hok
    obtain ⟨hstate', es', hes', hcalm'⟩ := h'.calm hok
    refine ⟨?_, es ++ es', by rw [hes', hes, List.append_assoc], fun e he => ?_⟩
    · rcases hstate' with hs | hs
      · rw [hs]
        exact hstate
      · exact .inr hs
    · rcases List.mem_append.mp he with he | he
      · exact hcalm e he
      · exact hcalm' e he

theorem Takes.of_works {d c : Bytes} (h : Works ok s s' d c) : Takes ok s s' [] [] := by
  obtain ⟨n, hn⟩ := h.events
  have hdead : ∀ {β : Type} (f : Event → Option β), f .dead = none →
      (List.replicate n Event.dead).filterMap f = [] := fun f hf =>
    List.filterMap_eq_nil_iff.mpr fun e he => by rw [List.eq_of_mem_replicate he, hf]
  have hkey : s'.key = s.key := by rw [key, key, h.seed, h.seedLen]
  refine ⟨?_, ?_, h.socket, fun hv => hkey ▸ hv, h.state.imp_right .inr, fun hok => ?_⟩
  · rw [TcpSession.taken, hn, List.filterMap_append, hdead Event.taken rfl, TcpSession.taken]
  · rw [TcpSession.given, hn, List.filterMap_append, hdead Event.given rfl, TcpSession.given]
  · obtain ⟨hstate, hevents⟩ := h.alive hok
    exact ⟨.inl hstate, [], hevents.trans (List.append_nil _).symm, by nofun⟩

/-! ## One packet -/

/-- `RecvPacket` and `AttachCmdPacket`, of a packet that can be unpacked. -/
theorem recvPacket_takes (ok : Prop) (hk : s.key.Valid) (hw : Whole s.m_readBuff)
    (hl : ¬s.key.Locks (front s.m_readBuff)) :
    ∃ s₁, s.recvPacket = .ok (true, s₁) ∧ Takes ok s s₁.attach [front s.m_readBuff] [] ∧
      s₁.attach.m_recvCmdPkt.Reading (s.key.plain (front s.m_readBuff)) 0 ∧
      s₁.attach.m_recvNetPkt.isSysPacket = (front s.m_readBuff).isSysPacket ∧
      s₁.attach.m_readBuff = s.m_readBuff.drop (total s.m_readBuff) ∧ s₁.attach.key = s.key ∧
      s₁.attach.line = s.line ∧ s₁.attach.m_state = s.m_state := by
  obtain ⟨pkt, hu, hbuf, hsys⟩ := unpack_ok hk (sized_front hw) hl
  refine ⟨_, recvPacket_whole hw hu, ?_, ⟨congrArg some hbuf, rfl⟩, hsys, rfl, rfl, rfl, rfl⟩
  exact .of_events [.packet (front s.m_readBuff)] rfl
    (fun e he => by rw [List.mem_singleton.mp he]; trivial) rfl id (.inl rfl)

/-- `HandleSysPacket` leaves the buffer alone. It comes back, unless it answers and `Send` throws. -/
theorem handleSysPacket_takes (env : Env) {data : Bytes} (hs : s.m_clientSocket = true)
    (h : s.m_recvCmdPkt.Reading data 0) :
    ((Asks data ∧ s.line.Throws env) ∧ s.handleSysPacket env = .error .socket) ∨
    (¬(Asks data ∧ s.line.Throws env) ∧ ∃ type s', s.handleSysPacket env = .ok (type, s') ∧
      Takes (SendsIfConnected env s) s s' [] [] ∧ s'.m_readBuff = s.m_readBuff ∧
      s'.key = s.key.after data ∧ s'.line = Key.lineAfter env s.line data) := by
  rcases handleSysPacket_spec env hs h with
    ⟨packet, param, hseed, hhandle⟩ | ⟨hasks, hthrows, herror⟩ |
    ⟨hseed, hquiet, type, s', d, hhandle, hwork, -, hline⟩
  · have hasks : ¬Asks data := fun hx => by
      rw [seedOf_of_asks hx] at hseed
      cases hseed
    have hkey : (takeSeed { s with m_recvCmdPkt := packet } param).key = s.key.after data := by
      rw [Key.after, hseed, takeSeed, setSeed]
      dsimp only
      split <;> rfl
    have hline : (takeSeed { s with m_recvCmdPkt := packet } param).line
        = Key.lineAfter env s.line data := by
      rw [Key.lineAfter, hseed, takeSeed, setSeed]
      split <;> rfl
    refine .inr ⟨fun hx => hasks hx.1, _, _, hhandle, ?_, ?_, hkey, hline⟩
    · refine .of_events [.onConnect true] ?_
        (fun e he => by rw [List.mem_singleton.mp he]; rfl) ?_
        (fun hv => hkey ▸ Key.valid_after hv data) (.inr rfl)
      · rw [takeSeed, setSeed]
        split <;> rfl
      · rw [takeSeed, setSeed]
        split <;> rfl
    · rw [takeSeed, setSeed]
      split <;> rfl
  · exact .inl ⟨⟨hasks, hthrows⟩, herror⟩
  · refine .inr ⟨hquiet, type, s', hhandle, .of_works hwork, ?_, ?_, ?_⟩
    · rw [hwork.readBuff, List.append_nil]
    · rw [Key.after, hseed, key, hwork.seed, hwork.seedLen]
      rfl
    · rw [Key.lineAfter, hseed]
      exact hline

/-- `OnReceive` raises an exception exactly if the string has a length below zero. -/
theorem onReceive_spec (ok : Prop) {data : Bytes} (h : s.m_recvCmdPkt.Reading data 0) :
    (Key.NegativeString data ∧ ∃ e, s.onReceive = .error e ∧ e ≠ .endless) ∨
    (¬Key.NegativeString data ∧ ∃ s', s.onReceive = .ok s' ∧ Takes ok s s' [] [data] ∧
      s'.m_readBuff = s.m_readBuff ∧ s'.key = s.key ∧ s'.line = s.line) := by
  have hgiven : s.log (.onReceive (s.m_recvCmdPkt.m_ReadData.getD []))
      = s.log (.onReceive data) := by
    rw [h.holds]
    rfl
  have hdone : ∀ packet, Takes ok s { s.log (.onReceive data) with m_recvCmdPkt := packet } []
      [data] := fun packet =>
    .of_events [.onReceive data] rfl
      (fun e he => by rw [List.mem_singleton.mp he]; trivial) rfl id (.inl rfl)
  -- what is behind the command
  have hcmd : ∃ r packet, s.m_recvCmdPkt.readShort = .ok (r, packet) ∧
      (data.length < 2 ∧ packet.Reading data 0 ∨ 2 ≤ data.length ∧ packet.Reading data 2) := by
    by_cases hlen : 2 ≤ data.length
    · obtain ⟨l, packet, hread, -, hp⟩ := CmdPacket.readShort_enough h hlen
      exact ⟨_, packet, hread, .inr ⟨hlen, hp⟩⟩
    · exact ⟨_, _, CmdPacket.readAs_short h (Nat.lt_of_not_le hlen),
        .inl ⟨Nat.lt_of_not_le hlen, h⟩⟩
  obtain ⟨r, packet, hread, hpacket⟩ := hcmd
  have hreceive : s.onReceive = (packet.readString id).bind fun r =>
      .ok { s.log (.onReceive data) with m_recvCmdPkt := r.2 } := by
    rw [onReceive, hgiven]
    exact congrArg (Except.bind · fun r => (r.2.readString id).bind fun r =>
      Except.ok { s.log (.onReceive data) with m_recvCmdPkt := r.2 }) hread
  rcases hpacket with ⟨hshort, hp⟩ | ⟨hlen, hp⟩
  · refine .inr ⟨fun hneg => by have := hneg.1; omega, _, ?_, hdone packet, rfl, rfl, rfl⟩
    rw [hreceive, CmdPacket.readString_short _ hp (by omega)]
    rfl
  · by_cases hstr : 4 ≤ data.length
    · by_cases hneg : CmdPacket.shortAt data 2 < 0
      · obtain ⟨e, he, hne⟩ := CmdPacket.readString_negative id hp hstr hneg
        refine .inl ⟨⟨hstr, hneg⟩, e, ?_, hne⟩
        rw [hreceive, he]
        rfl
      · refine .inr ⟨fun hx => hneg hx.2, ?_⟩
        rcases CmdPacket.readString_ok id hp hstr (Int.not_lt.mp hneg) with
          ⟨-, p, hp'⟩ | ⟨-, p, data', hp', -⟩
        · exact ⟨_, by rw [hreceive, hp']; rfl, hdone p, rfl, rfl, rfl⟩
        · exact ⟨_, by rw [hreceive, hp']; rfl, hdone p, rfl, rfl, rfl⟩
    · refine .inr ⟨fun hneg => hstr hneg.1, _, ?_, hdone packet, rfl, rfl, rfl⟩
      rw [hreceive, CmdPacket.readString_short _ hp (by omega)]
      rfl

/-! ## All packets -/

/-- The loop of `Process`, when `GetPacket` still has `fuel` rounds. -/
def receiveFrom (env : Env) (fuel outer : Nat) (s : TcpSession) : Except Exception TcpSession :=
  (getPacketLoop env fuel s).bind fun r =>
    if r.1 then r.2.onReceive.bind (receiveLoop env outer) else .ok r.2

theorem receiveLoop_eq (env : Env) (outer : Nat) (s : TcpSession) :
    receiveLoop env (outer + 1) s = receiveFrom env (s.m_readBuff.length + 1) outer s := rfl

theorem receiveFrom_error {e : Exception} (env : Env) (fuel outer : Nat)
    (h : s.recvPacket = .error e) : receiveFrom env (fuel + 1) outer s = .error e := by
  rw [receiveFrom, getPacketLoop_error h]
  rfl

theorem receiveFrom_none (env : Env) (fuel outer : Nat) (h : s.recvPacket = .ok (false, s₁)) :
    receiveFrom env (fuel + 1) outer s = .ok s₁ := by
  rw [receiveFrom, getPacketLoop_none h]
  rfl

theorem receiveFrom_user (env : Env) (fuel outer : Nat) (h : s.recvPacket = .ok (true, s₁))
    (hsys : s₁.attach.m_recvNetPkt.isSysPacket = false) :
    receiveFrom env (fuel + 1) outer s = s₁.attach.onReceive.bind (receiveLoop env outer) := by
  rw [receiveFrom, getPacketLoop_user h hsys]
  rfl

theorem receiveFrom_sys {type : Int16} (fuel outer : Nat) (h : s.recvPacket = .ok (true, s₁))
    (hsys : s₁.attach.m_recvNetPkt.isSysPacket = true)
    (hhandle : s₁.attach.handleSysPacket env = .ok (type, s')) :
    receiveFrom env (fuel + 1) outer s = receiveFrom env fuel outer s' := by
  rw [receiveFrom, getPacketLoop_sys h hsys hhandle, receiveFrom]

theorem receiveFrom_sys_error {e : Exception} (fuel outer : Nat) (h : s.recvPacket = .ok (true, s₁))
    (hsys : s₁.attach.m_recvNetPkt.isSysPacket = true)
    (hhandle : s₁.attach.handleSysPacket env = .error e) :
    receiveFrom env (fuel + 1) outer s = .error e := by
  rw [receiveFrom, getPacketLoop_sys_error h hsys hhandle]
  rfl

/-- `RecvPacket` finds no whole packet, and what is there may be none. -/
def stopped (s : TcpSession) (packet : NetPacket) : TcpSession :=
  if Bad s.m_readBuff then { s with m_recvNetPkt := packet }.die
  else { s with m_recvNetPkt := packet }

theorem recvPacket_stopped (hw : ¬Whole s.m_readBuff) :
    ∃ packet, s.recvPacket = .ok (false, s.stopped packet) := by
  unfold stopped
  by_cases hb : Bad s.m_readBuff
  · obtain ⟨packet, hrecv⟩ := recvPacket_bad hb
    exact ⟨packet, by rw [if_pos hb]; exact hrecv⟩
  · obtain ⟨packet, hrecv⟩ := recvPacket_part hb hw
    exact ⟨packet, by rw [if_neg hb]; exact hrecv⟩

/-- **Packet by packet.** The loop goes through the packets that are there, and stops behind them or
raises an exception. -/
theorem receiveFrom_spec (env : Env) (q : Bytes) :
    ∀ {s : TcpSession} (fuel outer : Nat), s.m_readBuff = q → s.key.Valid →
      s.m_clientSocket = true → q.length < fuel → q.length ≤ outer →
    (¬s.key.Harmless env s.line (cutter.pieces q) ∧
      ∃ e, receiveFrom env fuel outer s = .error e ∧ e ≠ .endless) ∨
    (s.key.Harmless env s.line (cutter.pieces q) ∧ ∃ s₁ packet,
      Takes env.SendsOk s s₁ (cutter.pieces q) (s.key.delivers (cutter.pieces q)) ∧
      s₁.m_readBuff = cutter.rest q ∧
      receiveFrom env fuel outer s = .ok (s₁.stopped packet)) := by
  induction q using Cutter.pieces_induction (C := cutter) with
  | stop q hw =>
    intro s fuel outer hq _ _ hfuel _
    obtain ⟨fuel, rfl⟩ : ∃ n, fuel = n + 1 := ⟨fuel - 1, by omega⟩
    obtain ⟨packet, hrecv⟩ := recvPacket_stopped (s := s) (hq ▸ hw)
    rw [Cutter.pieces_of_not_whole hw, Cutter.rest_of_not_whole hw]
    exact .inr ⟨trivial, s, packet, .refl _ s, hq, receiveFrom_none env fuel outer hrecv⟩
  | piece q hw ih =>
    intro s fuel outer hq hk hsock hfuel houter
    obtain ⟨fuel, rfl⟩ : ∃ n, fuel = n + 1 := ⟨fuel - 1, by omega⟩
    have hlt := Cutter.length_drop_total_lt hw
    obtain ⟨outer, rfl⟩ : ∃ n, outer = n + 1 := ⟨outer - 1, by omega⟩
    rw [Cutter.pieces_of_whole hw, Cutter.rest_of_whole hw]
    subst hq
    generalize hp : front s.m_readBuff = p
    have hpiece : cutter.piece s.m_readBuff = p := hp
    rw [hpiece, Key.Harmless, Key.delivers]
    by_cases hl : s.key.Locks p
    · have hrecv := recvPacket_locked hk hw (hp ▸ hl)
      exact .inl ⟨fun h => h.1 hl, _, receiveFrom_error env fuel (outer + 1) hrecv, nofun⟩
    · obtain ⟨s₁, hrecv, htakes, hdata, hsys, hbuff, hkey, hline, -⟩ :=
        recvPacket_takes env.SendsOk hk hw (hp ▸ hl)
      rw [hp] at htakes hdata hsys
      have hsock₁ := htakes.socket.trans hsock
      rw [← hkey] at hk
      cases hm : p.isSysPacket with
      | true =>
        simp only [if_true]
        rcases handleSysPacket_takes env hsock₁ hdata with ⟨hthrows, herror⟩ |
          ⟨hquiet, type, s₂, hhandle, htakes₂, hbuff₂, hkey₂, hline₂⟩
        · exact .inl ⟨fun h => h.2.1 (hline ▸ hthrows), _,
            receiveFrom_sys_error fuel (outer + 1) hrecv (hsys.trans hm) herror, nofun⟩
        have hfrom := receiveFrom_sys fuel (outer + 1) hrecv (hsys.trans hm) hhandle
        rw [hkey] at hkey₂ hk
        have hrest := ih fuel (outer + 1) (hbuff₂.trans hbuff) (hkey₂ ▸ Key.valid_after hk _)
          (htakes₂.socket.trans hsock₁) (Nat.lt_of_lt_of_le hlt (Nat.le_of_lt_succ hfuel))
          (Nat.le_trans (Nat.le_of_lt hlt) houter)
        rw [hkey₂, hline₂, hline] at hrest
        rw [hline] at hquiet
        rcases hrest with ⟨hharm, e, he, hne⟩ | ⟨hharm, s₃, packet, htakes₃, hbuff₃, hok⟩
        · exact .inl ⟨fun h => hharm h.2.2, e, hfrom.trans he, hne⟩
        · have hall := (htakes.trans (htakes₂.mono fun hok _ => hok)).trans htakes₃
          exact .inr ⟨⟨hl, hquiet, hharm⟩, s₃, packet, hall, hbuff₃, hfrom.trans hok⟩
      | false =>
        have hfrom := receiveFrom_user env fuel (outer + 1) hrecv (hsys.trans hm)
        simp only [Bool.false_eq_true, if_false]
        rcases onReceive_spec env.SendsOk hdata with ⟨hneg, e, he, hne⟩ |
          ⟨hpos, s₂, hreceive, htakes₂, hbuff₂, hkey₂, hline₂⟩
        · exact .inl ⟨fun h => h.2.1 hneg, e, by rw [hfrom, he]; rfl, hne⟩
        · rw [hkey] at hkey₂ hk
          have hlen₂ : s₂.m_readBuff.length < s.m_readBuff.length := by
            rw [hbuff₂, hbuff]
            exact hlt
          have hrest := ih (s₂.m_readBuff.length + 1) outer (hbuff₂.trans hbuff) (hkey₂ ▸ hk)
            (htakes₂.socket.trans hsock₁) (by rw [hbuff₂, hbuff]; exact Nat.lt_succ_self _)
            (Nat.le_of_lt_succ (Nat.lt_of_lt_of_le hlt houter))
          rw [hkey₂, hline₂, hline] at hrest
          rw [hreceive] at hfrom
          rcases hrest with ⟨hharm, e, he, hne⟩ | ⟨hharm, s₃, packet, htakes₃, hbuff₃, hok⟩
          · exact .inl ⟨fun h => hharm h.2.2, e, hfrom.trans he, hne⟩
          · exact .inr ⟨⟨hl, hpos, hharm⟩, s₃, packet, (htakes.trans htakes₂).trans htakes₃, hbuff₃,
              hfrom.trans hok⟩

/-! ## One round, state by state -/

theorem dispatch_connected (env : Env) (hk : s.key.Valid) (hsock : s.m_clientSocket = true)
    (hstate : s.m_state = NET_STATE_CONNECTED) :
    (¬s.key.Harmless env s.line (cutter.pieces s.m_readBuff) ∧
      ∃ e, s.dispatch env = .error e ∧ e ≠ .endless) ∨
    (s.key.Harmless env s.line (cutter.pieces s.m_readBuff) ∧ ∃ s₁ packet,
      Takes env.SendsOk s s₁ (cutter.pieces s.m_readBuff)
        (s.key.delivers (cutter.pieces s.m_readBuff)) ∧
      s₁.m_readBuff = cutter.rest s.m_readBuff ∧
      s.dispatch env = .ok (s₁.stopped packet)) := by
  have hloop : s.dispatch env
      = receiveFrom env (s.m_readBuff.length + 1) s.m_readBuff.length s := by
    rw [dispatch, hstate]
    exact receiveLoop_eq env _ s
  rw [hloop]
  exact receiveFrom_spec env s.m_readBuff _ _ rfl hk hsock (Nat.lt_succ_self _) (Nat.le_refl _)

/-- While the seed is waited for, a round takes one packet at most, and a user's is ignored. -/
theorem dispatch_waiting (env : Env) (hk : s.key.Valid) (hsock : s.m_clientSocket = true)
    (hstate : s.m_state = NET_STATE_WAITING_SEED) :
    (¬Whole s.m_readBuff ∧ ∃ packet, s.dispatch env = .ok (s.stopped packet)) ∨
    (Whole s.m_readBuff ∧ s.key.Locks (front s.m_readBuff) ∧
      s.dispatch env = .error .indexOutOfRange) ∨
    (Whole s.m_readBuff ∧ ¬s.key.Locks (front s.m_readBuff) ∧ ∃ s', s.dispatch env = .ok s' ∧
      Takes True s s' [front s.m_readBuff] [] ∧
      s'.m_readBuff = s.m_readBuff.drop (total s.m_readBuff)) := by
  have hwait : s.dispatch env = s.waitSeed env := by rw [dispatch, hstate]
  rw [hwait]
  by_cases hw : Whole s.m_readBuff
  · by_cases hl : s.key.Locks (front s.m_readBuff)
    · refine .inr (.inl ⟨hw, hl, ?_⟩)
      rw [waitSeed, recvPacket_locked hk hw hl]
      rfl
    · obtain ⟨s₁, hrecv, htakes, hdata, -, hbuff, -, hline, hstate₁⟩ :=
        recvPacket_takes True hk hw hl
      refine .inr (.inr ⟨hw, hl, ?_⟩)
      rw [waitSeed, hrecv]
      simp only [bind, Except.bind, pure, Except.pure, if_true]
      split
      · rcases handleSysPacket_takes env (htakes.socket.trans hsock) hdata with
          ⟨⟨-, hthrows, -⟩, -⟩ | ⟨-, type, s₂, hhandle, htakes₂, hbuff₂, -, -⟩
        · -- the session is not connected, so it answers nothing
          have hstate' := of_decide_eq_true hthrows
          rw [hstate₁, hstate] at hstate'
          cases hstate'
        have hquiet : SendsIfConnected env s₁.attach := fun hc => by
          rw [hstate₁, hstate] at hc
          cases hc
        refine ⟨s₂, ?_, htakes.trans (htakes₂.mono fun _ => hquiet), hbuff₂.trans hbuff⟩
        rw [hhandle]
      · exact ⟨s₁.attach, rfl, htakes, hbuff⟩
  · obtain ⟨packet, hrecv⟩ := recvPacket_stopped hw
    refine .inl ⟨hw, packet, ?_⟩
    rw [waitSeed, hrecv]
    rfl

/-- While the connection is waited for nothing is read. -/
theorem dispatch_connecting (env : Env) (hsock : s.m_clientSocket = true)
    (hstate : s.m_state = NET_STATE_CONNECTING) :
    ∃ s', s.dispatch env = .ok s' ∧
      ((s'.m_state = NET_STATE_DEAD ∧ s'.m_clientSocket = false ∧ s'.m_readBuff = [] ∧
          s'.m_writeBuf = [] ∧ s'.events = s.events ++ [.closed, .onConnect false, .dead]) ∨
        ((s'.m_state = NET_STATE_CONNECTING ∨ s'.m_state = NET_STATE_WAITING_SEED) ∧
          s'.m_clientSocket = true ∧ s'.key = s.key ∧ s'.m_readBuff = s.m_readBuff ∧
          s'.events = s.events)) := by
  obtain ⟨failed, s₁, hfailed, hs₁⟩ : ∃ failed s₁, s.connectFailed env env.hasExcept = (failed, s₁) ∧
      (s₁ = s ∨ s₁ = (Sys_GetTime env s).2) := by
    unfold connectFailed
    split
    · exact ⟨_, _, rfl, .inl rfl⟩
    · exact ⟨_, _, rfl, .inr rfl⟩
  have hsame : s₁.m_clientSocket = true ∧ s₁.m_state = NET_STATE_CONNECTING ∧ s₁.key = s.key ∧
      s₁.m_readBuff = s.m_readBuff ∧ s₁.events = s.events := by
    rcases hs₁ with rfl | rfl
    · exact ⟨hsock, hstate, rfl, rfl, rfl⟩
    · exact ⟨hsock, hstate, rfl, rfl, rfl⟩
  obtain ⟨hsock₁, hstate₁, hkey₁, hbuff₁, hevents₁⟩ := hsame
  have hexcept : s.select env.hasExcept = .ok env.hasExcept := if_pos hsock
  have hwrite : s₁.select env.canWrite = .ok env.canWrite := if_pos hsock₁
  have hclose : s₁.close = .ok s₁.cleared := if_pos hsock₁
  have hwait : s.dispatch env = s.waitConnect env := by rw [dispatch, hstate]
  rw [hwait, waitConnect, hexcept]
  simp only [bind, Except.bind, pure, Except.pure, hfailed, hclose, hwrite]
  cases failed with
  | true =>
    refine ⟨(s₁.cleared.onConnect false).die, rfl, .inl ⟨rfl, rfl, rfl, rfl, ?_⟩⟩
    rw [← hevents₁]
    simp [cleared, onConnect, die, log]
  | false =>
    rw [if_neg Bool.false_ne_true]
    cases env.canWrite with
    | true => exact ⟨_, rfl, .inr ⟨.inr rfl, hsock₁, hkey₁, hbuff₁, hevents₁⟩⟩
    | false => exact ⟨_, rfl, .inr ⟨.inl hstate₁, hsock₁, hkey₁, hbuff₁, hevents₁⟩⟩

/-- In `NET_STATE_DEAD` the session is closed. -/
theorem dispatch_dead (env : Env) (hsock : s.m_clientSocket = true)
    (hstate : s.m_state = NET_STATE_DEAD) : s.dispatch env = .ok s.onDisconnect.cleared := by
  rw [dispatch, hstate]
  exact if_pos hsock

/-! ## The round -/

/-- The packets that are taken in a round. -/
def exposed (s : TcpSession) : List NetPacket :=
  if s.m_state = NET_STATE_CONNECTED then cutter.pieces s.m_readBuff
  else if s.m_state = NET_STATE_WAITING_SEED then (cutter.pieces s.m_readBuff).take 1
  else []

/-- None of them raises an exception. Only a connected session gives packets to `OnReceive` and
answers. -/
def Harmless (env : Env) (s : TcpSession) : Prop :=
  (s.m_state = NET_STATE_CONNECTED → s.key.Harmless env s.line (cutter.pieces s.m_readBuff)) ∧
    (s.m_state = NET_STATE_WAITING_SEED → ∀ p ∈ s.exposed, ¬s.key.Locks p)

instance (env : Env) (s : TcpSession) : Decidable (s.Harmless env) :=
  inferInstanceAs (Decidable (_ ∧ _))

/-- Each of them is consumed once, the users' data go to `OnReceive` if the session is connected,
and the session becomes dead if there is something that is no packet. -/
structure Handles (s s' : TcpSession) : Prop where
  taken : s'.taken = s.taken ++ s.exposed
  given : s'.given = s.given ++
    if s.m_state = NET_STATE_CONNECTED then s.key.delivers s.exposed else []
  connected : s.m_state = NET_STATE_CONNECTED →
    s'.m_readBuff = cutter.rest s.m_readBuff ∧
      (Bad s'.m_readBuff → s'.m_state = NET_STATE_DEAD)
  waiting : s.m_state = NET_STATE_WAITING_SEED →
    (Whole s.m_readBuff → s'.m_readBuff = s.m_readBuff.drop (total s.m_readBuff)) ∧
      (¬Whole s.m_readBuff → s'.m_readBuff = s.m_readBuff) ∧
      (Bad s.m_readBuff → s'.m_state = NET_STATE_DEAD)

/-- What a session is whose thread is running. -/
structure Sound (s : TcpSession) : Prop where
  valid : s.key.Valid
  socket : s.m_state ≠ NET_STATE_ZERO → s.m_clientSocket = true

theorem Sound.of_works {ok : Prop} {d c : Bytes} (h : Sound s) (hs : s.m_clientSocket = true)
    (hwork : Works ok s s' d c) : Sound s' := by
  have hkey : s'.key = s.key := by rw [key, key, hwork.seed, hwork.seedLen]
  exact ⟨hkey ▸ h.valid, fun _ => hwork.socket.trans hs⟩

theorem stopped_spec (s : TcpSession) (packet : NetPacket) :
    (s.stopped packet).taken = s.taken ∧ (s.stopped packet).given = s.given ∧
      (s.stopped packet).m_readBuff = s.m_readBuff ∧ (s.stopped packet).key = s.key ∧
      (s.stopped packet).m_clientSocket = s.m_clientSocket ∧
      (Bad s.m_readBuff → (s.stopped packet).m_state = NET_STATE_DEAD) := by
  unfold stopped
  split
  · refine ⟨?_, ?_, rfl, rfl, rfl, fun _ => rfl⟩
    · simp [TcpSession.taken, die, log, Event.taken]
    · simp [TcpSession.given, die, log, Event.given]
  · next hb => exact ⟨rfl, rfl, rfl, rfl, rfl, fun hx => absurd hx hb⟩

/-- Nothing is taken in the other states. -/
theorem idle_spec (env : Env) (s' : TcpSession) (h : s.m_state ≠ NET_STATE_CONNECTED)
    (h' : s.m_state ≠ NET_STATE_WAITING_SEED)
    (hevents : ∃ es, s'.events = s.events ++ es ∧ ∀ e ∈ es, e.taken = none ∧ e.given = none) :
    s.Harmless env ∧ Handles s s' := by
  obtain ⟨es, hes, hnone⟩ := hevents
  have htaken : es.filterMap Event.taken = [] :=
    List.filterMap_eq_nil_iff.mpr fun e he => (hnone e he).1
  have hgiven : es.filterMap Event.given = [] :=
    List.filterMap_eq_nil_iff.mpr fun e he => (hnone e he).2
  refine ⟨⟨fun hx => absurd hx h, fun hx => absurd hx h'⟩, ?_, ?_, fun hx => absurd hx h,
    fun hx => absurd hx h'⟩
  · rw [exposed, if_neg h, if_neg h', TcpSession.taken, hes, List.filterMap_append, htaken]
    rfl
  · rw [if_neg h, TcpSession.given, hes, List.filterMap_append, hgiven]
    rfl

theorem connected_spec (env : Env) (h : Sound s) (hstate : s.m_state = NET_STATE_CONNECTED) :
    (¬s.Harmless env ∧ ∃ e, s.dispatch env = .error e ∧ e ≠ .endless) ∨
    (s.Harmless env ∧ ∃ s', s.dispatch env = .ok s' ∧ Handles s s' ∧ Sound s') := by
  have hne : s.m_state ≠ NET_STATE_WAITING_SEED := by rw [hstate]; decide
  have hexposed : s.exposed = cutter.pieces s.m_readBuff := if_pos hstate
  have hsock := h.socket (by rw [hstate]; decide)
  rcases dispatch_connected env h.valid hsock hstate with
    ⟨hharm, herror⟩ | ⟨hharm, s₁, packet, htakes, hbuff, hok⟩
  · exact .inl ⟨fun hx => hharm (hx.1 hstate), herror⟩
  · obtain ⟨htaken, hgiven, hread, hkey, hsocket, hdead⟩ := s₁.stopped_spec packet
    refine .inr ⟨⟨fun _ => hharm, fun hx => absurd hx hne⟩, _, hok, ⟨?_, ?_, fun _ => ?_,
      fun hx => absurd hx hne⟩, ?_, fun _ => ?_⟩
    · rw [htaken, htakes.taken, hexposed]
    · rw [hgiven, htakes.given, if_pos hstate, hexposed]
    · exact ⟨hread.trans hbuff, fun hb => hdead (hread ▸ hb)⟩
    · exact hkey ▸ htakes.valid h.valid
    · exact hsocket.trans (htakes.socket.trans hsock)

theorem waiting_spec (env : Env) (h : Sound s) (hstate : s.m_state = NET_STATE_WAITING_SEED) :
    (¬s.Harmless env ∧ ∃ e, s.dispatch env = .error e ∧ e ≠ .endless) ∨
    (s.Harmless env ∧ ∃ s', s.dispatch env = .ok s' ∧ Handles s s' ∧ Sound s') := by
  have hne : s.m_state ≠ NET_STATE_CONNECTED := by rw [hstate]; decide
  have hexposed : s.exposed = (cutter.pieces s.m_readBuff).take 1 := by
    rw [exposed, if_neg hne, if_pos hstate]
  have hsock := h.socket (by rw [hstate]; decide)
  rcases dispatch_waiting env h.valid hsock hstate with
    ⟨hw, packet, hok⟩ | ⟨hw, hl, herror⟩ | ⟨hw, hl, s', hok, htakes, hbuff⟩
  · obtain ⟨htaken, hgiven, hread, hkey, hsocket, hdead⟩ := s.stopped_spec packet
    have hnone : s.exposed = [] := by rw [hexposed, Cutter.pieces_of_not_whole hw, List.take_nil]
    refine .inr ⟨⟨fun hx => absurd hx hne, fun _ p hp => ?_⟩, _, hok, ⟨?_, ?_,
      fun hx => absurd hx hne, fun _ => ⟨fun hx => absurd hx hw, fun _ => hread, hdead⟩⟩, ?_,
      fun _ => hsocket.trans hsock⟩
    · rw [hnone] at hp
      cases hp
    · rw [htaken, hnone, List.append_nil]
    · rw [hgiven, if_neg hne, List.append_nil]
    · exact hkey ▸ h.valid
  · have hone : s.exposed = [front s.m_readBuff] := by
      rw [hexposed, Cutter.pieces_of_whole hw, List.take_succ_cons, List.take_zero]
      rfl
    refine .inl ⟨fun hx => hx.2 hstate (front s.m_readBuff) ?_ hl, _, herror, nofun⟩
    rw [hone]
    exact List.mem_singleton_self _
  · have hone : s.exposed = [front s.m_readBuff] := by
      rw [hexposed, Cutter.pieces_of_whole hw, List.take_succ_cons, List.take_zero]
      rfl
    refine .inr ⟨⟨fun hx => absurd hx hne, fun _ p hp => ?_⟩, s', hok, ⟨?_, ?_,
      fun hx => absurd hx hne, fun _ => ⟨fun _ => hbuff, fun hx => absurd hw hx,
        fun hb => absurd hb hw.1⟩⟩, htakes.valid h.valid, fun _ => htakes.socket.trans hsock⟩
    · rw [hone] at hp
      rwa [List.mem_singleton.mp hp]
    · rw [htakes.taken, hone]
    · rw [htakes.given, if_neg hne]

/-- **Every state.** The round comes to its end exactly if no packet that it takes does harm, and
then it handles all of them. -/
theorem dispatch_spec (env : Env) (h : Sound s) :
    (¬s.Harmless env ∧ ∃ e, s.dispatch env = .error e ∧ e ≠ .endless) ∨
    (s.Harmless env ∧ ∃ s', s.dispatch env = .ok s' ∧ Handles s s' ∧
      (s'.m_state ≠ NET_STATE_DEAD → Sound s')) := by
  have hlive : ((¬s.Harmless env ∧ ∃ e, s.dispatch env = .error e ∧ e ≠ .endless) ∨
      (s.Harmless env ∧ ∃ s', s.dispatch env = .ok s' ∧ Handles s s' ∧ Sound s')) →
      (¬s.Harmless env ∧ ∃ e, s.dispatch env = .error e ∧ e ≠ .endless) ∨
      (s.Harmless env ∧ ∃ s', s.dispatch env = .ok s' ∧ Handles s s' ∧
        (s'.m_state ≠ NET_STATE_DEAD → Sound s')) := fun hx =>
    hx.imp_right fun ⟨hharm, s', hok, hhandles, hsound⟩ =>
      ⟨hharm, s', hok, hhandles, fun _ => hsound⟩
  cases hstate : s.m_state with
  | NET_STATE_CONNECTED => exact hlive (connected_spec env h hstate)
  | NET_STATE_WAITING_SEED => exact hlive (waiting_spec env h hstate)
  | NET_STATE_CONNECTING =>
    obtain ⟨s', hok, hs'⟩ := dispatch_connecting env (h.socket (by rw [hstate]; decide)) hstate
    rcases hs' with ⟨hdead, -, -, -, hevents⟩ | ⟨-, hsock, hkey, -, hevents⟩
    · obtain ⟨hharm, hhandles⟩ := idle_spec env s' (by rw [hstate]; decide)
        (by rw [hstate]; decide) ⟨_, hevents, by decide⟩
      exact .inr ⟨hharm, s', hok, hhandles, fun hne => absurd hdead hne⟩
    · obtain ⟨hharm, hhandles⟩ := idle_spec env s' (by rw [hstate]; decide)
        (by rw [hstate]; decide) ⟨[], hevents.trans (List.append_nil _).symm, by nofun⟩
      exact .inr ⟨hharm, s', hok, hhandles, fun _ => ⟨hkey ▸ h.valid, fun _ => hsock⟩⟩
  | NET_STATE_DEAD =>
    obtain ⟨hharm, hhandles⟩ := idle_spec env s.onDisconnect.cleared (by rw [hstate]; decide)
      (by rw [hstate]; decide) ⟨[.onDisconnect, .closed], List.append_assoc .., by decide⟩
    exact .inr ⟨hharm, _, dispatch_dead env (h.socket (by rw [hstate]; decide)) hstate, hhandles,
      fun _ => ⟨⟨h.valid.1, .inl rfl⟩, fun hne => absurd rfl hne⟩⟩
  | NET_STATE_ZERO =>
    obtain ⟨hharm, hhandles⟩ := idle_spec env s (by rw [hstate]; decide)
      (by rw [hstate]; decide) ⟨[], (List.append_nil _).symm, by nofun⟩
    refine .inr ⟨hharm, s, ?_, hhandles, fun _ => h⟩
    rw [dispatch, hstate]

theorem defProc_sound (env : Env) (h : Sound s) :
    (s.defProc env = .error .socket ∧ ∃ k, env.send k = .exception) ∨
    ∃ s₁, s.defProc env = .ok s₁ ∧ Sound s₁ ∧ s.process env = s₁.dispatch env := by
  have hprocess : ∀ {s₁}, s.defProc env = .ok s₁ → s.process env = s₁.dispatch env := by
    intro s₁ hs₁
    rw [process, hs₁]
    rfl
  by_cases hzero : s.m_state = NET_STATE_ZERO
  · have hidle := defProc_idle env (s := s) (by rw [hzero]; decide) (by rw [hzero]; decide)
    exact .inr ⟨s, hidle, h, hprocess hidle⟩
  · rcases defProc_spec env (h.socket hzero) with herror | ⟨s₁, d, c, hs₁, hwork, -, -⟩
    · exact .inl herror
    exact .inr ⟨s₁, hs₁, h.of_works (h.socket hzero) hwork, hprocess hs₁⟩

/-- What the user's thread does to the session. -/
theorem sendPacket_works {packet : CmdPacket} {r : Bool} (h : Sound s)
    (hsend : s.sendPacket env packet false false = .ok (r, s')) :
    s' = s ∨ s.m_clientSocket = true ∧ ∃ d, Works True s s' d [] := by
  by_cases hstate : s.m_state = NET_STATE_CONNECTED
  · have hsock := h.socket (by rw [hstate]; decide)
    cases hfill : s.fill packet (nextSeq s.m_seq) false with
    | error e =>
      rw [sendPacket, if_neg (not_not_intro hstate), hfill] at hsend
      cases hsend
    | ok pkt =>
      rw [sendPacket_push env hstate hfill] at hsend
      obtain ⟨-, rfl⟩ := Prod.mk.inj (Except.ok.inj hsend)
      exact .inr ⟨hsock, _, pushed_works True s pkt⟩
  · rw [sendPacket_refused env _ _ _ hstate] at hsend
    exact .inl (Prod.mk.inj (Except.ok.inj hsend)).2.symm

end TcpSession

namespace Listener

open TcpSession

variable {l l' : Listener}

theorem sound_init (h : Init l) : Sound l.session := by
  obtain ⟨env, s, hvalid, rfl⟩ := h
  exact ⟨hvalid, fun _ => rfl⟩

theorem sound_step (h : l.running = true → Sound l.session) {a : Action}
    (hs : l.step a = some l') : l'.running = true → Sound l'.session := by
  intro hrun'
  cases a with
  | process env =>
    simp only [step] at hs
    split at hs
    · next hrun =>
      rcases defProc_sound env (h hrun) with ⟨herror, -⟩ | ⟨s₁, -, hsound, hprocess⟩
      · rw [process, herror] at hs
        cases hs
      rw [hprocess] at hs
      rcases dispatch_spec env hsound with ⟨-, e, he, -⟩ | ⟨-, s', hok, -, hsound'⟩
      · rw [he] at hs
        cases hs
      · rw [hok] at hs
        obtain rfl := Option.some.inj hs
        exact hsound' (of_decide_eq_true hrun')
    · cases hs
  | sendPacket env packet =>
    cases hsend : l.session.sendPacket env packet false false with
    | error e =>
      simp only [step, hsend] at hs
      cases hs
    | ok r =>
      simp only [step, hsend] at hs
      obtain rfl := Option.some.inj hs
      have hsound := h hrun'
      rcases sendPacket_works hsound hsend with hsame | ⟨hsock, d, hwork⟩
      · exact hsame ▸ hsound
      · exact hsound.of_works hsock hwork

theorem sound_reach (h : Reach Init step anyStep l) (hrun : l.running = true) : Sound l.session :=
  h.invariant (fun l => l.running = true → Sound l.session) (fun _ hi _ => sound_init hi)
    (fun _ _ _ hi _ hs => sound_step hi hs) hrun

/-- **What the thread survives.** `DefProc` raises no exception but what `Send` throws. Behind it no
loop goes on for ever, and the round handles every packet that it takes exactly if none of them does
harm. -/
theorem survives_iff (h : Reach Init step anyStep l) (hrun : l.running = true) (env : Env) :
    (l.session.defProc env = .error .socket ∧ ∃ k, env.send k = .exception) ∨
    ∃ s, l.session.defProc env = .ok s ∧ l.session.process env = s.dispatch env ∧
      s.dispatch env ≠ .error .endless ∧
      ((∃ s', s.dispatch env = .ok s' ∧ Handles s s') ↔ s.Harmless env) := by
  rcases defProc_sound env (sound_reach h hrun) with herror | ⟨s, hdef, hsound, hprocess⟩
  · exact .inl herror
  refine .inr ⟨s, hdef, hprocess, ?_⟩
  rcases dispatch_spec env hsound with ⟨hharm, e, he, hne⟩ | ⟨hharm, s', hok, hhandles, -⟩
  · refine ⟨fun hx => hne (Except.error.inj (he.symm.trans hx)), ?_, fun hx => absurd hx hharm⟩
    rintro ⟨s', hok, -⟩
    rw [he] at hok
    cases hok
  · refine ⟨fun hx => ?_, fun _ => hharm, fun _ => ⟨s', hok, hhandles⟩⟩
    rw [hok] at hx
    cases hx

/-- The packet that sets the seed does no harm. -/
theorem survives_seed :
    ∃ s, waiting.session.defProc (round [84, 0, 1, 0, 6, 0, 1, 0, 0, 0, 7]) = .ok s ∧
      ∃ s', s.dispatch (round [84, 0, 1, 0, 6, 0, 1, 0, 0, 0, 7]) = .ok s' ∧ Handles s s' := by
  rcases survives_iff reach_waiting (by decide +kernel)
    (round [84, 0, 1, 0, 6, 0, 1, 0, 0, 0, 7]) with ⟨-, k, hk⟩ | ⟨s, hdef, -, -, hiff⟩
  · cases hk
  refine ⟨s, hdef, hiff.mpr ?_⟩
  have hharm : (waiting.session.defProc (round [84, 0, 1, 0, 6, 0, 1, 0, 0, 0, 7])).toOption.any
      (fun s => decide (s.Harmless (round [84, 0, 1, 0, 6, 0, 1, 0, 0, 0, 7]))) = true := by
    decide +kernel
  rw [hdef] at hharm
  exact of_decide_eq_true hharm

/-- An encrypted packet of 17 bytes that comes before the seed. -/
def early : Bytes := [81, 0, 1, 0, 17] ++ List.replicate 17 0

/-- **A packet that is encrypted before there is a key raises an exception.** -/
theorem early_raises :
    ¬∀ l, Reach Init step anyStep l → l.running = true → ∀ env,
      ∃ s', l.session.process env = .ok s' := by
  intro h
  obtain ⟨s', hs'⟩ := h waiting reach_waiting (by decide +kernel) (round early)
  have hnone : (waiting.session.process (round early)).toOption = none := by decide +kernel
  rw [hs'] at hnone
  cases hnone

end Listener

end GhNet.Network
