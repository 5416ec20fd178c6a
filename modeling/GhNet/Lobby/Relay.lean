import GhNet.Lobby.Sending

/-!
# Relaying

A message of a player to its opponent is copied into a packet and sent on. `BeginWrite` sets the
packet's size even if the copy failed, so the opponent gets the message exactly if its size is one
that a packet can have. A longer one is replaced by what happens to be in memory.
-/

namespace GhNet.Lobby

open GhNet GhNet.Net

namespace GHS_Player

variable {l : GHS_Lobby} {env : Env} {p q : PlayerPtr} {player : GHS_Player}

/-- The copy of a message. -/
def copyOf (body : Bytes) (env : Env) : CmdPacket :=
  (CmdPacket.new (env.memory 1)).beginWriteCopy body body.length (env.memory 2)

/-- A relayed message goes to the opponent's slot: its length, and what is fetched from the copy. -/
theorem relay_spec (env : Env) {packet : CmdPacket} {body : Bytes}
    (hbuf : packet.getReadData = some body) (hsize : packet.getDataSize = body.length)
    (hq : l.players[q]? = some player) (hindex : player.m_index < Iocp.MAX_PEER_NUM)
    (hlen : body.length < 2 ^ 16) :
    ∃ l', relay packet q env l = some l' ∧ l'.badge = l.badge ∧
      l'.sent = l.sent ++ [⟨player.m_index, player.m_serial,
        be16 body.length ++ (copyOf body env).getData body.length env.behind⟩] := by
  obtain ⟨l', h, hbadge, hsent⟩ := send_spec (copyOf body env) env hq hindex hlen
  refine ⟨l', ?_, hbadge, hsent⟩
  unfold relay
  rw [hbuf, hsize]
  exact h

/-- What `recv` has read the command from still shows the whole message. -/
theorem readUShort_snd (body : Bytes) (packet : CmdPacket) :
    (packet.beginRead body body.length).readUShort.2.getReadData = some body ∧
      (packet.beginRead body body.length).readUShort.2.getDataSize = body.length := by
  show ((packet.beginRead body body.length).readData SHORT_SIZE).2.getReadData = some body ∧
    ((packet.beginRead body body.length).readData SHORT_SIZE).2.getDataSize = body.length
  unfold CmdPacket.readData
  split <;> exact ⟨rfl, rfl⟩

/-- The messages that are relayed. -/
def Relayed (cmd : Nat) : Prop := cmd = PROTO_Synch_Pos ∨ cmd = PROTO_C_GameShot

/-- Where messages with this number go: those of `p` to `q`. For `PROTO_C_GameShot` the code looks
at the game as well. -/
def RelaysTo (l : GHS_Lobby) (cmd : Nat) (p q : PlayerPtr) : Prop :=
  ∃ player, l.players[p]? = some player ∧ player.m_other = some q ∧
    (cmd = PROTO_C_GameShot → player.m_game ≠ none)

/-- `recv` relays such a message of a player to where it goes. -/
theorem recv_relayed {packet : CmdPacket} {cmd : Nat} (hto : RelaysTo l cmd p q)
    (hcmd : Relayed cmd) (hread : packet.readUShort.1.getD env.cmd = cmd) :
    ∃ l₁ : GHS_Lobby, l₁.board = l.board ∧ l₁.sent = l.sent ∧
      recv p packet env l = relay packet.readUShort.2 q env l₁ := by
  obtain ⟨player, hp, hother, hgame⟩ := hto
  refine ⟨(l.getTickCount env).2.modifyPlayer p (withRecvTime (l.getTickCount env).1), ?_, rfl, ?_⟩
  · rw [GHS_Lobby.board_withRecvTime, GHS_Lobby.board_getTickCount]
  · have hp' : ((l.getTickCount env).2.modifyPlayer p
        (withRecvTime (l.getTickCount env).1)).players[p]?
        = some (player.withRecvTime (l.getTickCount env).1) := by
      show (l.players.modify p _)[p]? = _
      rw [List.getElem?_modify_eq, hp]
      rfl
    unfold recv
    dsimp only
    rw [hp']
    show (if _ then _ else _ : Option GHS_Lobby) = _
    rcases hcmd with rfl | rfl
    · rw [hread, if_neg (by decide), if_neg (by decide), if_pos rfl]
      simp only [withRecvTime, hother]
    · obtain ⟨g, hg⟩ := Option.ne_none_iff_exists'.mp (hgame rfl)
      rw [hread, if_neg (by decide), if_neg (by decide), if_neg (by decide), if_neg (by decide),
        if_neg (by decide), if_neg (by decide), if_pos rfl]
      simp only [withRecvTime, hg, hother]
      rfl

end GHS_Player

/-- Players on equal boards have equal seats. -/
theorem exists_player_of_board_eq {l l₁ : GHS_Lobby} {q : PlayerPtr} {player : GHS_Player}
    (hboard : l₁.board = l.board) (hq : l.players[q]? = some player) :
    ∃ player₁, l₁.players[q]? = some player₁ ∧ player₁.m_index = player.m_index ∧
      player₁.m_serial = player.m_serial := by
  have hseat : (l₁.players.map GHS_Player.seat)[q]? = some player.seat := by
    rw [show l₁.players.map GHS_Player.seat = l.players.map GHS_Player.seat from
      congrArg Board.seats hboard, List.getElem?_map, hq]
    rfl
  rw [List.getElem?_map] at hseat
  obtain ⟨player₁, h1, hseq⟩ := Option.map_eq_some_iff.mp hseat
  exact ⟨player₁, h1, congrArg Seat.index hseq, congrArg Seat.serial hseq⟩

section Message

variable {l : GHS_Lobby} (hr : Reachable l) {serial : Nat} {p q : PlayerPtr}
  {player opponent : GHS_Player} (hfind : l.m_players.find serial = some (some p))
  (hp : l.players[p]? = some player) (hother : player.m_other = some q)
  (hq : l.players[q]? = some opponent)

include hr hfind hp hother hq

/-- What a step does with a message to the opponent: one call of `IOService::send`. -/
theorem step_relayed (body : Bytes) (env : Env) (hlen : body.length ≤ 65535)
    (hcmd : GHS_Player.Relayed (opcode body env)) :
    ∃ l', step l (.onRead serial body, env) = some l' ∧
      l'.sent = l.sent ++ [⟨opponent.m_index, opponent.m_serial, be16 body.length ++
        (GHS_Player.copyOf body env).getData body.length env.behind⟩] := by
  have hgame : player.m_game ≠ none := by
    rw [← GHS_Lobby.board_game hp]
    exact (Reachable.linked hr).game_of_other p q ((GHS_Lobby.board_other hp).trans hother)
  obtain ⟨hbuf, hsize⟩ := GHS_Player.readUShort_snd body (CmdPacket.new (env.memory 0))
  obtain ⟨l₁, hboard, hsent₁, hrecv⟩ := GHS_Player.recv_relayed
    ⟨player, hp, hother, fun _ => hgame⟩ hcmd
    (GHS_Lobby.readUShort_getD body env (CmdPacket.new (env.memory 0)))
  obtain ⟨opponent₁, hq₁, hindex, hserial⟩ := exists_player_of_board_eq hboard hq
  have hslot : opponent₁.m_index < Iocp.MAX_PEER_NUM := by
    rw [hindex]
    exact (hr.equipped opponent (List.mem_of_getElem? hq)).1
  obtain ⟨l', hrelay, -, hsent⟩ := GHS_Player.relay_spec env hbuf hsize hq₁ hslot
    (Nat.lt_succ_of_le hlen)
  rw [hindex, hserial, hsent₁] at hsent
  refine ⟨l', ?_, hsent⟩
  rw [step]
  unfold GHS_Lobby.onRead GHS_Lobby.getPlayer
  rw [hfind]
  exact hrecv.trans hrelay

/-- A message that is longer than a packet can be is not relayed as it is: memory can be found in
a state in which something else is sent. -/
theorem not_relayed_of_gt (body : Bytes) (hlen : body.length ≤ 65535)
    (hcmd : ∀ env, GHS_Player.Relayed (opcode body env))
    (hlong : MAX_CMD_PACKET_SIZE < body.length) :
    ∃ env, ∀ l', step l (.onRead serial body, env) = some l' →
      l'.sent ≠ l.sent ++ [⟨opponent.m_index, opponent.m_serial, be16 body.length ++ body⟩] := by
  -- a block whose first byte is not that of the message
  have hex : ∃ v : UInt8, body.head? ≠ some v := by
    by_cases h0 : body.head? = some 0
    · exact ⟨1, by rw [h0]; decide⟩
    · exact ⟨0, h0⟩
  obtain ⟨v, hv⟩ := hex
  refine ⟨{ Env.zero with memory := fun _ _ => v }, fun l' h hexact => ?_⟩
  obtain ⟨l'', h', hsent⟩ := step_relayed hr hfind hp hother hq body
    { Env.zero with memory := fun _ _ => v } hlen (hcmd _)
  obtain rfl := Option.some.inj (h.symm.trans h')
  rw [hexact, List.append_cancel_left_eq, List.singleton_inj, Sent.mk.injEq] at hsent
  have hbody := List.append_cancel_left hsent.2.2
  have hhead := CmdPacket.head?_getData_of_gt body hlong (Nat.zero_lt_of_lt hlong)
    (fun _ => v) (fun _ => v) Env.zero.behind
  exact hv ((congrArg List.head? hbody).trans hhead)

/-- **Exact relay.** The opponent is sent the message behind its length, and nobody else anything,
if and only if the message is not longer than a packet can be. -/
theorem relay_exact_iff (hi lo : UInt8) (rest : Bytes) (hlen : (hi :: lo :: rest).length ≤ 65535)
    (hcmd : GHS_Player.Relayed (be16Val hi lo)) :
    (∀ env, ∃ l', step l (.onRead serial (hi :: lo :: rest), env) = some l' ∧
        l'.sent = l.sent ++ [⟨opponent.m_index, opponent.m_serial,
          be16 (hi :: lo :: rest).length ++ (hi :: lo :: rest)⟩]) ↔
      (hi :: lo :: rest).length ≤ MAX_CMD_PACKET_SIZE := by
  constructor
  · intro hexact
    by_contra hlong
    obtain ⟨env, hnot⟩ := not_relayed_of_gt hr hfind hp hother hq (hi :: lo :: rest) hlen
      (fun _ => hcmd) (Nat.lt_of_not_le hlong)
    obtain ⟨l', h, hsent⟩ := hexact env
    exact hnot l' h hsent
  · intro hfits env
    obtain ⟨l', h, hsent⟩ := step_relayed hr hfind hp hother hq (hi :: lo :: rest) env hlen
      hcmd
    refine ⟨l', h, ?_⟩
    rw [hsent, GHS_Player.copyOf, CmdPacket.getData_beginWriteCopy hfits]

end Message

/-- The lobby in which two players play. -/
def playingLobby : GHS_Lobby := (runCalls playing).get playing_runs

theorem playingLobby_reachable : Reachable playingLobby :=
  reach_runCalls (by decide +kernel) playing_runs

theorem playing_first : playingLobby.players[0]?.isSome = true := by decide +kernel

theorem playing_second : playingLobby.players[1]?.isSome = true := by decide +kernel

theorem relay_exact_playing :
    (∀ env, ∃ l', step playingLobby (.onRead 0 [0, 10, 7], env) = some l' ∧
        l'.sent = playingLobby.sent ++ [⟨(playingLobby.players[1]?.get playing_second).m_index,
          (playingLobby.players[1]?.get playing_second).m_serial, be16 3 ++ [0, 10, 7]⟩]) ↔
      3 ≤ MAX_CMD_PACKET_SIZE :=
  relay_exact_iff playingLobby_reachable (p := 0) (q := 1) (by decide +kernel)
    (Option.some_get playing_first).symm (by decide +kernel) (Option.some_get playing_second).symm
    0 10 [7] (by decide) (Or.inl (by decide))

/-- **A long message is not relayed exactly.** -/
theorem long_message_not_relayed :
    ¬∀ (l : GHS_Lobby), Reachable l → ∀ serial p q player opponent,
      l.m_players.find serial = some (some p) → l.players[p]? = some player →
      player.m_other = some q → l.players[q]? = some opponent →
      ∀ (body : Bytes), 2 ≤ body.length → body.length ≤ 65535 →
      ∀ env, GHS_Player.Relayed (opcode body env) →
        ∃ l', step l (.onRead serial body, env) = some l' ∧
          l'.sent = l.sent ++
            [⟨opponent.m_index, opponent.m_serial, be16 body.length ++ body⟩] := by
  intro h
  have hlen : (0 :: 10 :: List.replicate 16383 (0 : UInt8)).length = 16385 := by
    rw [List.length_cons, List.length_cons, List.length_replicate]
  have hcmd : ∀ env, GHS_Player.Relayed (opcode (0 :: 10 :: List.replicate 16383 0) env) :=
    fun env => Or.inl (show be16Val 0 10 = 10 by decide)
  have hfind : playingLobby.m_players.find 0 = some (some 0) := by decide +kernel
  have hother : (playingLobby.players[0]?.get playing_first).m_other = some 1 := by decide +kernel
  obtain ⟨env, hnot⟩ := not_relayed_of_gt playingLobby_reachable hfind
    (Option.some_get playing_first).symm hother (Option.some_get playing_second).symm
    (0 :: 10 :: List.replicate 16383 0) (by rw [hlen]; decide) hcmd
    (by rw [hlen]; decide)
  obtain ⟨l', hstep, hsent⟩ := h playingLobby playingLobby_reachable 0 0 1 _ _ hfind
    (Option.some_get playing_first).symm hother (Option.some_get playing_second).symm
    (0 :: 10 :: List.replicate 16383 0) (by rw [hlen]; decide) (by rw [hlen]; decide) env (hcmd env)
  exact hnot l' hstep hsent

end GhNet.Lobby
