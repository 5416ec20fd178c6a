import GhNet.Lobby.Links

/-!
# What the lobby sends

In every lobby reached a player sits in a slot of the service and its packet has the default size.
So a packet that a player writes and sends is handed to `IOService::send` as it was written, behind
its length.
-/

namespace GhNet.Lobby

open GhNet GhNet.Net

/-! ## Slots and packets -/

namespace Board

variable {b : Board}

/-- The slot and the size of the packet of each player. -/
def gear (b : Board) : List (Nat × Nat) := b.seats.map fun s => (s.index, s.room)

theorem lasting_gear : Lasting fun s => (s.index, s.room) := ⟨fun _ _ _ => rfl, fun _ => rfl⟩

/-- Players come with a slot and keep it. -/
theorem gear_step (m : Move) : (b.step m).gear = b.gear ∨
    ∃ index serial, m = .join index serial ∧
      (b.step m).gear = b.gear ++ [(index, DEFAULT_CMD_PACKET_SIZE)] :=
  lasting_gear.step m

end Board

/-- The player sits in a slot of the service and has a packet of the default size. -/
def GHS_Player.Equipped (player : GHS_Player) : Prop :=
  player.m_index < Iocp.MAX_PEER_NUM ∧ player.m_packet.m_nMaxSize = DEFAULT_CMD_PACKET_SIZE

/-- **The players of every lobby reached are equipped.** -/
theorem Reachable.equipped {l : GHS_Lobby} (hr : Reachable l) :
    ∀ player ∈ l.players, player.Equipped := by
  have hgear : ∀ e ∈ l.board.gear, e.1 < Iocp.MAX_PEER_NUM ∧ e.2 = DEFAULT_CMD_PACKET_SIZE := by
    refine hr.invariant (fun l => ∀ e ∈ l.board.gear,
      e.1 < Iocp.MAX_PEER_NUM ∧ e.2 = DEFAULT_CMD_PACKET_SIZE) ?_ ?_
    · rintro l rfl e he
      exact absurd he List.not_mem_nil
    · intro l a l' hinv hslot h e he
      rw [step_board h] at he
      rcases Board.gear_step (b := l.board) (meaning a) with hsame | ⟨index, serial, hm, hnew⟩
      · rw [hsame] at he
        exact hinv e he
      · rw [hnew] at he
        rcases List.mem_append.mp he with hold | hlast
        · exact hinv e hold
        · rw [List.mem_singleton.mp hlast]
          refine ⟨?_, rfl⟩
          -- the service hands out slots below the maximum
          obtain ⟨call, env⟩ := a
          cases call with
          | onCon index' serial' =>
            rw [meaning] at hm
            obtain ⟨rfl, rfl⟩ := Move.join.inj hm
            exact hslot
          | onDisCon => cases hm
          | onRead => cases hm
          | process => cases hm
  intro player hplayer
  exact hgear (player.m_index, player.m_packet.m_nMaxSize) (List.mem_map.mpr
    ⟨player.seat, List.mem_map.mpr ⟨player, hplayer, rfl⟩, rfl⟩)

/-! ## Badges -/

/-- What a player is known by and which side it plays. -/
structure Badge where
  index : Nat
  serial : Nat
  room : Nat
  bSer : Bool
  bottom : Bool

/-- What of a player the sending depends on. -/
def GHS_Player.badge (p : GHS_Player) : Badge :=
  ⟨p.m_index, p.m_serial, p.m_packet.m_nMaxSize, p.m_bSer, p.m_bottom⟩

namespace GHS_Lobby

variable {l l' : GHS_Lobby} {p : PlayerPtr}

/-- What of the player behind a pointer the sending depends on. -/
def badge (l : GHS_Lobby) (p : PlayerPtr) : Option Badge := l.players[p]?.map GHS_Player.badge

theorem badge_eq {player : GHS_Player} (h : l.players[p]? = some player) :
    l.badge p = some player.badge := by rw [badge, h, Option.map_some]

/-- Who has a badge is a player. -/
theorem exists_player {b : Badge} (h : l.badge p = some b) :
    ∃ player, l.players[p]? = some player ∧ player.badge = b := Option.map_eq_some_iff.mp h

/-- An update of one player is seen at its badge only. -/
theorem badge_modifyPlayer {f : GHS_Player → GHS_Player} {u : Badge → Badge}
    (hf : ∀ player, (f player).badge = u player.badge) (r : PlayerPtr) :
    (l.modifyPlayer p f).badge r = if p = r then (l.badge r).map u else l.badge r := by
  unfold badge modifyPlayer
  dsimp only
  split
  · next hpr =>
    subst hpr
    rw [List.getElem?_modify_eq, Option.map_map]
    show Option.map GHS_Player.badge (Option.map f l.players[p]?) = _
    rw [Option.map_map]
    exact congrArg (fun g => Option.map g l.players[p]?) (funext hf)
  · next hpr => rw [List.getElem?_modify_ne _ _ hpr]

theorem badge_modifyPlayer_same {f : GHS_Player → GHS_Player}
    (hf : ∀ player, l.players[p]? = some player → (f player).badge = player.badge) :
    (l.modifyPlayer p f).badge = l.badge := by
  funext r
  unfold badge modifyPlayer
  dsimp only
  rw [← List.getElem?_map, ← List.getElem?_map, map_modify_same hf]

/-! ## Sending -/

/-- The buffer that was reset takes a header and a body of at most `65535` bytes. -/
theorem frameInto_spec (b : SockBuf) {header body : Bytes} (hheader : header.length = 2)
    (hbody : body.length < 2 ^ 16) :
    ∃ b', frameInto header body b.reset = .ok (header ++ body) b' := by
  have h0 : b.reset.m_write_index = 0 := rfl
  obtain ⟨b₁, h1, hv1, hc1, -, hw1⟩ := SockBuf.ensureWritableBytes_spec (SockBuf.valid_reset b)
    (show b.reset.m_write_index + (body.length + 2) < 2 ^ 31 by omega)
  obtain ⟨b₂, h2, hv2, hc2, hw2⟩ := SockBuf.apendBuf_spec hv1
    (show b₁.m_write_index + header.length < 2 ^ 31 by omega)
  obtain ⟨b₃, h3, hv3, hc3, hw3⟩ := SockBuf.apendBuf_spec hv2
    (show b₂.m_write_index + body.length < 2 ^ 31 by omega)
  have hcontent : b₃.content = header ++ body := by
    rw [hc3, hc2, hc1, SockBuf.content_reset, List.nil_append]
  have hslice : slice b₃.m_buf.val b₃.m_read_index b₃.content.length = header ++ body := by
    rw [hv3.length_content, ← hcontent]
    rfl
  refine ⟨b₃, ?_⟩
  rw [frameInto, bind_ok h1, bind_ok h2, bind_ok h3, bind_ok (SockBuf.readableBytes_eq hv3),
    bind_ok get_eq, hslice]
  rfl

/-- **`GHS_Lobby::send`** hands on the length of the packet and then the packet. -/
theorem send_spec (serial : Nat) (env : Env) {index : Nat} {packet : CmdPacket}
    (hindex : index < Iocp.MAX_PEER_NUM) (hsize : packet.m_nLen < 2 ^ 16) :
    ∃ l', l.send index serial packet env = some l' ∧ l'.players = l.players ∧
      l'.sent = l.sent ++
        [⟨index, serial, be16 packet.m_nLen ++ packet.getData packet.m_nLen env.behind⟩] := by
  have hne : index ≠ 2 ^ 32 - 1 := by
    unfold Iocp.MAX_PEER_NUM at hindex
    omega
  have hlen : packet.getDataSize % 2 ^ 16 = packet.m_nLen := Nat.mod_eq_of_lt hsize
  obtain ⟨b, hb⟩ := frameInto_spec l.m_writeBuff (length_be16 packet.m_nLen)
    (show (packet.getData packet.m_nLen env.behind).length < 2 ^ 16 by
      rw [CmdPacket.getData, length_fetch]; exact hsize)
  unfold send
  rw [if_neg hne, hlen]
  dsimp only
  rw [hb]
  exact ⟨_, rfl, rfl, rfl⟩

end GHS_Lobby

namespace GHS_Player

variable {l : GHS_Lobby} {p : PlayerPtr} {player : GHS_Player}

/-- **`GHS_Player::send`** sends to the player's slot and serial. -/
theorem send_spec (packet : CmdPacket) (env : Env) (hp : l.players[p]? = some player)
    (hindex : player.m_index < Iocp.MAX_PEER_NUM) (hsize : packet.m_nLen < 2 ^ 16) :
    ∃ l', send p packet env l = some l' ∧ l'.badge = l.badge ∧
      l'.sent = l.sent ++ [⟨player.m_index, player.m_serial,
        be16 packet.m_nLen ++ packet.getData packet.m_nLen env.behind⟩] := by
  obtain ⟨l₁, h1, hplayers, hsent⟩ :=
    GHS_Lobby.send_spec (l := l) player.m_serial env hindex hsize
  have hbadge : ((l₁.getTickCount env).2.modifyPlayer p
      (withSendTime (l₁.getTickCount env).1)).badge = l₁.badge :=
    GHS_Lobby.badge_modifyPlayer_same fun _ _ => rfl
  refine ⟨(l₁.getTickCount env).2.modifyPlayer p (withSendTime (l₁.getTickCount env).1), ?_,
    hbadge.trans ?_, hsent⟩
  · unfold send
    rw [hp]
    show (l.send player.m_index player.m_serial packet env).bind _ = _
    rw [h1]
    rfl
  · unfold GHS_Lobby.badge
    rw [hplayers]

/-- What a player has written into its own packet is what is sent. -/
theorem sendOwn_spec (write : GHS_Player → CmdPacket → CmdPacket) (bytes : Bytes) (env : Env)
    (hp : l.players[p]? = some player) (hindex : player.m_index < Iocp.MAX_PEER_NUM)
    (hwriting : (write player player.m_packet.beginWrite).Writing)
    (hwritten : (write player player.m_packet.beginWrite).written = bytes)
    (hroom : (write player player.m_packet.beginWrite).m_nMaxSize = player.m_packet.m_nMaxSize)
    (hsize : bytes.length < 2 ^ 16) :
    ∃ l', sendOwn p write env l = some l' ∧ l'.badge = l.badge ∧ l'.sent = l.sent ++
      [⟨player.m_index, player.m_serial, be16 bytes.length ++ bytes⟩] := by
  have hlen : (write player player.m_packet.beginWrite).m_nLen = bytes.length := by
    rw [← hwritten, hwriting.length_written]
  have hp' : (l.modifyPlayer p (withPacket (write player player.m_packet.beginWrite))).players[p]?
      = some (player.withPacket (write player player.m_packet.beginWrite)) := by
    show (l.players.modify p _)[p]? = _
    rw [List.getElem?_modify_eq, hp]
    rfl
  obtain ⟨l', h, hbadge, hsent⟩ := send_spec (write player player.m_packet.beginWrite) env hp'
    hindex (by rw [hlen]; exact hsize)
  rw [CmdPacket.getData_written hwriting.fits, hwritten, hlen] at hsent
  refine ⟨l', ?_, hbadge.trans (GHS_Lobby.badge_modifyPlayer_same fun player' hplayer' => ?_),
    hsent⟩
  · unfold sendOwn
    rw [hp]
    exact h
  · obtain rfl := Option.some.inj (hp.symm.trans hplayer')
    simp only [badge, withPacket, hroom]

/-- The packet of an equipped player has room for the fixed messages. -/
theorem Equipped.write (h : player.Equipped) {packet : CmdPacket} {bytes : Bytes} (data : Bytes)
    (hw : packet.Writing ∧ packet.written = bytes)
    (hsize : packet.m_nMaxSize = player.m_packet.m_nMaxSize)
    (hlen : bytes.length + data.length ≤ DEFAULT_CMD_PACKET_SIZE) :
    (packet.writeData data).2.Writing ∧ (packet.writeData data).2.written = bytes ++ data := by
  obtain ⟨hw, rfl⟩ := hw
  rw [hw.length_written, ← h.2, ← hsize] at hlen
  obtain ⟨packet', heq, hw', hwritten, -, -⟩ := CmdPacket.writeData_spec hw hlen
  rw [heq]
  exact ⟨hw', hwritten⟩

/-- `PROTO_S_GameInit` has nothing behind its number. -/
theorem sendGameInit_spec (env : Env) (hp : l.players[p]? = some player) (h : player.Equipped) :
    ∃ l', sendGameInit p env l = some l' ∧ l'.badge = l.badge ∧
      l'.sent = l.sent ++ [⟨player.m_index, player.m_serial, [0, 2, 0, 3]⟩] := by
  obtain ⟨hw, hwritten⟩ := h.write (be16 PROTO_S_GameInit)
    ⟨CmdPacket.writing_beginWrite player.m_packet, CmdPacket.written_beginWrite _⟩ rfl (by decide)
  unfold sendGameInit
  exact sendOwn_spec _ [0, 3] env hp h.1 hw hwritten (CmdPacket.m_nMaxSize_writeData _ _)
    (by decide)

/-- The body of `PROTO_S_GameStart`. -/
def startBody (bSer bottom : Bool) : Bytes := [0, 5, boolByte bSer, boolByte bottom]

/-- **`PROTO_S_GameStart`** tells a player which side it plays. -/
theorem sendGameStart_spec (env : Env) (hp : l.players[p]? = some player) (h : player.Equipped) :
    ∃ l', sendGameStart p env l = some l' ∧ l'.badge = l.badge ∧
      l'.sent = l.sent ++ [⟨player.m_index, player.m_serial,
        be16 4 ++ startBody player.m_bSer player.m_bottom⟩] := by
  have hcmd := h.write (be16 PROTO_S_GameStart)
    ⟨CmdPacket.writing_beginWrite player.m_packet, CmdPacket.written_beginWrite _⟩ rfl (by decide)
  have hser := h.write [boolByte player.m_bSer] hcmd (CmdPacket.m_nMaxSize_writeData _ _)
    (Nat.le_of_ble_eq_true rfl)
  have hbottom := h.write [boolByte player.m_bottom] hser
    ((CmdPacket.m_nMaxSize_writeData _ _).trans (CmdPacket.m_nMaxSize_writeData _ _))
    (Nat.le_of_ble_eq_true rfl)
  have hroom := (CmdPacket.m_nMaxSize_writeData [boolByte player.m_bottom] _).trans
    ((CmdPacket.m_nMaxSize_writeData [boolByte player.m_bSer] _).trans
      (CmdPacket.m_nMaxSize_writeData (be16 PROTO_S_GameStart) player.m_packet.beginWrite))
  obtain ⟨l', heq, hbadge, hsent⟩ := sendOwn_spec (l := l) writeGameStart
    (startBody player.m_bSer player.m_bottom) env hp h.1 hbottom.1 hbottom.2 hroom
    (show 4 < 2 ^ 16 by decide)
  exact ⟨l', heq, hbadge, hsent⟩

/-- The two packets with a time in them. -/
theorem sendTime_spec (cmd : Nat) (time : UInt32) (env : Env) (hp : l.players[p]? = some player)
    (h : player.Equipped) :
    ∃ l', sendTime p cmd time env l = some l' ∧ l'.badge = l.badge ∧
      l'.sent = l.sent ++ [⟨player.m_index, player.m_serial,
        be16 6 ++ (be16 cmd ++ CmdPacket.be32 time)⟩] := by
  have hcmd := h.write (be16 cmd)
    ⟨CmdPacket.writing_beginWrite player.m_packet, CmdPacket.written_beginWrite _⟩ rfl
    (show 0 + 2 ≤ DEFAULT_CMD_PACKET_SIZE by decide)
  have htime := h.write (CmdPacket.be32 time) hcmd (CmdPacket.m_nMaxSize_writeData _ _)
    (show 2 + 4 ≤ DEFAULT_CMD_PACKET_SIZE by decide)
  have hroom := (CmdPacket.m_nMaxSize_writeData (CmdPacket.be32 time) _).trans
    (CmdPacket.m_nMaxSize_writeData (be16 cmd) player.m_packet.beginWrite)
  exact sendOwn_spec (l := l) (fun _ packet => ((packet.writeUShort cmd).2.writeUInt time).2)
    (be16 cmd ++ CmdPacket.be32 time) env hp h.1 htime.1 htime.2 hroom
    (show 6 < 2 ^ 16 by decide)

end GHS_Player

end GhNet.Lobby
