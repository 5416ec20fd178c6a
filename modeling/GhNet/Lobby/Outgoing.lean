import GhNet.Lobby.Sending

/-!
# How the lobby addresses what it sends

Whatever happens, a message that the lobby hands to `IOService::send` is one frame, the length of a
body and the body, for the slot and the serial of a player. Players keep both.
-/

namespace GhNet.Lobby

open GhNet GhNet.Net

/-- One frame: the length of a body and the body. -/
def Frame (bytes : Bytes) : Prop :=
  ∃ body : Bytes, bytes = be16 body.length ++ body ∧ body.length < 2 ^ 16

/-- The slot and the serial of a player. -/
def GHS_Player.handle (p : GHS_Player) : Nat × Nat := (p.m_index, p.m_serial)

/-- The connections of the players that were made. -/
def GHS_Lobby.handles (l : GHS_Lobby) : List (Nat × Nat) := l.players.map GHS_Player.handle

/-- Players have kept their handles, and frames have been sent to some of them. -/
structure Mails (l l' : GHS_Lobby) : Prop where
  handles : l'.handles = l.handles
  sent : ∃ out, l'.sent = l.sent ++ out ∧
    ∀ m ∈ out, Frame m.bytes ∧ (m.index, m.serial) ∈ l.handles

namespace Mails

variable {l l₁ l' : GHS_Lobby} {env : Env} {p : PlayerPtr}

theorem silent (hplayers : l'.handles = l.handles) (hsent : l'.sent = l.sent) : Mails l l' :=
  ⟨hplayers, [], by rw [hsent, List.append_nil], nofun⟩

theorem refl (l : GHS_Lobby) : Mails l l := silent rfl rfl

theorem trans (h : Mails l l₁) (h' : Mails l₁ l') : Mails l l' := by
  obtain ⟨out, hsent, hout⟩ := h.sent
  obtain ⟨out', hsent', hout'⟩ := h'.sent
  refine ⟨h'.handles.trans h.handles, out ++ out', ?_, fun m hm => ?_⟩
  · rw [hsent', hsent, List.append_assoc]
  · rcases List.mem_append.mp hm with hm | hm
    · exact hout m hm
    · exact h.handles ▸ hout' m hm

theorem modifyPlayer {f : GHS_Player → GHS_Player} (hf : ∀ q, (f q).handle = q.handle) :
    Mails l (l.modifyPlayer p f) := by
  refine silent ?_ rfl
  unfold GHS_Lobby.handles GHS_Lobby.modifyPlayer
  exact map_modify_same fun q _ => hf q

theorem getTickCount (l : GHS_Lobby) : Mails l (l.getTickCount env).2 := silent rfl rfl

/-- **`GHS_Lobby::send`** sends one frame, if any. -/
theorem lobby_send {index serial : Nat} {packet : CmdPacket}
    (hmem : (index, serial) ∈ l.handles) (h : l.send index serial packet env = some l') :
    Mails l l' := by
  unfold GHS_Lobby.send at h
  split at h
  · obtain rfl := Option.some.inj h
    exact refl l
  · dsimp only at h
    have hlen : packet.getDataSize % 2 ^ 16 < 2 ^ 16 := Nat.mod_lt _ (by decide)
    generalize packet.getDataSize % 2 ^ 16 = k at h hlen
    have hdata : (packet.getData k env.behind).length = k := by
      rw [CmdPacket.getData, length_fetch]
    obtain ⟨b, hb⟩ := GHS_Lobby.frameInto_spec l.m_writeBuff (length_be16 k)
      (show (packet.getData k env.behind).length < 2 ^ 16 by rw [hdata]; exact hlen)
    rw [hb] at h
    obtain rfl := Option.some.inj h
    refine ⟨rfl, [⟨index, serial, be16 k ++ packet.getData k env.behind⟩], rfl, fun m hm => ?_⟩
    rw [List.mem_singleton.mp hm]
    refine ⟨⟨packet.getData k env.behind, ?_, ?_⟩, hmem⟩
    · rw [hdata]
    · rw [hdata]
      exact hlen

theorem mem_handles {player : GHS_Player} (hp : l.players[p]? = some player) :
    (player.m_index, player.m_serial) ∈ l.handles :=
  List.mem_map.mpr ⟨player, List.mem_of_getElem? hp, rfl⟩

theorem send {packet : CmdPacket} (h : GHS_Player.send p packet env l = some l') : Mails l l' := by
  obtain ⟨player, hp, h⟩ := Option.bind_eq_some_iff.mp h
  obtain ⟨l₁, hsend, h⟩ := Option.bind_eq_some_iff.mp h
  obtain rfl := Option.some.inj h
  have hfirst : Mails l l₁ := lobby_send (mem_handles hp) hsend
  have hclock : Mails l₁ (l₁.getTickCount env).2 := getTickCount l₁
  exact hfirst.trans (hclock.trans (modifyPlayer fun _ => rfl))

theorem sendOwn {write : GHS_Player → CmdPacket → CmdPacket}
    (h : GHS_Player.sendOwn p write env l = some l') : Mails l l' := by
  obtain ⟨player, hp, h⟩ := Option.bind_eq_some_iff.mp h
  have hwrite : Mails l (l.modifyPlayer p
      (GHS_Player.withPacket (write player player.m_packet.beginWrite))) :=
    modifyPlayer fun _ => rfl
  exact hwrite.trans (send h)

theorem relay {packet : CmdPacket} (h : GHS_Player.relay packet p env l = some l') :
    Mails l l' := by
  obtain ⟨buf, -, h⟩ := Option.bind_eq_some_iff.mp h
  exact send h

theorem player_process (h : GHS_Player.process p env l = some l') : Mails l l' := by
  unfold GHS_Player.process at h
  dsimp only at h
  obtain ⟨player, -, h⟩ := Option.bind_eq_some_iff.mp h
  split at h
  · unfold GHS_Player.keepAlive at h
    dsimp only at h
    have hclock : Mails l ((l.getTickCount env).2.getTickCount env).2 := silent rfl rfl
    exact hclock.trans (sendOwn h)
  · obtain rfl := Option.some.inj h
    exact getTickCount l

theorem init {g : GamePtr} (h : GHS_Game.init g env l = some l') : Mails l l' := by
  obtain ⟨t, -, h⟩ := Option.bind_eq_some_iff.mp h
  obtain ⟨l₁, h1, h⟩ := Option.bind_eq_some_iff.mp h
  have hset : ∀ {l₀ : GHS_Lobby} {f : GHS_Player → GHS_Player} {q : PlayerPtr}, Mails l l₀ →
      (∀ q, (f q).handle = q.handle) → Mails l (l₀.modifyPlayer q f) :=
    fun hm hf => hm.trans (modifyPlayer hf)
  have hnote : ∀ {l₀ : GHS_Lobby} (n : Note), Mails l l₀ → Mails l (l₀.note n) :=
    fun _ hm => hm.trans (silent rfl rfl)
  have hfirst : Mails l l₁ := by
    refine Mails.trans (hnote _ ?_) (sendOwn h1)
    refine hset (hset (hset (hset (hset (hset (refl l) ?_) ?_) ?_) ?_) ?_) ?_ <;> exact fun _ => rfl
  exact (hnote _ hfirst).trans (sendOwn h)

theorem start {g : GamePtr} (h : GHS_Game.start g env l = some l') : Mails l l' := by
  obtain ⟨t, -, h⟩ := Option.bind_eq_some_iff.mp h
  obtain ⟨l₁, h1, h⟩ := Option.bind_eq_some_iff.mp h
  have hnote : ∀ {l₀ : GHS_Lobby} (n : Note), Mails l l₀ → Mails l (l₀.note n) :=
    fun _ hm => hm.trans (silent rfl rfl)
  exact (hnote _ ((hnote _ (refl l)).trans (sendOwn h1))).trans (sendOwn h)

theorem enqueue (h : l.enqueue p env = some l') : Mails l l' := by
  unfold GHS_Lobby.enqueue GHS_Lobby.makeGame at h
  split at h
  · next q r queue _ =>
    obtain ⟨l₁, hinit, h⟩ := Option.bind_eq_some_iff.mp h
    obtain rfl := Option.some.inj h
    have hfirst := init hinit
    exact ⟨hfirst.handles, hfirst.sent⟩
  · obtain rfl := Option.some.inj h
    exact silent rfl rfl

theorem gameReady (h : GHS_Player.gameReady p env l = some l') : Mails l l' := by
  unfold GHS_Player.gameReady at h
  dsimp only at h
  have hready : Mails l ((l.modifyPlayer p GHS_Player.withReady).note (.ready p)) :=
    (modifyPlayer (f := GHS_Player.withReady) fun _ => rfl).trans (silent rfl rfl)
  obtain ⟨player, -, h⟩ := Option.bind_eq_some_iff.mp h
  split at h
  · obtain rfl := Option.some.inj h
    exact hready
  · obtain ⟨opponent, -, h⟩ := Option.bind_eq_some_iff.mp h
    split at h
    · obtain ⟨game, -, h⟩ := Option.bind_eq_some_iff.mp h
      exact hready.trans (start h)
    · obtain rfl := Option.some.inj h
      exact hready

theorem recv {packet : CmdPacket} (h : GHS_Player.recv p packet env l = some l') :
    Mails l l' := by
  have hreceived : Mails l (l.received p env) :=
    (getTickCount l).trans (modifyPlayer fun _ => rfl)
  refine hreceived.trans ?_
  cases GHS_Lobby.recv_cases h with
  | ignored _ => exact refl _
  | answered _ _ h => exact sendOwn h
  | measured _ _ => exact (getTickCount _).trans (modifyPlayer fun _ => rfl)
  | relayed _ _ _ _ _ h => exact relay h
  | autoMatch _ h => exact enqueue h
  | unAutoMatch _ => exact silent rfl rfl
  | gameReady _ h => exact gameReady h

theorem process (h : l.process env = some l') : Mails l l' := by
  unfold GHS_Lobby.process at h
  generalize l.m_players.entries = entries at h
  induction entries generalizing l with
  | nil =>
    obtain rfl := Option.some.inj h
    exact refl l
  | cons e entries ih =>
    rw [List.foldlM_cons] at h
    obtain ⟨l₁, h1, h⟩ := Option.bind_eq_some_iff.mp h
    obtain ⟨player, -, h1⟩ := Option.bind_eq_some_iff.mp h1
    exact (player_process h1).trans (ih h)

end Mails

section Steps

variable {l l' : GHS_Lobby} {env : Env}

/-- Who comes has a handle of its own, and nothing is sent. -/
theorem step_onCon {index serial : Nat} (h : step l (.onCon index serial, env) = some l') :
    l'.handles = l.handles ++ [(index, serial)] ∧ l'.sent = l.sent := by
  rw [step] at h
  unfold GHS_Lobby.addPlayer at h
  split at h
  · cases h
  · obtain rfl := Option.some.inj h
    exact ⟨List.map_append, rfl⟩

theorem step_onDisCon {serial : Nat} (h : step l (.onDisCon serial, env) = some l') :
    l'.handles = l.handles ∧ l'.sent = l.sent := by
  obtain rfl := Option.some.inj h
  unfold GHS_Lobby.removePlayer
  split <;> exact ⟨rfl, rfl⟩

/-- **A call sends frames to players that there are.** -/
theorem step_mails {c : Call} (hc : ∀ index serial, c ≠ .onCon index serial)
    (h : step l (c, env) = some l') : Mails l l' := by
  cases c with
  | onCon index serial => exact absurd rfl (hc index serial)
  | onDisCon serial =>
    obtain ⟨hhandles, hsent⟩ := step_onDisCon h
    exact .silent hhandles hsent
  | onRead serial body =>
    rw [step] at h
    unfold GHS_Lobby.onRead GHS_Lobby.getPlayer at h
    cases hfind : l.m_players.find serial with
    | none =>
      rw [hfind] at h
      obtain rfl := Option.some.inj h
      exact .silent rfl rfl
    | some entry =>
      rw [hfind] at h
      cases entry with
      | none =>
        obtain rfl := Option.some.inj h
        exact .silent rfl rfl
      | some p => exact .recv h
  | process => exact .process h

end Steps

end GhNet.Lobby
