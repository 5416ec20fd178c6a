import GhNet.Lobby.Pairing
import GhNet.Lobby.Relay

/-!
# Who plays which side

`GHS_Game::init` makes its first player the server of the game and the one at the bottom, and its
second player neither; nothing else changes what a player has of these. So while the players are
paired, a player that has a game has the side that its game gives it, for good, and its opponent has
the other one. That side is what every `PROTO_S_GameStart` says.
-/

namespace GhNet.Lobby

open GhNet GhNet.Net

/-! ## Sides on the board -/

namespace Board

variable {b b' : Board} {p q r : PlayerPtr} {g : GamePtr} {t : GHS_Game}

/-- The side of a player: whether it is the first one of its game. -/
def side (b : Board) (p : PlayerPtr) : Option Bool :=
  (b.game p).bind fun g => b.tables[g]?.map fun t => decide (t.m_player1 = p)

theorem side_eq (hg : b.game p = some g) (ht : b.tables[g]? = some t) :
    b.side p = some (decide (t.m_player1 = p)) := by
  rw [side, hg, Option.bind_some, ht, Option.map_some]

theorem side_eq_none (hg : b.game p = none) : b.side p = none := by
  rw [side, hg, Option.bind_none]

theorem side_congr (htables : b'.tables = b.tables) (hgame : ∀ r, b'.game r = b.game r)
    (r : PlayerPtr) : b'.side r = b.side r := by
  rw [side, side, htables, hgame]

/-- Who has a game has a side. -/
theorem Linked.exists_side (hl : b.Linked) (hg : b.game p ≠ none) : ∃ s, b.side p = some s := by
  obtain ⟨g, hg⟩ := Option.ne_none_iff_exists'.mp hg
  obtain ⟨t, q, ht, -, -⟩ := hl.link p g hg
  exact ⟨_, side_eq hg ht⟩

/-- **Opponents play different sides.** -/
theorem Paired.side_ne (h : b.Paired) (hq : b.other p = some q) {s s' : Bool}
    (hs : b.side p = some s) (hs' : b.side q = some s') : s ≠ s' := by
  obtain ⟨hne, -, g, t, hgp, hgq, ht, hopp⟩ := h.opponent p q hq
  rw [side_eq hgp ht] at hs
  rw [side_eq hgq ht] at hs'
  rw [← Option.some.inj hs, ← Option.some.inj hs']
  rcases hopp with ⟨h1, -⟩ | ⟨-, h1⟩
  · rw [h1, decide_eq_true rfl, decide_eq_false hne.symm]
    decide
  · rw [h1, decide_eq_true rfl, decide_eq_false hne]
    decide

/-- A new game gives its players their sides. -/
theorem side_setUp (hl : b.Linked) (ht : b.Seated t) (r : PlayerPtr) :
    (b.setUp t).side r = if Plays t r then some (decide (t.m_player1 = r)) else b.side r := by
  unfold side
  rw [game_setUp ht, tables_setUp]
  split
  · rw [Option.bind_some, List.getElem?_concat_length, Option.map_some]
  · cases hg : b.game r with
    | none => rfl
    | some g =>
      obtain ⟨t', -, ht', -, -⟩ := hl.link r g hg
      rw [Option.bind_some, Option.bind_some, tables_append_old ht', ht']

/-- The sides and the games are the same. -/
def SameSides (b b' : Board) : Prop := b'.tables = b.tables ∧ ∀ r, b'.side r = b.side r

theorem sameSides_of_game (htables : b'.tables = b.tables) (hgame : ∀ r, b'.game r = b.game r) :
    SameSides b b' := ⟨htables, side_congr htables hgame⟩

/-- A game between two players that had no side has been set up. -/
structure Dealt (t : GHS_Game) (b b' : Board) : Prop where
  tables : b'.tables = b.tables ++ [t]
  different : t.m_player1 ≠ t.m_player2
  fresh : ∀ r, Plays t r → b.side r = none
  side : ∀ r, b'.side r = if Plays t r then some (decide (t.m_player1 = r)) else b.side r

theorem dealt_enqueue (hl : b.Linked) (h : b.Paired) (hp : p < b.seats.length)
    (hnot : p ∉ b.queue) (hother : b.other p = none) :
    SameSides b (b.enqueue p) ∨ ∃ t, Dealt t b (b.enqueue p) := by
  rcases enqueue_cases hl p with ⟨-, heq⟩ | ⟨q, hqueue, heq⟩
  · rw [heq]
    exact Or.inl ⟨rfl, fun _ => rfl⟩
  · have hq : q ∈ b.queue := by rw [hqueue]; exact List.mem_cons_self ..
    have hqother : b.other q = none := by
      cases hs : b.other q with
      | none => rfl
      | some s => exact absurd hq (h.not_queued q s hs)
    have hempty : ({ b with queue := [] } : Board).Linked :=
      hl.withQueue (fun _ hr => absurd hr List.not_mem_nil) (Nat.zero_le _)
    rw [heq]
    refine Or.inr ⟨⟨q, p⟩, rfl, ?_, ?_, side_setUp hempty ⟨hl.queue_lt q hq, hp⟩⟩
    · intro hqp
      exact hnot ((show q = p from hqp) ▸ hq)
    · rintro r (rfl | rfl)
      · exact side_eq_none ((h.game_iff _).mpr hqother)
      · exact side_eq_none ((h.game_iff _).mpr hother)

/-- **A move leaves the sides as they are, or sets up one game.** -/
theorem dealt_step (hl : b.Linked) (h : b.Paired) {m : Move} (hok : b.AsksOnce m) :
    SameSides b (b.step m) ∨ ∃ t, Dealt t b (b.step m) := by
  cases m with
  | join index serial =>
    left
    rw [step]
    split
    · exact ⟨rfl, fun _ => rfl⟩
    · exact sameSides_of_game rfl (look_append rfl)
  | leave serial => exact Or.inl ⟨rfl, fun _ => rfl⟩
  | idle => exact Or.inl ⟨rfl, fun _ => rfl⟩
  | say serial c =>
    rw [step]
    split
    · exact Or.inl ⟨rfl, fun _ => rfl⟩
    · exact Or.inl ⟨rfl, fun _ => rfl⟩
    · next p hp =>
      cases c with
      | autoMatch =>
        obtain ⟨hnot, hother⟩ := hok p hp
        exact dealt_enqueue hl h (hl.registry_lt serial p hp) hnot hother
      | unAutoMatch => exact Or.inl ⟨rfl, fun _ => rfl⟩
      | gameReady =>
        left
        show SameSides b (b.beReady p)
        rcases beReady_cases p b with heq | ⟨q, g, t, -, -, -, -, heq⟩
        · rw [heq]
          exact sameSides_of_game rfl game_readied
        · rw [heq]
          exact sameSides_of_game rfl game_readied
      | other => exact Or.inl ⟨rfl, fun _ => rfl⟩

/-- **A side is never lost.** -/
theorem side_step (hl : b.Linked) (h : b.Paired) {m : Move} (hok : b.AsksOnce m) {s : Bool}
    (hs : b.side p = some s) : (b.step m).side p = some s := by
  rcases dealt_step hl h hok with hsame | ⟨t, ht⟩
  · rw [hsame.2, hs]
  · have hnot : ¬Plays t p := fun hplays => by
      rw [ht.fresh p hplays] at hs
      cases hs
    rw [ht.side, if_neg hnot, hs]

end Board

/-- The player of the badge plays this side. -/
def Badge.play (side : Bool) (b : Badge) : Badge := { b with bSer := side, bottom := side }

/-! ## What is sent -/

/-- What is sent behind the length. -/
def Sent.body (m : Sent) : Bytes := m.bytes.drop 2

/-- The message starts a game. -/
def IsStart (body : Bytes) : Prop := body.take 2 = [0, 5]

instance (body : Bytes) : Decidable (IsStart body) := inferInstanceAs (Decidable (_ = _))

theorem opcode_of_isStart {body : Bytes} (h : IsStart body) (env : Env) :
    opcode body env = PROTO_S_GameStart := by
  match body, h with
  | hi :: lo :: rest, h =>
    obtain ⟨hhi, htail⟩ := List.cons.inj h
    obtain ⟨hlo, -⟩ := List.cons.inj htail
    rw [hhi, hlo]
    show be16Val 0 5 = 5
    decide

/-- A message that starts a game goes to a player of a game and says the player's side. -/
def Started (l : GHS_Lobby) (m : Sent) : Prop :=
  IsStart m.body → ∃ t ∈ l.games, ∃ p badge, Board.Plays t p ∧ l.badge p = some badge ∧
    m.serial = badge.serial ∧ m.body = GHS_Player.startBody badge.bSer badge.bottom

/-- Every player's packet can be written. -/
def GHS_Lobby.Equipped (l : GHS_Lobby) : Prop := ∀ player ∈ l.players, player.Equipped

/-- Messages are sent, each as `P` says, and badges and games are the same. -/
structure Tells (P : Sent → Prop) (l l' : GHS_Lobby) : Prop where
  badge : l'.badge = l.badge
  games : l'.games = l.games
  sent : ∃ out, l'.sent = l.sent ++ out ∧ ∀ m ∈ out, P m

section Tells

variable {P Q : Sent → Prop} {l l₁ l' : GHS_Lobby}

/-- Nothing is sent. -/
theorem Tells.silent (hbadge : l'.badge = l.badge) (hgames : l'.games = l.games)
    (hsent : l'.sent = l.sent) : Tells P l l' :=
  ⟨hbadge, hgames, [], by rw [hsent, List.append_nil], fun _ h => absurd h List.not_mem_nil⟩

theorem Tells.refl (l : GHS_Lobby) : Tells P l l := .silent rfl rfl rfl

/-- One message is sent. -/
theorem Tells.one {f : Option GHS_Lobby} {m : Sent}
    (hspec : ∃ l', f = some l' ∧ l'.badge = l.badge ∧ l'.sent = l.sent ++ [m]) (h : f = some l')
    (hboard : l'.board = l.board) (hm : P m) : Tells P l l' := by
  obtain ⟨l'', h', hbadge, hsent⟩ := hspec
  obtain rfl := Option.some.inj (h.symm.trans h')
  refine ⟨hbadge, congrArg Board.tables hboard, [m], hsent, fun m' hm' => ?_⟩
  rw [List.mem_singleton.mp hm']
  exact hm

theorem Tells.trans (h : Tells P l l₁) (h' : Tells P l₁ l') : Tells P l l' := by
  obtain ⟨out, hsent, hout⟩ := h.sent
  obtain ⟨out', hsent', hout'⟩ := h'.sent
  refine ⟨h'.badge.trans h.badge, h'.games.trans h.games, out ++ out', ?_, fun m hm => ?_⟩
  · rw [hsent', hsent, List.append_assoc]
  · exact (List.mem_append.mp hm).elim (hout m) (hout' m)

/-- Behind something that sends nothing. -/
theorem Tells.of_silent (h : Tells P l₁ l') (hbadge : l₁.badge = l.badge)
    (hgames : l₁.games = l.games) (hsent : l₁.sent = l.sent) : Tells P l l' :=
  (Tells.silent hbadge hgames hsent).trans h

theorem Tells.mono (h : Tells P l l') (hPQ : ∀ m, P m → Q m) : Tells Q l l' := by
  obtain ⟨out, hsent, hout⟩ := h.sent
  exact ⟨h.badge, h.games, out, hsent, fun m hm => hPQ m (hout m hm)⟩

/-- The slot and the size of the packet are on the badge. -/
theorem equipped_iff : l.Equipped ↔ ∀ p badge, l.badge p = some badge →
    badge.index < Iocp.MAX_PEER_NUM ∧ badge.room = DEFAULT_CMD_PACKET_SIZE := by
  constructor
  · intro he p badge hp
    obtain ⟨player, hplayer, rfl⟩ := GHS_Lobby.exists_player hp
    exact he player (List.mem_of_getElem? hplayer)
  · intro h player hplayer
    obtain ⟨p, hp⟩ := List.getElem?_of_mem hplayer
    exact h p player.badge (GHS_Lobby.badge_eq hp)

theorem equipped_of_badge (hbadge : l'.badge = l.badge) (he : l.Equipped) : l'.Equipped := by
  rw [equipped_iff, hbadge, ← equipped_iff]
  exact he

/-- Only badges and games are looked at. -/
theorem Started.congr {m : Sent} (h : Started l m) (hbadge : l'.badge = l.badge)
    (hgames : l'.games = l.games) : Started l' m := by
  unfold Started
  rw [hbadge, hgames]
  exact h

end Tells

/-- The message starts no game. -/
def NoStart (m : Sent) : Prop := ¬IsStart m.body

theorem NoStart.started {l : GHS_Lobby} {m : Sent} (h : NoStart m) : Started l m :=
  fun hstart => absurd hstart h

namespace GHS_Player

variable {l l' : GHS_Lobby} {env : Env} {p q : PlayerPtr}

theorem sendGameInit_tells (he : l.Equipped) (h : sendGameInit p env l = some l') :
    Tells NoStart l l' := by
  obtain ⟨player, hp, -⟩ := Option.bind_eq_some_iff.mp h
  refine .one (sendGameInit_spec env hp (he player (List.mem_of_getElem? hp))) h
    (GHS_Lobby.sendGameInit_board h) ?_
  show ¬IsStart [0, 3]
  decide

theorem sendTime_tells {cmd : Nat} {time : UInt32} (he : l.Equipped)
    (hcmd : cmd = PROTO_Keep_Alive ∨ cmd = PROTO_Keep_Alive_Ack)
    (h : sendTime p cmd time env l = some l') : Tells NoStart l l' := by
  obtain ⟨player, hp, -⟩ := Option.bind_eq_some_iff.mp h
  refine .one (sendTime_spec cmd time env hp (he player (List.mem_of_getElem? hp))) h
    (GHS_Lobby.sendTime_board h) ?_
  show ¬be16 cmd = [0, 5]
  rcases hcmd with rfl | rfl <;> decide

theorem relay_tells {packet : CmdPacket} {body : Bytes} (he : l.Equipped)
    (hbuf : packet.getReadData = some body) (hsize : packet.getDataSize = body.length)
    (hmax : body.length ≤ MAX_CMD_PACKET_SIZE) (h : relay packet q env l = some l') :
    Tells (fun m => m.body = body) l l' := by
  obtain ⟨buf, -, hsend⟩ := Option.bind_eq_some_iff.mp h
  obtain ⟨player, hq, -⟩ := Option.bind_eq_some_iff.mp hsend
  have hlen : body.length < 2 ^ 16 := Nat.lt_of_le_of_lt hmax (by decide)
  refine .one (relay_spec env hbuf hsize hq (he player (List.mem_of_getElem? hq)).1 hlen) h
    (GHS_Lobby.relay_board h) ?_
  exact CmdPacket.getData_beginWriteCopy hmax _ _ _

/-- What is sent to `p` when its game starts. -/
def StartTo (l : GHS_Lobby) (p : PlayerPtr) (m : Sent) : Prop :=
  ∃ badge, l.badge p = some badge ∧ m.serial = badge.serial ∧
    m.body = startBody badge.bSer badge.bottom

theorem sendGameStart_tells (he : l.Equipped) (h : sendGameStart p env l = some l') :
    Tells (StartTo l p) l l' := by
  obtain ⟨player, hp, -⟩ := Option.bind_eq_some_iff.mp h
  exact .one (sendGameStart_spec env hp (he player (List.mem_of_getElem? hp))) h
    (GHS_Lobby.sendGameStart_board h) ⟨player.badge, GHS_Lobby.badge_eq hp, rfl, rfl⟩

theorem process_tells (he : l.Equipped) (h : process p env l = some l') : Tells NoStart l l' := by
  unfold process at h
  dsimp only at h
  obtain ⟨player, -, h⟩ := Option.bind_eq_some_iff.mp h
  split at h
  · have hkeep : Tells NoStart ((l.getTickCount env).2.getTickCount env).2 l' :=
      sendTime_tells he (Or.inl rfl) h
    exact hkeep.of_silent rfl rfl rfl
  · obtain rfl := Option.some.inj h
    exact .silent rfl rfl rfl

end GHS_Player

/-! ## Games -/

/-- The badges when a game has given its players their sides. -/
def withSides (t : GHS_Game) (badge : PlayerPtr → Option Badge) (r : PlayerPtr) : Option Badge :=
  if t.m_player2 = r then (badge r).map (Badge.play false)
  else if t.m_player1 = r then (badge r).map (Badge.play true)
  else badge r

/-- Messages are sent that start no game or the players' own; badges and games are kept, or one game
is set up. -/
structure Deals (l l' : GHS_Lobby) : Prop where
  sent : ∃ out, l'.sent = l.sent ++ out ∧ ∀ m ∈ out, Started l m
  badge : l'.games = l.games ∧ (∀ r badge, l.badge r = some badge → l'.badge r = some badge) ∨
    ∃ t, l'.games = l.games ++ [t] ∧ ∀ r, l'.badge r = withSides t l.badge r

theorem Tells.deals {l l' : GHS_Lobby} (h : Tells (Started l) l l') : Deals l l' :=
  ⟨h.sent, Or.inl ⟨h.games, fun r badge hr => by rw [h.badge, hr]⟩⟩

theorem Deals.silent {l l' : GHS_Lobby} (hbadge : l'.badge = l.badge)
    (hgames : l'.games = l.games) (hsent : l'.sent = l.sent) : Deals l l' :=
  (Tells.silent hbadge hgames hsent).deals

/-- In front of anything else. -/
theorem Deals.of_silent {l k l' : GHS_Lobby} (hbadge : k.badge = l.badge)
    (hgames : k.games = l.games) (hsent : k.sent = l.sent) (h : Deals k l') : Deals l l' := by
  obtain ⟨⟨out, hout, hstarted⟩, h⟩ := h
  rw [hsent] at hout
  rw [hbadge, hgames] at h
  exact ⟨⟨out, hout, fun m hm => (hstarted m hm).congr hbadge.symm hgames.symm⟩, h⟩

namespace GHS_Game

variable {l l' : GHS_Lobby} {env : Env} {g : GamePtr} {t : GHS_Game}

theorem start_tells (he : l.Equipped) (h : start g env l = some l') : Tells (Started l) l l' := by
  obtain ⟨t, ht, h⟩ := Option.bind_eq_some_iff.mp h
  obtain ⟨l₁, h1, h⟩ := Option.bind_eq_some_iff.mp h
  have hmem : t ∈ l.games := List.mem_of_getElem? ht
  have hnoted := GHS_Player.sendGameStart_tells (l := l.note (.gameStart g t.m_player1)) he h1
  have hfirst : Tells (GHS_Player.StartTo l t.m_player1) l l₁ := hnoted.of_silent rfl rfl rfl
  have hnoted₁ := GHS_Player.sendGameStart_tells (l := l₁.note (.gameStart g t.m_player2))
    (equipped_of_badge hfirst.badge he) h
  have hsecond : Tells (GHS_Player.StartTo l₁ t.m_player2) l₁ l' := hnoted₁.of_silent rfl rfl rfl
  refine (hfirst.mono fun m hm _ => ?_).trans (hsecond.mono fun m hm _ => ?_)
  · exact ⟨t, hmem, t.m_player1, hm.imp fun _ h => ⟨Or.inl rfl, h⟩⟩
  · unfold GHS_Player.StartTo at hm
    rw [hfirst.badge] at hm
    exact ⟨t, hmem, t.m_player2, hm.imp fun _ h => ⟨Or.inr rfl, h⟩⟩

/-- The sides do not say which slot a player has. -/
theorem equipped_of_withSides (hbadge : ∀ r, l'.badge r = withSides t l.badge r)
    (he : l.Equipped) : l'.Equipped := by
  rw [equipped_iff] at he ⊢
  intro p badge hp
  rw [hbadge, withSides] at hp
  split at hp
  · obtain ⟨old, hold, rfl⟩ := Option.map_eq_some_iff.mp hp
    exact he p old hold
  · split at hp
    · obtain ⟨old, hold, rfl⟩ := Option.map_eq_some_iff.mp hp
      exact he p old hold
    · exact he p badge hp

/-- What `init` writes, in the order in which it does. -/
def seat (g : GamePtr) (t : GHS_Game) (l : GHS_Lobby) : GHS_Lobby :=
  let l := l.modifyPlayer t.m_player1 (GHS_Player.withGame g t.m_player2)
  let l := l.modifyPlayer t.m_player2 (GHS_Player.withGame g t.m_player1)
  let l := l.modifyPlayer t.m_player1 (GHS_Player.withSer true)
  let l := l.modifyPlayer t.m_player2 (GHS_Player.withSer false)
  let l := l.modifyPlayer t.m_player1 (GHS_Player.withBottom true)
  l.modifyPlayer t.m_player2 (GHS_Player.withBottom false)

theorem badge_seat (r : PlayerPtr) : (seat g t l).badge r = withSides t l.badge r := by
  have hgame : ∀ (p q : PlayerPtr) (l : GHS_Lobby),
      (l.modifyPlayer p (GHS_Player.withGame g q)).badge = l.badge :=
    fun p q l => GHS_Lobby.badge_modifyPlayer_same fun _ _ => rfl
  have hser : ∀ (v : Bool) (p : PlayerPtr) (l : GHS_Lobby),
      (l.modifyPlayer p (GHS_Player.withSer v)).badge r
        = if p = r then (l.badge r).map fun b => { b with bSer := v } else l.badge r :=
    fun v p l => GHS_Lobby.badge_modifyPlayer (fun _ => rfl) r
  have hbottom : ∀ (v : Bool) (p : PlayerPtr) (l : GHS_Lobby),
      (l.modifyPlayer p (GHS_Player.withBottom v)).badge r
        = if p = r then (l.badge r).map fun b => { b with bottom := v } else l.badge r :=
    fun v p l => GHS_Lobby.badge_modifyPlayer (fun _ => rfl) r
  unfold seat
  rw [hbottom, hbottom, hser, hser, hgame, hgame, withSides]
  cases l.badge r with
  | none => simp only [Option.map_none, ite_self]
  | some badge =>
    by_cases h2 : t.m_player2 = r
    · by_cases h1 : t.m_player1 = r
      · simp only [h1, h2, if_true, Option.map_some, Badge.play]
      · simp only [h1, h2, if_true, if_false, Option.map_some, Badge.play]
    · by_cases h1 : t.m_player1 = r
      · simp only [h1, h2, if_true, if_false, Option.map_some, Badge.play]
      · simp only [h1, h2, if_false]

/-- **`init`** deals the sides and tells the players that they play, not that they start. -/
theorem init_spec (he : l.Equipped) (ht : l.games[g]? = some t) (h : init g env l = some l') :
    l'.games = l.games ∧ (∀ r, l'.badge r = withSides t l.badge r) ∧
      ∃ out, l'.sent = l.sent ++ out ∧ ∀ m ∈ out, NoStart m := by
  obtain ⟨t', ht', h⟩ := Option.bind_eq_some_iff.mp h
  obtain rfl : t = t' := Option.some.inj (ht.symm.trans ht')
  obtain ⟨l₁, h1, h⟩ := Option.bind_eq_some_iff.mp h
  have he' : (seat g t l).Equipped := equipped_of_withSides badge_seat he
  have hnoted := GHS_Player.sendGameInit_tells
    (l := (seat g t l).note (.gameInit g t.m_player1)) he' h1
  have hfirst : Tells NoStart (seat g t l) l₁ := hnoted.of_silent rfl rfl rfl
  have hnoted₁ := GHS_Player.sendGameInit_tells (l := l₁.note (.gameInit g t.m_player2))
    (equipped_of_badge hfirst.badge he') h
  have hsecond : Tells NoStart l₁ l' := hnoted₁.of_silent rfl rfl rfl
  have hboth := hfirst.trans hsecond
  exact ⟨hboth.games, fun r => by rw [hboth.badge, badge_seat], hboth.sent⟩

end GHS_Game

/-! ## Messages and steps -/

variable {l l' : GHS_Lobby} {env : Env} {p : PlayerPtr}

theorem GHS_Lobby.makeGame_deals (he : l.Equipped) (h : l.makeGame env = some l') :
    Deals l l' := by
  unfold makeGame at h
  split at h
  · next p q queue hqueue =>
    obtain ⟨l₁, hinit, h⟩ := Option.bind_eq_some_iff.mp h
    obtain rfl := Option.some.inj h
    obtain ⟨hgames, hbadge, out, hsent, hout⟩ := GHS_Game.init_spec
      (l := { l with m_queue := queue, games := l.games ++ [⟨p, q⟩] }) (t := ⟨p, q⟩) he
      (List.getElem?_concat_length ..) hinit
    exact ⟨⟨out, hsent, fun m hm => (hout m hm).started⟩, Or.inr ⟨⟨p, q⟩, hgames, hbadge⟩⟩
  · obtain rfl := Option.some.inj h
    exact .silent rfl rfl rfl

theorem GHS_Lobby.enqueue_deals (he : l.Equipped) (h : l.enqueue p env = some l') : Deals l l' :=
  .of_silent (k := { l with m_queue := l.m_queue ++ [p] }) rfl rfl rfl (makeGame_deals he h)

namespace GHS_Player

theorem gameReady_tells (he : l.Equipped) (h : gameReady p env l = some l') :
    Tells (Started l) l l' := by
  unfold gameReady at h
  dsimp only at h
  have hbadge : ((l.modifyPlayer p withReady).note (.ready p)).badge = l.badge :=
    GHS_Lobby.badge_modifyPlayer_same fun _ _ => rfl
  obtain ⟨player, -, h⟩ := Option.bind_eq_some_iff.mp h
  split at h
  · obtain rfl := Option.some.inj h
    exact .silent hbadge rfl rfl
  · obtain ⟨opponent, -, h⟩ := Option.bind_eq_some_iff.mp h
    split at h
    · obtain ⟨game, -, h⟩ := Option.bind_eq_some_iff.mp h
      have hstart := GHS_Game.start_tells (equipped_of_badge hbadge he) h
      exact (hstart.mono fun m hm => hm.congr hbadge.symm rfl).of_silent hbadge rfl rfl
    · obtain rfl := Option.some.inj h
      exact .silent hbadge rfl rfl

/-- **What `recv` sends**: a message that starts a game goes to a player of the game. The message
that is read may be any that is not longer than a packet can be. -/
theorem recv_deals {body : Bytes} {packet : CmdPacket} (he : l.Equipped)
    (hmax : body.length ≤ MAX_CMD_PACKET_SIZE)
    (h : recv p (packet.beginRead body body.length) env l = some l') : Deals l l' := by
  have hcases := GHS_Lobby.recv_cases h
  rw [GHS_Lobby.readUShort_getD] at hcases
  obtain ⟨hbuf, hsize⟩ := readUShort_snd body packet
  have hbadge : (l.received p env).badge = l.badge :=
    GHS_Lobby.badge_modifyPlayer_same fun _ _ => rfl
  refine .of_silent hbadge rfl rfl ?_
  replace he := equipped_of_badge hbadge he
  cases hcases with
  | ignored => exact .silent rfl rfl rfl
  | answered _ _ h => exact ((sendTime_tells he (Or.inr rfl) h).mono fun _ hm => hm.started).deals
  | measured => exact .silent (GHS_Lobby.badge_modifyPlayer_same fun _ _ => rfl) rfl rfl
  | relayed hcmd _ q _ _ h =>
    -- what is relayed has another number than the message that starts a game
    have hne : opcode body env ≠ PROTO_S_GameStart := by
      rcases hcmd with hcmd | hcmd <;> rw [hcmd] <;> decide
    refine ((relay_tells he hbuf hsize hmax h).mono fun m hm => NoStart.started ?_).deals
    intro hstart
    exact hne (opcode_of_isStart (hm ▸ hstart) env)
  | autoMatch _ h => exact GHS_Lobby.enqueue_deals he h
  | unAutoMatch => exact .silent rfl rfl rfl
  | gameReady _ h => exact (gameReady_tells he h).deals

end GHS_Player

theorem GHS_Lobby.process_tells (he : l.Equipped) (h : l.process env = some l') :
    Tells NoStart l l' := by
  unfold process at h
  generalize l.m_players.entries = entries at h
  induction entries generalizing l with
  | nil =>
    obtain rfl := Option.some.inj h
    exact .refl l
  | cons e entries ih =>
    rw [List.foldlM_cons] at h
    obtain ⟨l₁, h1, h⟩ := Option.bind_eq_some_iff.mp h
    obtain ⟨player, -, h1⟩ := Option.bind_eq_some_iff.mp h1
    have hfirst := GHS_Player.process_tells he h1
    exact hfirst.trans (ih (equipped_of_badge hfirst.badge he) h)

/-- The messages of the call are not longer than a packet can be. -/
def Call.Fits : Call → Prop
  | .onRead _ body => body.length ≤ MAX_CMD_PACKET_SIZE
  | .onCon _ _ | .onDisCon _ | .process => True

/-- **What a step sends and deals.** -/
theorem step_deals {c : Call} (he : l.Equipped) (hfits : c.Fits) (h : step l (c, env) = some l') :
    Deals l l' := by
  cases c with
  | onCon index serial =>
    rw [step] at h
    unfold GHS_Lobby.addPlayer at h
    split at h
    · cases h
    · obtain rfl := Option.some.inj h
      refine ⟨⟨[], (List.append_nil _).symm, fun _ hm => absurd hm List.not_mem_nil⟩,
        Or.inl ⟨rfl, fun r badge hr => ?_⟩⟩
      obtain ⟨player, hplayer, rfl⟩ := GHS_Lobby.exists_player hr
      refine GHS_Lobby.badge_eq ?_
      show (l.players ++ [_])[r]? = some player
      rw [List.getElem?_append_left (List.getElem?_eq_some_iff.mp hplayer).1, hplayer]
  | onDisCon serial =>
    obtain rfl := Option.some.inj h
    unfold GHS_Lobby.removePlayer
    split
    · exact .silent rfl rfl rfl
    · exact .silent rfl rfl rfl
  | onRead serial body =>
    rw [step] at h
    unfold GHS_Lobby.onRead GHS_Lobby.getPlayer at h
    cases hfind : l.m_players.find serial with
    | none =>
      rw [hfind] at h
      obtain rfl := Option.some.inj h
      exact .silent rfl rfl rfl
    | some entry =>
      rw [hfind] at h
      cases entry with
      | none =>
        obtain rfl := Option.some.inj h
        exact .silent rfl rfl rfl
      | some p => exact GHS_Player.recv_deals he hfits h
  | process => exact ((GHS_Lobby.process_tells he h).mono fun _ hm => hm.started).deals

/-! ## Players have the sides that their games give them -/

/-- A player of a game has the side that the game gives it. -/
def GHS_Lobby.Sided (l : GHS_Lobby) : Prop :=
  ∀ p badge s, l.badge p = some badge → l.board.side p = some s →
    badge.bSer = s ∧ badge.bottom = s

/-- Who has a side is a player. -/
theorem GHS_Lobby.exists_badge {s : Bool} (h : l.board.side p = some s) :
    ∃ badge, l.badge p = some badge := by
  obtain ⟨g, hg, -⟩ := Option.bind_eq_some_iff.mp h
  have hlt : p < l.players.length := by
    rw [← List.length_map (f := GHS_Player.seat)]
    exact Board.lt_of_look hg
  exact ⟨_, badge_eq (List.getElem?_eq_getElem hlt)⟩

/-- **A step keeps the sides right**, while nobody asks for a match that waits or plays. -/
theorem sided_step {c : Call} (hl : l.board.Linked) (hpaired : l.board.Paired)
    (hok : l.board.AsksOnce (meaning (c, env))) (he : l.Equipped) (hfits : c.Fits)
    (hs : l.Sided) (h : step l (c, env) = some l') : l'.Sided := by
  have hboard := step_board h
  have htables : l'.games = (l.board.step (meaning (c, env))).tables :=
    congrArg Board.tables hboard
  intro p badge s hbadge hside
  rw [hboard] at hside
  rcases (step_deals he hfits h).badge with ⟨hgames, hkept⟩ | ⟨t, hgames, hdealt⟩
  · rcases Board.dealt_step hl hpaired hok with hsame | ⟨t, ht⟩
    · rw [hsame.2] at hside
      obtain ⟨old, hold⟩ := GHS_Lobby.exists_badge hside
      obtain rfl := Option.some.inj (hbadge.symm.trans (hkept p old hold))
      exact hs p badge s hold hside
    · rw [htables, ht.tables] at hgames
      exact absurd (List.append_right_eq_self.mp hgames) (List.cons_ne_nil t [])
  · rcases Board.dealt_step hl hpaired hok with hsame | ⟨t', ht⟩
    · rw [htables, hsame.1] at hgames
      exact absurd (List.append_right_eq_self.mp hgames.symm) (List.cons_ne_nil t [])
    · rw [htables, ht.tables] at hgames
      obtain ⟨-, rfl⟩ := List.append_singleton_inj.mp hgames
      rw [hdealt, withSides] at hbadge
      rw [ht.side] at hside
      split at hbadge
      · next h2 =>
        obtain ⟨old, -, rfl⟩ := Option.map_eq_some_iff.mp hbadge
        rw [if_pos (show Board.Plays t' p from Or.inr h2),
          decide_eq_false fun h1 => ht.different (h1.trans h2.symm)] at hside
        obtain rfl := Option.some.inj hside
        exact ⟨rfl, rfl⟩
      · next h2 =>
        split at hbadge
        · next h1 =>
          obtain ⟨old, -, rfl⟩ := Option.map_eq_some_iff.mp hbadge
          rw [if_pos (show Board.Plays t' p from Or.inl h1), decide_eq_true h1] at hside
          obtain rfl := Option.some.inj hside
          exact ⟨rfl, rfl⟩
        · next h1 =>
          rw [if_neg fun hplays : Board.Plays t' p => hplays.elim h1 h2] at hside
          exact hs p badge s hbadge hside

/-- **What starts a game says the side of the player that it goes to.** -/
theorem Started.tellsSide {m : Sent} (h : Started l m) (hl : l.board.Linked) (hs : l.Sided)
    (hstart : IsStart m.body) : ∃ p badge s, l.badge p = some badge ∧ l.board.side p = some s ∧
      m.serial = badge.serial ∧ m.body = GHS_Player.startBody s s := by
  obtain ⟨t, ht, p, badge, hplays, hbadge, hserial, hbody⟩ := h hstart
  obtain ⟨g, hg⟩ := List.getElem?_of_mem ht
  obtain ⟨s, hside⟩ := hl.exists_side (hl.game_of_plays g t p hg hplays)
  obtain ⟨hser, hbottom⟩ := hs p badge s hbadge hside
  rw [hser, hbottom] at hbody
  exact ⟨p, badge, s, hbadge, hside, hserial, hbody⟩

end GhNet.Lobby
