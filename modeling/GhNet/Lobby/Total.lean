import Mathlib.Data.List.Nodup
import GhNet.Lobby.Malformed
import GhNet.Lobby.Outgoing
import GhNet.Lobby.Relay
import GhNet.Lobby.Serials

/-!
# Where a call ends the program

The lobby has assertions, pointers that it does not test, and a buffer that throws. None of this is
met by a message, whatever is in it. What ends the program inside of a call is a second player with
a serial that is registered, a slot that is none of the service, and a round of the main loop over
a registry with an empty entry. `onRead` makes such an entry for a serial that nobody has.
-/

namespace GhNet.Lobby

open GhNet GhNet.Net GHS_Lobby

variable {l l' l₁ : GHS_Lobby} {env : Env} {p q : PlayerPtr}

/-! ## Players that can be sent to -/

namespace Board

variable {b : Board}

/-- All seats are slots of the service, with a packet of the default size. -/
def Fit (b : Board) : Prop :=
  ∀ e ∈ b.gear, e.1 < Iocp.MAX_PEER_NUM ∧ e.2 = DEFAULT_CMD_PACKET_SIZE

end Board

theorem Reachable.fit (hr : Reachable l) : l.board.Fit := by
  intro e he
  obtain ⟨s, hs, rfl⟩ := List.mem_map.mp he
  obtain ⟨player, hplayer, rfl⟩ := List.mem_map.mp hs
  exact hr.equipped player hplayer

/-- Who has a seat is a player. -/
theorem Board.Fit.player (h : l.board.Fit) (hp : p < l.board.seats.length) :
    ∃ player, l.players[p]? = some player ∧ player.Equipped := by
  have hlt : p < l.players.length := by
    rwa [show l.board.seats.length = l.players.length from List.length_map _] at hp
  refine ⟨_, List.getElem?_eq_getElem hlt, ?_⟩
  exact h _ (List.mem_map.mpr ⟨_, List.mem_map.mpr ⟨_, List.getElem_mem hlt, rfl⟩, rfl⟩)

/-! ## How much is sent -/

/-- At most `k` messages were sent. -/
def Posts (k : Nat) (l l' : GHS_Lobby) : Prop := ∃ out, l'.sent = l.sent ++ out ∧ out.length ≤ k

namespace Posts

variable {j k : Nat}

theorem silent (k : Nat) (h : l'.sent = l.sent) : Posts k l l' :=
  ⟨[], by rw [h, List.append_nil], Nat.zero_le k⟩

theorem one {m : Sent} (h : l'.sent = l.sent ++ [m]) : Posts 1 l l' := ⟨[m], h, Nat.le_refl 1⟩

theorem trans (h : Posts j l l₁) (h' : Posts k l₁ l') : Posts (j + k) l l' := by
  obtain ⟨out, hsent, hout⟩ := h
  obtain ⟨out', hsent', hout'⟩ := h'
  refine ⟨out ++ out', ?_, ?_⟩
  · rw [hsent', hsent, List.append_assoc]
  · rw [List.length_append]
    exact Nat.add_le_add hout hout'

end Posts

/-! ## The functions that send -/

namespace GHS_Player

theorem sendGameInit_total (env : Env) (h : l.board.Fit) (hp : p < l.board.seats.length) :
    ∃ l', sendGameInit p env l = some l' ∧ l'.board = l.board ∧ Posts 1 l l' := by
  obtain ⟨player, hplayer, hfit⟩ := h.player hp
  obtain ⟨l', hsend, -, hsent⟩ := sendGameInit_spec env hplayer hfit
  exact ⟨l', hsend, sendGameInit_board hsend, .one hsent⟩

theorem sendGameStart_total (env : Env) (h : l.board.Fit) (hp : p < l.board.seats.length) :
    ∃ l', sendGameStart p env l = some l' ∧ l'.board = l.board ∧ Posts 1 l l' := by
  obtain ⟨player, hplayer, hfit⟩ := h.player hp
  obtain ⟨l', hsend, -, hsent⟩ := sendGameStart_spec env hplayer hfit
  exact ⟨l', hsend, sendGameStart_board hsend, .one hsent⟩

theorem sendTime_total (cmd : Nat) (time : UInt32) (env : Env) (h : l.board.Fit)
    (hp : p < l.board.seats.length) :
    ∃ l', sendTime p cmd time env l = some l' ∧ l'.board = l.board ∧ Posts 1 l l' := by
  obtain ⟨player, hplayer, hfit⟩ := h.player hp
  obtain ⟨l', hsend, -, hsent⟩ := sendTime_spec cmd time env hplayer hfit
  exact ⟨l', hsend, sendTime_board hsend, .one hsent⟩

theorem relay_total (env : Env) {packet : CmdPacket} {body : Bytes} (h : l.board.Fit)
    (hq : q < l.board.seats.length) (hbuf : packet.getReadData = some body)
    (hsize : packet.getDataSize = body.length) (hlen : body.length < 2 ^ 16) :
    ∃ l', relay packet q env l = some l' ∧ Posts 1 l l' := by
  obtain ⟨player, hplayer, hfit⟩ := h.player hq
  obtain ⟨l', hrelay, -, hsent⟩ := relay_spec env hbuf hsize hplayer hfit.1 hlen
  exact ⟨l', hrelay, .one hsent⟩

end GHS_Player

/-! ## Games -/

/-- The players of a game sit down and are told so. -/
theorem init_total (env : Env) {g : GamePtr} {t : GHS_Game} (h : l.board.Fit)
    (ht : l.games[g]? = some t) (hseated : l.board.Seated t) :
    ∃ l', GHS_Game.init g env l = some l' ∧ Posts 2 l l' := by
  generalize hset : ((((((l.modifyPlayer t.m_player1 (GHS_Player.withGame g t.m_player2)).modifyPlayer
    t.m_player2 (GHS_Player.withGame g t.m_player1)).modifyPlayer t.m_player1
    (GHS_Player.withSer true)).modifyPlayer t.m_player2 (GHS_Player.withSer false)).modifyPlayer
    t.m_player1 (GHS_Player.withBottom true)).modifyPlayer t.m_player2
    (GHS_Player.withBottom false)).note (.gameInit g t.m_player1) = l₀
  have hboard : l₀.board = ((l.board.modifySeat t.m_player1 (Seat.play g t.m_player2)).modifySeat
      t.m_player2 (Seat.play g t.m_player1)).note (.gameInit g t.m_player1) := by
    rw [← hset, board_note, board_withBottom, board_withBottom, board_withSer, board_withSer,
      board_withGame, board_withGame]
  have hgear : l₀.board.gear = l.board.gear := by
    rw [hboard]
    exact ((Board.Lasting.modifySeat (Board.lasting_gear.play g t.m_player1)).1).trans
      (Board.Lasting.modifySeat (Board.lasting_gear.play g t.m_player2)).1
  have hseats : l₀.board.seats.length = l.board.seats.length := by
    have hlen := congrArg List.length hgear
    rwa [Board.gear, Board.gear, List.length_map, List.length_map] at hlen
  have hfit : l₀.board.Fit := fun e he => h e (hgear ▸ he)
  have hsent : l₀.sent = l.sent := by
    rw [← hset]
    rfl
  obtain ⟨l₁, h1, hboard₁, hp1⟩ := GHS_Player.sendGameInit_total env hfit (hseats ▸ hseated.1)
  have hfit₁ : (l₁.note (.gameInit g t.m_player2)).board.Fit := by
    rw [board_note, hboard₁]
    exact hfit
  obtain ⟨l₂, h2, -, hp2⟩ := GHS_Player.sendGameInit_total (p := t.m_player2) env hfit₁ (by
    rw [board_note, hboard₁]
    exact hseats ▸ hseated.2)
  refine ⟨l₂, ?_, ?_⟩
  · unfold GHS_Game.init
    rw [ht, Option.bind_eq_bind, Option.bind_some]
    dsimp only
    rw [hset, h1]
    exact h2
  · have hnoted : Posts 1 l₁ l₂ := hp2
    exact ((Posts.silent 0 hsent).trans hp1).trans hnoted

theorem start_total (env : Env) {g : GamePtr} {t : GHS_Game} (h : l.board.Fit)
    (ht : l.games[g]? = some t) (hseated : l.board.Seated t) :
    ∃ l', GHS_Game.start g env l = some l' ∧ Posts 2 l l' := by
  have hfit : (l.note (.gameStart g t.m_player1)).board.Fit := h
  obtain ⟨l₁, h1, hboard₁, hp1⟩ := GHS_Player.sendGameStart_total env hfit hseated.1
  have hfit₁ : (l₁.note (.gameStart g t.m_player2)).board.Fit := by
    rw [board_note, hboard₁]
    exact hfit
  obtain ⟨l₂, h2, -, hp2⟩ := GHS_Player.sendGameStart_total (p := t.m_player2) env hfit₁ (by
    rw [board_note, hboard₁]
    exact hseated.2)
  refine ⟨l₂, ?_, ?_⟩
  · unfold GHS_Game.start
    rw [ht, Option.bind_eq_bind, Option.bind_some, h1]
    exact h2
  · have hfirst : Posts 1 l l₁ := hp1
    have hnoted : Posts 1 l₁ l₂ := hp2
    exact hfirst.trans hnoted

theorem enqueue_total (env : Env) (hl : l.board.Linked) (h : l.board.Fit)
    (hp : p < l.board.seats.length) : ∃ l', l.enqueue p env = some l' ∧ Posts 2 l l' := by
  unfold GHS_Lobby.enqueue GHS_Lobby.makeGame
  split
  · next r q queue hqueue =>
    have hmem : ∀ x ∈ l.m_queue ++ [p], x < l.board.seats.length := by
      intro x hx
      rcases List.mem_append.mp hx with hx | hx
      · exact hl.queue_lt x hx
      · exact List.mem_singleton.mp hx ▸ hp
    have hqueue : l.m_queue ++ [p] = r :: q :: queue := hqueue
    rw [hqueue] at hmem
    obtain ⟨l₁, hinit, hposts⟩ := init_total (l := { l with
      m_queue := queue, games := l.games ++ [⟨r, q⟩] }) (g := l.games.length) (t := ⟨r, q⟩) env h
      (List.getElem?_concat_length ..) ⟨hmem r (by simp), hmem q (by simp)⟩
    refine ⟨{ l₁ with m_games := l₁.m_games ++ [l.games.length] }, ?_, hposts⟩
    show Option.bind _ _ = _
    rw [hinit]
    rfl
  · exact ⟨_, rfl, .silent 2 rfl⟩

theorem gameReady_total (env : Env) (hl : l.board.Linked) (h : l.board.Fit)
    (hp : p < l.board.seats.length) :
    ∃ l', GHS_Player.gameReady p env l = some l' ∧ Posts 2 l l' := by
  generalize hset : (l.modifyPlayer p GHS_Player.withReady).note (.ready p) = l₁
  have hboard : l₁.board = l.board.readied p := by
    rw [← hset, board_note, board_withReady]
    rfl
  have hgear : l₁.board.gear = l.board.gear := by
    rw [hboard]
    exact (Board.Lasting.modifySeat Board.lasting_gear.beReady).1
  have hfit : l₁.board.Fit := fun e he => h e (hgear ▸ he)
  have hseats : l₁.board.seats.length = l.board.seats.length := by
    rw [hboard]
    exact Board.length_seats_modifySeat Seat.beReady
  have hsent : l₁.sent = l.sent := by
    rw [← hset]
    rfl
  unfold GHS_Player.gameReady
  dsimp only
  rw [hset]
  obtain ⟨player, hplayer, -⟩ := hfit.player (hseats ▸ hp)
  rw [hplayer, Option.bind_eq_bind, Option.bind_some]
  cases hother : player.m_other with
  | none => exact ⟨l₁, rfl, .silent 2 hsent⟩
  | some q =>
    have hq : l.board.other p = some q := by
      rw [← Board.other_readied (p := p), ← hboard, board_other hplayer, hother]
    obtain ⟨g, t, hg, ht, hopp⟩ := hl.opponents_of_other hq
    have hseated := hl.seated g t ht
    have hqlt : q < l₁.board.seats.length := by
      rw [hseats]
      rcases hopp with ⟨-, rfl⟩ | ⟨-, rfl⟩
      · exact hseated.2
      · exact hseated.1
    obtain ⟨opponent, hopponent, -⟩ := hfit.player hqlt
    have hgame : player.m_game = some g := by
      rw [← board_game hplayer, hboard, Board.game_readied, hg]
    have htable : l₁.games[g]? = some t := by
      rw [← hset]
      exact ht
    dsimp only
    rw [hopponent, Option.bind_eq_bind, Option.bind_some]
    by_cases hready : opponent.m_ready = true
    · rw [if_pos hready, hgame, Option.bind_some]
      have hseated₁ : l₁.board.Seated t := by
        rw [Board.Seated, hseats]
        exact hseated
      obtain ⟨l₂, hstart, hposts⟩ := start_total env hfit htable hseated₁
      exact ⟨l₂, hstart, (Posts.silent 0 hsent).trans hposts⟩
    · rw [if_neg hready]
      exact ⟨l₁, rfl, .silent 2 hsent⟩

/-! ## Messages -/

/-- **No message ends the program**, whoever sends it and whatever is in it. -/
theorem recv_total (body : Bytes) (env : Env) (hl : l.board.Linked) (h : l.board.Fit)
    (hp : p < l.board.seats.length) (hlen : body.length < 2 ^ 16) :
    ∃ l', GHS_Player.recv p ((CmdPacket.new (env.memory 0)).beginRead body body.length) env l
      = some l' ∧ Posts 2 l l' := by
  obtain ⟨hbuf, hsize⟩ := GHS_Player.readUShort_snd body (CmdPacket.new (env.memory 0))
  generalize (CmdPacket.new (env.memory 0)).beginRead body body.length = packet at hbuf hsize
  have hboard : (l.received p env).board = l.board := board_received p
  have hsent : (l.received p env).sent = l.sent := rfl
  have hone : ∀ {l'}, Posts 1 (l.received p env) l' → Posts 2 l l' := fun hposts =>
    ((Posts.silent 1 hsent).trans hposts)
  have htwo : ∀ {l'}, Posts 2 (l.received p env) l' → Posts 2 l l' := fun hposts =>
    ((Posts.silent 0 hsent).trans hposts)
  unfold GHS_Player.recv
  dsimp only
  rw [show (l.getTickCount env).2.modifyPlayer p
    (GHS_Player.withRecvTime (l.getTickCount env).1) = l.received p env from rfl]
  generalize l.received p env = l₁ at hboard hsent hone htwo ⊢
  rw [← hboard] at hl h hp
  have hrelay : ∀ {player q}, l₁.players[p]? = some player → player.m_other = some q →
      ∃ l', GHS_Player.relay packet.readUShort.2 q env l₁ = some l' ∧ Posts 2 l l' := by
    intro player q hplayer hother
    obtain ⟨g, t, -, ht, hopp⟩ := hl.opponents_of_other ((board_other hplayer).trans hother)
    have hseated := hl.seated g t ht
    have hq : q < l₁.board.seats.length := by
      rcases hopp with ⟨-, rfl⟩ | ⟨-, rfl⟩
      · exact hseated.2
      · exact hseated.1
    obtain ⟨l', hrelay, hposts⟩ := GHS_Player.relay_total env h hq hbuf hsize hlen
    exact ⟨l', hrelay, hone hposts⟩
  obtain ⟨player, hplayer, -⟩ := h.player hp
  rw [hplayer, Option.bind_eq_bind, Option.bind_some]
  split
  · split
    · exact ⟨l₁, rfl, .silent 2 hsent⟩
    · next time _ _ =>
      obtain ⟨l', hsend, -, hposts⟩ :=
        GHS_Player.sendTime_total PROTO_Keep_Alive_Ack time env h hp
      exact ⟨l', hsend, hone hposts⟩
  split
  · split
    · exact ⟨l₁, rfl, .silent 2 hsent⟩
    · exact ⟨_, rfl, .silent 2 hsent⟩
  split
  · split
    · exact ⟨l₁, rfl, .silent 2 hsent⟩
    · next q hother => exact hrelay hplayer hother
  split
  · obtain ⟨l', henqueue, hposts⟩ := enqueue_total env hl h hp
    exact ⟨l', henqueue, htwo hposts⟩
  split
  · exact ⟨l₁.unqueue p, rfl, .silent 2 hsent⟩
  split
  · obtain ⟨l', hready, hposts⟩ := gameReady_total env hl h hp
    exact ⟨l', hready, htwo hposts⟩
  split
  · split
    · exact ⟨l₁, rfl, .silent 2 hsent⟩
    · next g hgame =>
      -- who has a game has an opponent
      have hg : l₁.board.game p = some g := (board_game hplayer).trans hgame
      obtain ⟨t, q, -, hq, -⟩ := hl.link p g hg
      have hother : player.m_other = some q := (board_other hplayer).symm.trans hq
      rw [hother, Option.bind_eq_bind, Option.bind_some]
      exact hrelay hplayer hother
  · exact ⟨l₁, rfl, .silent 2 hsent⟩

/-! ## The loop of `process` -/

/-- A player is sent one message, to its own serial, or none. -/
theorem player_process_total (env : Env) (h : l.board.Fit) (hp : p < l.board.seats.length) :
    ∃ l', GHS_Player.process p env l = some l' ∧ l'.board = l.board ∧
      (l'.sent = l.sent ∨ ∃ m, l'.sent = l.sent ++ [m] ∧ l.board.serials[p]? = some m.serial) := by
  obtain ⟨player, hplayer, hfit⟩ := h.player hp
  unfold GHS_Player.process
  dsimp only
  rw [show (l.getTickCount env).2.players = l.players from rfl, hplayer, Option.bind_eq_bind,
    Option.bind_some]
  split
  · have hclock : ((l.getTickCount env).2.getTickCount env).2.players[p]? = some player := hplayer
    have hboard : ((l.getTickCount env).2.getTickCount env).2.board = l.board := rfl
    have hold : ((l.getTickCount env).2.getTickCount env).2.sent = l.sent := rfl
    unfold GHS_Player.keepAlive
    dsimp only
    generalize ((l.getTickCount env).2.getTickCount env).1 = time
    generalize ((l.getTickCount env).2.getTickCount env).2 = l₁ at hclock hboard hold
    obtain ⟨l', hsend, -, hsent⟩ :=
      GHS_Player.sendTime_spec PROTO_Keep_Alive time env hclock hfit
    refine ⟨l', hsend, (sendTime_board hsend).trans hboard, Or.inr ⟨_, hold ▸ hsent, ?_⟩⟩
    show ((l.players.map GHS_Player.seat).map Seat.serial)[p]? = _
    rw [List.getElem?_map, List.getElem?_map, hplayer]
    rfl
  · exact ⟨_, rfl, rfl, Or.inl rfl⟩

/-- **A round over players sends each of them at most one message.** -/
theorem foldlM_process_total (env : Env) {entries : List (Nat × Option PlayerPtr)}
    (h : l.board.Fit) (hentries : ∀ e ∈ entries, ∃ p, e.2 = some p ∧
      p < l.board.seats.length ∧ l.board.serials[p]? = some e.1) :
    ∃ l', entries.foldlM (fun l e => e.2.bind fun player => GHS_Player.process player env l) l
        = some l' ∧
      ∃ out, l'.sent = l.sent ++ out ∧
        (out.map Sent.serial).Sublist (entries.map Prod.fst) := by
  induction entries generalizing l with
  | nil => exact ⟨l, rfl, [], (List.append_nil _).symm, List.Sublist.refl []⟩
  | cons e entries ih =>
    obtain ⟨p, he, hp, hserial⟩ := hentries e List.mem_cons_self
    obtain ⟨l₁, hfirst, hboard, hsent⟩ := player_process_total env h hp
    obtain ⟨l', hrest, out, hsent', hsub⟩ := ih (l := l₁) (hboard.symm ▸ h) fun e he =>
      hboard.symm ▸ hentries e (List.mem_cons_of_mem _ he)
    refine ⟨l', ?_, ?_⟩
    · rw [List.foldlM_cons, he, Option.bind_some, hfirst]
      exact hrest
    · rcases hsent with hsent | ⟨m, hsent, hm⟩
      · exact ⟨out, hsent ▸ hsent', hsub.cons e.1⟩
      · refine ⟨m :: out, ?_, ?_⟩
        · rw [hsent', hsent, List.append_assoc]
          rfl
        · rw [List.map_cons, List.map_cons, Option.some.inj (hm.symm.trans hserial)]
          exact hsub.cons_cons e.1

/-! ## Calls -/

/-- The calls in which the program ends. -/
def Ends (l : GHS_Lobby) : Call → Prop
  | .onCon _ serial => l.m_players.find serial ≠ none
  | .onDisCon _ => False
  | .onRead _ _ => False
  | .process => ∃ serial, l.m_players.find serial = some none

theorem registered_of_reachable (hr : Reachable l) : l.board.Registered := by
  refine (hr.invariant (fun l => l.board.Linked ∧ l.board.Registered) ?_ ?_).2
  · rintro l rfl
    exact ⟨Board.linked_empty, Board.registered_empty⟩
  · rintro l a l' ⟨hl, h⟩ - hs
    rw [step_board hs]
    exact ⟨Board.linked_step hl _, Board.registered_step hl h _⟩

/-- **A call that does not end the program** sends no connection more than two messages. -/
theorem step_total (env : Env) (hr : Reachable l) {c : Call} (hc : ¬Ends l c)
    (hlen : ∀ serial body, c = .onRead serial body → body.length < 2 ^ 16) :
    ∃ l', step l (c, env) = some l' ∧ ∃ out, l'.sent = l.sent ++ out ∧
      ∀ n, (out.map Sent.serial).count n ≤ 2 := by
  have hposts : ∀ {l'}, Posts 2 l l' → ∃ out, l'.sent = l.sent ++ out ∧
      ∀ n, (out.map Sent.serial).count n ≤ 2 := by
    rintro l' ⟨out, hsent, hout⟩
    refine ⟨out, hsent, fun n => List.count_le_length.trans ?_⟩
    rwa [List.length_map]
  have hl := Reachable.linked hr
  cases c with
  | onCon index serial =>
    rw [step]
    unfold GHS_Lobby.addPlayer
    rw [not_not.mp hc]
    exact ⟨_, rfl, hposts (.silent 2 rfl)⟩
  | onDisCon serial =>
    have hs : step l (.onDisCon serial, env) = some (l.removePlayer serial) := rfl
    exact ⟨_, hs, hposts (.silent 2 (step_onDisCon hs).2)⟩
  | onRead serial body =>
    cases hfind : l.m_players.find serial with
    | none =>
      rw [step]
      unfold GHS_Lobby.onRead GHS_Lobby.getPlayer
      rw [hfind]
      exact ⟨_, rfl, hposts (.silent 2 rfl)⟩
    | some entry =>
      cases entry with
      | none =>
        rw [step]
        unfold GHS_Lobby.onRead GHS_Lobby.getPlayer
        rw [hfind]
        exact ⟨_, rfl, hposts (.silent 2 rfl)⟩
      | some p =>
        rw [step_onRead hfind]
        obtain ⟨l', hrecv, hout⟩ := recv_total body env hl hr.fit (hl.registry_lt serial p hfind)
          (hlen serial body rfl)
        exact ⟨l', hrecv, hposts hout⟩
  | process =>
    have hentries : ∀ e ∈ l.m_players.entries, ∃ p, e.2 = some p ∧ p < l.board.seats.length ∧
        l.board.serials[p]? = some e.1 := by
      intro e he
      have hfind : l.m_players.find e.1 = some e.2 := OrdMap.mem_entries_iff.mp he
      cases hentry : e.2 with
      | none => exact absurd ⟨e.1, hentry ▸ hfind⟩ hc
      | some p =>
        rw [hentry] at hfind
        exact ⟨p, rfl, hl.registry_lt e.1 p hfind, registered_of_reachable hr e.1 p hfind⟩
    obtain ⟨l', hrun, out, hsent, hsub⟩ := foldlM_process_total env hr.fit hentries
    have hnodup : (l.m_players.entries.map Prod.fst).Nodup := by
      refine List.Pairwise.imp ?_ (List.pairwise_map.mpr l.m_players.sorted)
      exact fun hlt => ne_of_lt hlt
    refine ⟨l', hrun, out, hsent, fun n => ?_⟩
    exact ((hsub.count_le n).trans (List.nodup_iff_count_le_one.mp hnodup n)).trans
      (Nat.le_succ 1)

/-- **Exactly the calls of `Ends` end the program.** -/
theorem call_ends_iff (env : Env) (hr : Reachable l) {c : Call}
    (hlen : ∀ serial body, c = .onRead serial body → body.length < 2 ^ 16) :
    step l (c, env) = none ↔ Ends l c := by
  constructor
  · intro hnone
    by_contra hc
    obtain ⟨l', hs, -⟩ := step_total env hr hc hlen
    rw [hnone] at hs
    cases hs
  · intro hc
    cases hs : step l (c, env) with
    | none => rfl
    | some l' =>
      exfalso
      cases c with
      | onCon index serial =>
        obtain ⟨e, he⟩ := Option.ne_none_iff_exists'.mp hc
        rw [step] at hs
        unfold GHS_Lobby.addPlayer at hs
        rw [he] at hs
        cases hs
      | onDisCon | onRead => exact hc
      | process =>
        obtain ⟨serial, hfind⟩ := hc
        have hmem := OrdMap.mem_entries_iff.mpr hfind
        rw [step, GHS_Lobby.process] at hs
        generalize l.m_players.entries = entries at hs hmem
        clear hlen hr hfind
        induction entries generalizing l with
        | nil => cases hmem
        | cons e entries ih =>
          rw [List.foldlM_cons] at hs
          obtain ⟨l₁, hfirst, hrest⟩ := Option.bind_eq_some_iff.mp hs
          rcases List.mem_cons.mp hmem with rfl | hmem
          · cases hfirst
          · exact ih hrest hmem

/-- A message of a serial that nobody has, and then a round of the main loop. -/
theorem call_ends_iff_empty_entry :
    let l := (runCalls [.onCon 0 0, .onRead 1 [0, 1]]).get (by decide +kernel)
    step l (.process, Env.zero) = none := by
  intro l
  exact (call_ends_iff Env.zero (reach_runCalls (by decide +kernel) (by decide +kernel))
    (c := .process) nofun).mpr ⟨1, by decide +kernel⟩

end GhNet.Lobby
