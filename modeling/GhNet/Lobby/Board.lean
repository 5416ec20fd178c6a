import GhNet.Lobby.Machine

/-!
# The board: who plays with whom

The abstract lobby. A board has the players' seats (whom each plays with, in which game, and
whether it is ready), the waiting queue, and the games. Of a call it knows only what it means for
these: a player joins, leaves, or says something.

`step_board` is the connection: every step of the lobby is a step of its board. What concerns
packets, buffers and the clock is not on the board.
-/

namespace GhNet.Lobby

open GhNet GhNet.Net

/-- What the board knows of a player; `room` is the size of the player's packet. -/
structure Seat where
  index : Nat
  serial : Nat
  room : Nat
  ready : Bool
  other : Option PlayerPtr
  game : Option GamePtr

/-- The players as seats, the games, who waits, and the history. -/
structure Board where
  registry : OrdMap Nat (Option PlayerPtr)
  seats : List Seat
  queue : List PlayerPtr
  tables : List GHS_Game
  games : List GamePtr
  notes : List Note

/-- What a message means for the board. -/
inductive Command
  | autoMatch
  | unAutoMatch
  | gameReady
  | other
  deriving DecidableEq, Repr

/-- What the calls of the service do to the board. -/
inductive Move
  | join (index serial : Nat)
  | leave (serial : Nat)
  | say (serial : Nat) (c : Command)
  | idle

namespace Seat

/-- A player who has just come. -/
def new (index serial : Nat) : Seat :=
  ⟨index, serial, DEFAULT_CMD_PACKET_SIZE, false, none, none⟩

/-- The player plays with `q` in game `g`. -/
def play (g : GamePtr) (q : PlayerPtr) (s : Seat) : Seat :=
  { s with game := some g, other := some q }

/-- The player is ready, and stays so. -/
def beReady (s : Seat) : Seat := { s with ready := true }

end Seat

namespace Board

/-! ## What is on it -/

/-- What the seat of `p` shows, if there is one. -/
def look {α : Type} (f : Seat → Option α) (b : Board) (p : PlayerPtr) : Option α :=
  b.seats[p]?.bind f

/-- The player's opponent. -/
def other (b : Board) (p : PlayerPtr) : Option PlayerPtr := b.look Seat.other p

/-- The player's game. -/
def game (b : Board) (p : PlayerPtr) : Option GamePtr := b.look Seat.game p

/-- Whether there is a player and this one is ready. -/
def ready (b : Board) (p : PlayerPtr) : Bool := (b.look (fun s => some s.ready) p).getD false

/-- The player is in the registry. -/
def Connected (b : Board) (p : PlayerPtr) : Prop := ∃ serial, b.registry.find serial = some (some p)

/-- `p` is one of the two players of a game. -/
def Plays (t : GHS_Game) (p : PlayerPtr) : Prop := t.m_player1 = p ∨ t.m_player2 = p

instance (t : GHS_Game) (p : PlayerPtr) : Decidable (Plays t p) :=
  inferInstanceAs (Decidable (_ ∨ _))

/-! ## Moves -/

/-- Changes a seat, if there is one. -/
def modifySeat (p : PlayerPtr) (f : Seat → Seat) (b : Board) : Board :=
  { b with seats := b.seats.modify p f }

/-- Something has happened to a game. -/
def note (n : Note) (b : Board) : Board := { b with notes := b.notes ++ [n] }

/-- The players of a game sit down and are told so. -/
def initGame (g : GamePtr) (t : GHS_Game) (b : Board) : Board :=
  (((b.modifySeat t.m_player1 (Seat.play g t.m_player2)).modifySeat t.m_player2
    (Seat.play g t.m_player1)).note (.gameInit g t.m_player1)).note (.gameInit g t.m_player2)

/-- The players of a game are told that it starts. -/
def startGame (g : GamePtr) (t : GHS_Game) (b : Board) : Board :=
  (b.note (.gameStart g t.m_player1)).note (.gameStart g t.m_player2)

/-- A game of these two players is set up. -/
def setUp (t : GHS_Game) (b : Board) : Board :=
  let b' := initGame b.tables.length t { b with tables := b.tables ++ [t] }
  { b' with games := b'.games ++ [b.tables.length] }

/-- The first two of the queue play. -/
def makeGame (b : Board) : Board :=
  match b.queue with
  | p :: q :: queue => setUp ⟨p, q⟩ { b with queue := queue }
  | _ => b

/-- The player waits, behind the others. -/
def enqueue (p : PlayerPtr) (b : Board) : Board := makeGame { b with queue := b.queue ++ [p] }

/-- One place of the player in the queue is taken out. -/
def unqueue (p : PlayerPtr) (b : Board) : Board := { b with queue := b.queue.erase p }

/-- The game that is started when `p` has become ready: its own, if its opponent is ready. -/
def starting (b : Board) (p : PlayerPtr) : Option (GamePtr × GHS_Game) :=
  (b.other p).bind fun q =>
    if b.ready q then (b.game p).bind fun g => b.tables[g]?.map fun t => (g, t) else none

/-- The player is ready, and so is perhaps the game. -/
def beReady (p : PlayerPtr) (b : Board) : Board :=
  let b := (b.modifySeat p Seat.beReady).note (.ready p)
  match b.starting p with
  | none => b
  | some (g, t) => b.startGame g t

/-- What a message does. -/
def act (p : PlayerPtr) (b : Board) : Command → Board
  | .autoMatch => b.enqueue p
  | .unAutoMatch => b.unqueue p
  | .gameReady => b.beReady p
  | .other => b

/-- One move. Whoever has no seat changes nothing. -/
def step (b : Board) : Move → Board
  | .join index serial =>
    match b.registry.find serial with
    | some _ => b
    | none =>
      { b with
        seats := b.seats ++ [Seat.new index serial]
        registry := b.registry.insert serial (some b.seats.length) }
  | .leave serial => { b with registry := b.registry.erase serial }
  | .say serial c =>
    match b.registry.find serial with
    | none => { b with registry := b.registry.insert serial none }
    | some none => b
    | some (some p) => b.act p c
  | .idle => b

end Board

/-- What a condition says about the player of a serial can be checked. -/
def decidableFound {α : Type} (o : Option (Option α)) (P : α → Prop) [DecidablePred P] :
    Decidable (∀ p, o = some (some p) → P p) :=
  match o with
  | some (some p) => decidable_of_iff (P p) ⟨fun hp q hq => by cases hq; exact hp, fun h => h p rfl⟩
  | some none => .isTrue fun _ h => by cases h
  | none => .isTrue fun _ h => by cases h

/-! ## The board of a lobby -/

/-- A player without packet and times. -/
def GHS_Player.seat (p : GHS_Player) : Seat :=
  ⟨p.m_index, p.m_serial, p.m_packet.m_nMaxSize, p.m_ready, p.m_other, p.m_game⟩

/-- A lobby without buffers and clock. -/
def GHS_Lobby.board (l : GHS_Lobby) : Board where
  registry := l.m_players
  seats := l.players.map GHS_Player.seat
  queue := l.m_queue
  tables := l.games
  games := l.m_games
  notes := l.notes

/-- The two bytes that `recv` looks at. -/
def opcode (body : Bytes) (env : Env) : Nat :=
  match body with
  | hi :: lo :: _ => be16Val hi lo
  | _ => env.cmd

/-- The message that stands behind a number. -/
def commandOf (cmd : Nat) : Command :=
  if cmd = PROTO_C_AutoMatch then .autoMatch
  else if cmd = PROTO_C_UAutoMatch then .unAutoMatch
  else if cmd = PROTO_C_GameReady then .gameReady
  else .other

/-- What a call means for the board. -/
def meaning : Call × Env → Move
  | (.onCon index serial, _) => .join index serial
  | (.onDisCon serial, _) => .leave serial
  | (.onRead serial body, env) => .say serial (commandOf (opcode body env))
  | (.process, _) => .idle

/-! ## Lists of objects -/

theorem map_modify {α β : Type} (l : List α) (i : Nat) {f : α → α} {g : α → β} {h : β → β}
    (hgf : ∀ a, g (f a) = h (g a)) : (l.modify i f).map g = (l.map g).modify i h := by
  induction l generalizing i with
  | nil => cases i <;> rfl
  | cons a l ih =>
    cases i with
    | zero =>
      rw [List.modify_zero_cons, List.map_cons, List.map_cons, List.modify_zero_cons, hgf]
    | succ i =>
      rw [List.modify_succ_cons, List.map_cons, List.map_cons, List.modify_succ_cons, ih]

/-- What an update leaves alone at its place is the same everywhere. -/
theorem map_modify_same {α β : Type} {l : List α} {i : Nat} {f : α → α} {g : α → β}
    (hgf : ∀ a, l[i]? = some a → g (f a) = g a) : (l.modify i f).map g = l.map g := by
  induction l generalizing i with
  | nil => cases i <;> rfl
  | cons a l ih =>
    cases i with
    | zero => rw [List.modify_zero_cons, List.map_cons, List.map_cons, hgf a rfl]
    | succ i => rw [List.modify_succ_cons, List.map_cons, List.map_cons, ih hgf]

namespace GHS_Lobby

variable {l l' : GHS_Lobby} {env : Env}

/-! ## Updates of players -/

theorem board_modifyPlayer (p : PlayerPtr) {f : GHS_Player → GHS_Player} {g : Seat → Seat}
    (h : ∀ player, (f player).seat = g player.seat) (l : GHS_Lobby) :
    (l.modifyPlayer p f).board = l.board.modifySeat p g := by
  simp only [board, modifyPlayer, Board.modifySeat, map_modify l.players p h]

/-- What is not on the board may change. -/
theorem board_modifyPlayer_same (p : PlayerPtr) {f : GHS_Player → GHS_Player}
    (h : ∀ player, l.players[p]? = some player → (f player).seat = player.seat) :
    (l.modifyPlayer p f).board = l.board := by
  simp only [board, modifyPlayer, map_modify_same h]

theorem board_withPacket {p : PlayerPtr} {packet : CmdPacket} {player : GHS_Player}
    (hplayer : l.players[p]? = some player) (h : packet.m_nMaxSize = player.m_packet.m_nMaxSize) :
    (l.modifyPlayer p (GHS_Player.withPacket packet)).board = l.board := by
  refine board_modifyPlayer_same p fun player' hplayer' => ?_
  obtain rfl := Option.some.inj (hplayer.symm.trans hplayer')
  simp only [GHS_Player.seat, GHS_Player.withPacket, h]

@[simp] theorem board_withSendTime (p : PlayerPtr) (time : UInt32) (l : GHS_Lobby) :
    (l.modifyPlayer p (GHS_Player.withSendTime time)).board = l.board :=
  board_modifyPlayer_same p fun _ _ => rfl

@[simp] theorem board_withRecvTime (p : PlayerPtr) (time : UInt32) (l : GHS_Lobby) :
    (l.modifyPlayer p (GHS_Player.withRecvTime time)).board = l.board :=
  board_modifyPlayer_same p fun _ _ => rfl

@[simp] theorem board_withRtt (p : PlayerPtr) (rtt : UInt32) (l : GHS_Lobby) :
    (l.modifyPlayer p (GHS_Player.withRtt rtt)).board = l.board :=
  board_modifyPlayer_same p fun _ _ => rfl

@[simp] theorem board_withSer (p : PlayerPtr) (v : Bool) (l : GHS_Lobby) :
    (l.modifyPlayer p (GHS_Player.withSer v)).board = l.board :=
  board_modifyPlayer_same p fun _ _ => rfl

@[simp] theorem board_withBottom (p : PlayerPtr) (v : Bool) (l : GHS_Lobby) :
    (l.modifyPlayer p (GHS_Player.withBottom v)).board = l.board :=
  board_modifyPlayer_same p fun _ _ => rfl

@[simp] theorem board_withReady (p : PlayerPtr) (l : GHS_Lobby) :
    (l.modifyPlayer p GHS_Player.withReady).board = l.board.modifySeat p Seat.beReady :=
  board_modifyPlayer p (fun _ => rfl) l

@[simp] theorem board_withGame (p q : PlayerPtr) (g : GamePtr) (l : GHS_Lobby) :
    (l.modifyPlayer p (GHS_Player.withGame g q)).board = l.board.modifySeat p (Seat.play g q) :=
  board_modifyPlayer p (fun _ => rfl) l

@[simp] theorem board_note (n : Note) (l : GHS_Lobby) : (l.note n).board = l.board.note n := rfl

@[simp] theorem board_getTickCount (env : Env) (l : GHS_Lobby) :
    (l.getTickCount env).2.board = l.board := rfl

/-! ## Looking at players -/

theorem board_look {α : Type} {p : PlayerPtr} {player : GHS_Player}
    (h : l.players[p]? = some player) (f : Seat → Option α) : l.board.look f p = f player.seat := by
  unfold Board.look
  show (l.players.map GHS_Player.seat)[p]?.bind f = _
  rw [List.getElem?_map, h]
  rfl

theorem board_other {p : PlayerPtr} {player : GHS_Player} (h : l.players[p]? = some player) :
    l.board.other p = player.m_other := board_look h _

theorem board_game {p : PlayerPtr} {player : GHS_Player} (h : l.players[p]? = some player) :
    l.board.game p = player.m_game := board_look h _

theorem board_ready {p : PlayerPtr} {player : GHS_Player} (h : l.players[p]? = some player) :
    l.board.ready p = player.m_ready := by
  rw [Board.ready, board_look h]
  rfl

/-! ## Sending is not on the board -/

theorem send_board {index serial : Nat} {packet : CmdPacket}
    (h : l.send index serial packet env = some l') : l'.board = l.board := by
  unfold send at h
  split at h
  · obtain rfl := Option.some.inj h
    rfl
  · dsimp only at h
    split at h
    · cases h
    · obtain rfl := Option.some.inj h
      rfl

theorem player_send_board {p : PlayerPtr} {packet : CmdPacket}
    (h : GHS_Player.send p packet env l = some l') : l'.board = l.board := by
  obtain ⟨player, -, h⟩ := Option.bind_eq_some_iff.mp h
  obtain ⟨l₁, hsend, h⟩ := Option.bind_eq_some_iff.mp h
  obtain rfl := Option.some.inj h
  rw [board_withSendTime, ← send_board hsend]
  rfl

theorem sendOwn_board {p : PlayerPtr} {write : GHS_Player → CmdPacket → CmdPacket}
    (hwrite : ∀ player packet, (write player packet).m_nMaxSize = packet.m_nMaxSize)
    (h : GHS_Player.sendOwn p write env l = some l') : l'.board = l.board := by
  obtain ⟨player, hplayer, h⟩ := Option.bind_eq_some_iff.mp h
  have hsize : (write player player.m_packet.beginWrite).m_nMaxSize = player.m_packet.m_nMaxSize :=
    hwrite _ _
  rw [player_send_board h, board_withPacket hplayer hsize]

theorem sendGameInit_board {p : PlayerPtr} (h : GHS_Player.sendGameInit p env l = some l') :
    l'.board = l.board := sendOwn_board (fun _ _ => CmdPacket.m_nMaxSize_writeUShort _ _) h

theorem sendGameStart_board {p : PlayerPtr} (h : GHS_Player.sendGameStart p env l = some l') :
    l'.board = l.board :=
  sendOwn_board (fun _ _ => by
    simp only [GHS_Player.writeGameStart, CmdPacket.m_nMaxSize_writeByte,
      CmdPacket.m_nMaxSize_writeUShort]) h

theorem sendTime_board {p : PlayerPtr} {cmd : Nat} {time : UInt32}
    (h : GHS_Player.sendTime p cmd time env l = some l') : l'.board = l.board :=
  sendOwn_board (fun _ _ => by
    simp only [CmdPacket.m_nMaxSize_writeUInt, CmdPacket.m_nMaxSize_writeUShort]) h

theorem keepAlive_board {p : PlayerPtr} (h : GHS_Player.keepAlive p env l = some l') :
    l'.board = l.board := by
  unfold GHS_Player.keepAlive at h
  dsimp only at h
  rw [sendTime_board h, board_getTickCount]

theorem player_process_board {p : PlayerPtr} (h : GHS_Player.process p env l = some l') :
    l'.board = l.board := by
  unfold GHS_Player.process at h
  dsimp only at h
  obtain ⟨player, -, h⟩ := Option.bind_eq_some_iff.mp h
  split at h
  · rw [keepAlive_board h, board_getTickCount]
  · obtain rfl := Option.some.inj h
    rw [board_getTickCount]

theorem relay_board {packet : CmdPacket} {p : PlayerPtr}
    (h : GHS_Player.relay packet p env l = some l') : l'.board = l.board := by
  obtain ⟨buf, -, h⟩ := Option.bind_eq_some_iff.mp h
  exact player_send_board h

/-! ## Games -/

theorem init_board {g : GamePtr} {t : GHS_Game} (ht : l.games[g]? = some t)
    (h : GHS_Game.init g env l = some l') : l'.board = l.board.initGame g t := by
  obtain ⟨t', ht', h⟩ := Option.bind_eq_some_iff.mp h
  obtain rfl : t = t' := Option.some.inj (ht.symm.trans ht')
  obtain ⟨l₁, h1, h⟩ := Option.bind_eq_some_iff.mp h
  rw [sendGameInit_board h, board_note, sendGameInit_board h1, board_note,
    board_withBottom, board_withBottom, board_withSer, board_withSer, board_withGame,
    board_withGame]
  rfl

theorem start_board {g : GamePtr} {t : GHS_Game} (ht : l.games[g]? = some t)
    (h : GHS_Game.start g env l = some l') : l'.board = l.board.startGame g t := by
  obtain ⟨t', ht', h⟩ := Option.bind_eq_some_iff.mp h
  obtain rfl : t = t' := Option.some.inj (ht.symm.trans ht')
  obtain ⟨l₁, h1, h⟩ := Option.bind_eq_some_iff.mp h
  rw [sendGameStart_board h, board_note, sendGameStart_board h1, board_note]
  rfl

theorem makeGame_board (h : l.makeGame env = some l') : l'.board = l.board.makeGame := by
  unfold makeGame at h
  split at h
  · next p q queue hqueue =>
    obtain ⟨l₁, hinit, h⟩ := Option.bind_eq_some_iff.mp h
    obtain rfl := Option.some.inj h
    have hboard := init_board (t := ⟨p, q⟩) (List.getElem?_concat_length ..) hinit
    have hl : l.board.queue = p :: q :: queue := hqueue
    rw [Board.makeGame, hl]
    show ({ l₁.board with games := l₁.board.games ++ [l.games.length] } : Board) = _
    rw [hboard]
    rfl
  · next hshort =>
    obtain rfl := Option.some.inj h
    rw [Board.makeGame]
    split
    · next p q queue hqueue => exact absurd hqueue (hshort p q queue)
    · rfl

theorem enqueue_board {p : PlayerPtr} (h : l.enqueue p env = some l') :
    l'.board = l.board.enqueue p := by
  rw [makeGame_board h]
  rfl

theorem gameReady_board {p : PlayerPtr} (h : GHS_Player.gameReady p env l = some l') :
    l'.board = l.board.beReady p := by
  have hboard : ((l.modifyPlayer p GHS_Player.withReady).note (.ready p)).board
      = (l.board.modifySeat p Seat.beReady).note (.ready p) := by
    rw [board_note, board_withReady]
  unfold GHS_Player.gameReady at h
  rw [Board.beReady, ← hboard]
  generalize (l.modifyPlayer p GHS_Player.withReady).note (.ready p) = l₁ at h
  obtain ⟨player, hplayer, h⟩ := Option.bind_eq_some_iff.mp h
  rw [Board.starting, board_other hplayer, board_game hplayer]
  split at h
  · next hnone =>
    obtain rfl := Option.some.inj h
    rw [hnone]
    rfl
  · next q hq =>
    obtain ⟨opponent, hopponent, h⟩ := Option.bind_eq_some_iff.mp h
    rw [hq, Option.bind_some, board_ready hopponent]
    split at h
    · next hready =>
      obtain ⟨g, hg, h⟩ := Option.bind_eq_some_iff.mp h
      obtain ⟨t, ht, -⟩ := Option.bind_eq_some_iff.mp h
      have htable : l₁.board.tables[g]? = some t := ht
      rw [if_pos hready, hg, Option.bind_some, htable, Option.map_some, start_board ht h]
    · next hnot =>
      obtain rfl := Option.some.inj h
      rw [if_neg hnot]

/-! ## Messages -/

/-- `cmd` after the first read of a message. -/
theorem readUShort_getD (body : Bytes) (env : Env) (packet : CmdPacket) :
    (packet.beginRead body body.length).readUShort.1.getD env.cmd = opcode body env := by
  match body with
  | [] => rfl
  | [_] => rfl
  | hi :: lo :: rest =>
    have hlen : SHORT_SIZE ≤ (hi :: lo :: rest).length := Nat.le_add_left 2 rest.length
    rw [CmdPacket.readUShort_fst, CmdPacket.readData_bytes hlen]
    rfl

/-- The lobby when `recv` has taken the time. -/
def received (p : PlayerPtr) (env : Env) (l : GHS_Lobby) : GHS_Lobby :=
  (l.getTickCount env).2.modifyPlayer p (GHS_Player.withRecvTime (l.getTickCount env).1)

@[simp] theorem board_received (p : PlayerPtr) : (l.received p env).board = l.board := by
  rw [received, board_withRecvTime, board_getTickCount]

/-- What `recv` does with a message of the number `cmd` when it has taken the time. -/
inductive Receiving (p : PlayerPtr) (packet : CmdPacket) (cmd : Nat) (env : Env) (l : GHS_Lobby) :
    GHS_Lobby → Prop
  | ignored (hcmd : commandOf cmd = .other) : Receiving p packet cmd env l l
  | answered (hcmd : cmd = PROTO_Keep_Alive) (time : UInt32) {l' : GHS_Lobby}
      (h : GHS_Player.sendTime p PROTO_Keep_Alive_Ack time env l = some l') :
      Receiving p packet cmd env l l'
  | measured (hcmd : cmd = PROTO_Keep_Alive_Ack) (time : UInt32) :
      Receiving p packet cmd env l ((l.getTickCount env).2.modifyPlayer p
        (GHS_Player.withRtt ((l.getTickCount env).1 - time)))
  | relayed (hcmd : cmd = PROTO_Synch_Pos ∨ cmd = PROTO_C_GameShot) (player : GHS_Player)
      (q : PlayerPtr) (hp : l.players[p]? = some player) (hother : player.m_other = some q)
      {l' : GHS_Lobby} (h : GHS_Player.relay packet q env l = some l') :
      Receiving p packet cmd env l l'
  | autoMatch (hcmd : cmd = PROTO_C_AutoMatch) {l' : GHS_Lobby} (h : l.enqueue p env = some l') :
      Receiving p packet cmd env l l'
  | unAutoMatch (hcmd : cmd = PROTO_C_UAutoMatch) :
      Receiving p packet cmd env l (l.unqueue p)
  | gameReady (hcmd : cmd = PROTO_C_GameReady) {l' : GHS_Lobby}
      (h : GHS_Player.gameReady p env l = some l') : Receiving p packet cmd env l l'

/-- **Every message has one of the outcomes.** -/
theorem recv_cases {p : PlayerPtr} {packet : CmdPacket}
    (h : GHS_Player.recv p packet env l = some l') :
    Receiving p packet.readUShort.2 (packet.readUShort.1.getD env.cmd) env (l.received p env)
      l' := by
  unfold GHS_Player.recv at h
  dsimp only at h
  rw [show (l.getTickCount env).2.modifyPlayer p
    (GHS_Player.withRecvTime (l.getTickCount env).1) = l.received p env from rfl] at h
  generalize l.received p env = l₁ at h ⊢
  generalize packet.readUShort.1.getD env.cmd = cmd at h ⊢
  generalize packet.readUShort.2 = packet at h ⊢
  obtain ⟨player, hp, h⟩ := Option.bind_eq_some_iff.mp h
  split at h
  · next hcmd =>
    split at h
    · obtain rfl := Option.some.inj h
      exact .ignored (by rw [hcmd]; decide)
    · exact .answered hcmd _ h
  split at h
  · next hcmd =>
    split at h
    · obtain rfl := Option.some.inj h
      exact .ignored (by rw [hcmd]; decide)
    · obtain rfl := Option.some.inj h
      exact .measured hcmd _
  split at h
  · next hcmd =>
    split at h
    · obtain rfl := Option.some.inj h
      exact .ignored (by rw [hcmd]; decide)
    · next q hq => exact .relayed (Or.inl hcmd) player q hp hq h
  split at h
  · next hcmd => exact .autoMatch hcmd h
  split at h
  · next hcmd =>
    obtain rfl := Option.some.inj h
    exact .unAutoMatch hcmd
  split at h
  · next hcmd => exact .gameReady hcmd h
  next hmatch hunmatch hready =>
  have hnone : commandOf cmd = .other := by
    rw [commandOf, if_neg hmatch, if_neg hunmatch, if_neg hready]
  split at h
  · next hcmd =>
    split at h
    · obtain rfl := Option.some.inj h
      exact .ignored hnone
    · obtain ⟨q, hq, h⟩ := Option.bind_eq_some_iff.mp h
      exact .relayed (Or.inr hcmd) player q hp hq h
  · obtain rfl := Option.some.inj h
    exact .ignored hnone

theorem recv_board {p : PlayerPtr} {packet : CmdPacket}
    (h : GHS_Player.recv p packet env l = some l') :
    l'.board = l.board.act p (commandOf (packet.readUShort.1.getD env.cmd)) := by
  have hboard : (l.received p env).board = l.board := board_received p
  rw [← hboard]
  cases recv_cases h with
  | ignored hcmd =>
    rw [hcmd]
    rfl
  | answered hcmd _ h =>
    rw [hcmd, show commandOf PROTO_Keep_Alive = .other by decide]
    exact sendTime_board h
  | measured hcmd _ =>
    rw [hcmd, show commandOf PROTO_Keep_Alive_Ack = .other by decide, board_withRtt,
      board_getTickCount]
    rfl
  | relayed hcmd _ _ _ _ h =>
    rw [show commandOf _ = .other by rcases hcmd with hcmd | hcmd <;> rw [hcmd] <;> decide]
    exact relay_board h
  | autoMatch hcmd h =>
    rw [hcmd, show commandOf PROTO_C_AutoMatch = .autoMatch by decide]
    exact enqueue_board h
  | unAutoMatch hcmd =>
    rw [hcmd, show commandOf PROTO_C_UAutoMatch = .unAutoMatch by decide]
    rfl
  | gameReady hcmd h =>
    rw [hcmd, show commandOf PROTO_C_GameReady = .gameReady by decide]
    exact gameReady_board h

theorem process_board (h : l.process env = some l') : l'.board = l.board := by
  unfold process at h
  generalize l.m_players.entries = entries at h
  induction entries generalizing l with
  | nil =>
    obtain rfl := Option.some.inj h
    rfl
  | cons e entries ih =>
    rw [List.foldlM_cons] at h
    obtain ⟨l₁, h1, h⟩ := Option.bind_eq_some_iff.mp h
    obtain ⟨player, -, h1⟩ := Option.bind_eq_some_iff.mp h1
    rw [ih h, player_process_board h1]

end GHS_Lobby

/-- **Every step of the lobby is a step of its board.** -/
theorem step_board {l l' : GHS_Lobby} {a : Call × Env} (h : step l a = some l') :
    l'.board = l.board.step (meaning a) := by
  obtain ⟨call, env⟩ := a
  cases call with
  | onCon index serial =>
    rw [step] at h
    unfold GHS_Lobby.addPlayer at h
    split at h
    · cases h
    · next hnone =>
      obtain rfl := Option.some.inj h
      rw [meaning, Board.step, show l.board.registry.find serial = none from hnone]
      simp only [GHS_Lobby.board, List.map_append, List.map_cons, List.map_nil, List.length_map,
        GHS_Player.seat, GHS_Player.new, CmdPacket.m_nMaxSize_new]
      rfl
  | onDisCon serial =>
    obtain rfl := Option.some.inj h
    unfold GHS_Lobby.removePlayer
    split
    · next hnone =>
      rw [meaning, Board.step, show l.board.registry.erase serial = l.board.registry from
        OrdMap.erase_of_find_none hnone]
    · rfl
  | onRead serial body =>
    rw [step] at h
    unfold GHS_Lobby.onRead GHS_Lobby.getPlayer at h
    rw [meaning, Board.step, show l.board.registry.find serial = l.m_players.find serial from rfl]
    cases hfind : l.m_players.find serial with
    | none =>
      rw [hfind] at h
      obtain rfl := Option.some.inj h
      rfl
    | some entry =>
      rw [hfind] at h
      cases entry with
      | none =>
        obtain rfl := Option.some.inj h
        rfl
      | some p =>
        dsimp only at h
        rw [GHS_Lobby.recv_board h, GHS_Lobby.readUShort_getD]
  | process => exact GHS_Lobby.process_board h

/-! ## Invariants of the board -/

/-- The board before the first call. -/
def Board.empty : Board := GHS_Lobby.new.board

/-- **What every move keeps holds of the board of every lobby reached.** -/
theorem board_invariant (Inv : Board → Prop) (ok : Board → Move → Prop) (h0 : Inv Board.empty)
    (hstep : ∀ b m, Inv b → ok b m → Inv (b.step m)) {l : GHS_Lobby}
    (hr : Reach Initial step (fun l a => ok l.board (meaning a)) l) : Inv l.board := by
  refine hr.invariant (fun l => Inv l.board) ?_ ?_
  · rintro l rfl
    exact h0
  · intro l a l' hinv hok h
    rw [step_board h]
    exact hstep l.board (meaning a) hinv hok

end GhNet.Lobby
