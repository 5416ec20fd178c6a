import Mathlib.Data.Nat.Basic
import GhNet.Infra.OrdMap
import GhNet.Infra.Run
import GhNet.Iocp.Machine
import GhNet.Net.CmdPacket

/-!
# `GHS_Lobby` as a state machine

The lobby and the objects it points to: players and games are never deleted, so a pointer is a
position in the list of the objects that were made. The lobby is called from one thread, and each
call (`onCon`, `onDisCon` and `onRead` of `NetEvent`, and `process`) is one step.

A step is `none` where the program ends: at a null pointer, at a failed assertion, and at an
exception, which nothing catches.

`sent` and `notes` are the history of the run: the calls of `IOService::send`, and what happened to
the games. The code reads neither.
-/

namespace GhNet.Lobby

open GhNet GhNet.Net

/-! ## Protocol numbers -/

/-- A client asks for a match. -/
def PROTO_C_AutoMatch : Nat := 0x0001

/-- A client no longer asks for one. -/
def PROTO_C_UAutoMatch : Nat := 0x0002

/-- The server has found a match. -/
def PROTO_S_GameInit : Nat := 0x0003

/-- A client is ready to play. -/
def PROTO_C_GameReady : Nat := 0x0004

/-- The server starts the game; whether the player serves and whether it is at the bottom follow. -/
def PROTO_S_GameStart : Nat := 0x0005

/-- A shot, which goes to the other player as it is. -/
def PROTO_C_GameShot : Nat := 0x0006

/-- A time, which the other side sends back. -/
def PROTO_Keep_Alive : Nat := 0x0008

/-- The time that came, sent back. -/
def PROTO_Keep_Alive_Ack : Nat := 0x0009

/-- The ball as a player sees it, which goes to the other player as it is. -/
def PROTO_Synch_Pos : Nat := 0x000a

/-! ## The objects -/

/-- Position in the list of the players that were made. -/
abbrev PlayerPtr := Nat

/-- Position in the list of the games that were made. -/
abbrev GamePtr := Nat

/-- `class GHS_Player`. `none` is a null pointer. -/
structure GHS_Player where
  m_index : Nat
  m_serial : Nat
  m_packet : CmdPacket
  m_ready : Bool
  m_other : Option PlayerPtr
  m_game : Option GamePtr
  m_lstSendTime : UInt32
  m_lstRecvTime : UInt32
  m_rtt : UInt32
  m_bSer : Bool
  m_bottom : Bool

/-- `class GHS_Game` -/
structure GHS_Game where
  m_player1 : PlayerPtr
  m_player2 : PlayerPtr
  deriving DecidableEq, Repr

/-- A call of `IOService::send`. -/
structure Sent where
  index : Nat
  serial : Nat
  bytes : Bytes
  deriving DecidableEq, Repr

/-- What happened to games: `sendGameInit` and `sendGameStart` were called on a player for a game,
or `PROTO_C_GameReady` came from a player. -/
inductive Note
  | gameInit (g : GamePtr) (p : PlayerPtr)
  | ready (p : PlayerPtr)
  | gameStart (g : GamePtr) (p : PlayerPtr)
  deriving DecidableEq, Repr

/-- `class GHS_Lobby`, the objects, the number of readings of the clock, and the history. -/
structure GHS_Lobby where
  m_writeBuff : SockBuf
  m_players : OrdMap Nat (Option PlayerPtr)
  m_queue : List PlayerPtr
  m_games : List GamePtr
  players : List GHS_Player
  games : List GHS_Game
  ticksRead : Nat
  sent : List Sent
  notes : List Note

/-- A lobby without players. -/
def GHS_Lobby.new : GHS_Lobby where
  m_writeBuff := SockBuf.new
  m_players := OrdMap.empty
  m_queue := []
  m_games := []
  players := []
  games := []
  ticksRead := 0
  sent := []
  notes := []

/-- What a call finds that the code does not determine: what the clock shows at each reading, what
is in a new block of memory and behind a block, and what is in variables that were not set. -/
structure Env where
  ticks : Nat → UInt32
  memory : Nat → Memory
  behind : Memory
  cmd : Nat
  m_rtt : UInt32
  m_bottom : Bool

namespace GHS_Lobby

/-- `GetTickCount()` -/
def getTickCount (env : Env) (l : GHS_Lobby) : UInt32 × GHS_Lobby :=
  (env.ticks l.ticksRead, { l with ticksRead := l.ticksRead + 1 })

/-- Changes the object of a player, if there is one. -/
def modifyPlayer (p : PlayerPtr) (f : GHS_Player → GHS_Player) (l : GHS_Lobby) : GHS_Lobby :=
  { l with players := l.players.modify p f }

/-- Something has happened to a game. -/
def note (n : Note) (l : GHS_Lobby) : GHS_Lobby := { l with notes := l.notes ++ [n] }

/-- Fills the buffer with a header and a body, and returns what is readable. -/
def frameInto (header body : Bytes) : SockBufM Bytes := do
  SockBuf.ensureWritableBytes (body.length + 2)
  SockBuf.apendBuf header
  SockBuf.apendBuf body
  let n ← SockBuf.readableBytes
  let b ← get
  return slice b.m_buf.val b.m_read_index n

/-- `GHS_Lobby::send`: the frame is made in `m_writeBuff` and goes to `IOService::send`. -/
def send (index serial : Nat) (packet : CmdPacket) (env : Env) (l : GHS_Lobby) :
    Option GHS_Lobby :=
  -- `index == -1`
  if index = 2 ^ 32 - 1 then some l
  else
    let packetLen := packet.getDataSize % 2 ^ 16
    match frameInto (be16 packetLen) (packet.getData packetLen env.behind) l.m_writeBuff.reset with
    | .error _ _ => none
    | .ok bytes b => some { l with m_writeBuff := b, sent := l.sent ++ [⟨index, serial, bytes⟩] }

end GHS_Lobby

/-! ## Players -/

namespace GHS_Player

/-- `GHS_Player(index, serial)` -/
def new (index serial : Nat) (lstRecvTime lstSendTime : UInt32) (env : Env) : GHS_Player where
  m_index := index
  m_serial := serial
  m_packet := CmdPacket.new (env.memory 0)
  m_ready := false
  m_other := none
  m_game := none
  m_lstSendTime := lstSendTime
  m_lstRecvTime := lstRecvTime
  m_rtt := env.m_rtt
  m_bSer := false
  m_bottom := env.m_bottom

/-- The packet of the player is written anew. -/
def withPacket (packet : CmdPacket) (p : GHS_Player) : GHS_Player := { p with m_packet := packet }

/-- `m_lstSendTime = GetTickCount()` -/
def withSendTime (time : UInt32) (p : GHS_Player) : GHS_Player := { p with m_lstSendTime := time }

/-- `m_lstRecvTime = GetTickCount()` -/
def withRecvTime (time : UInt32) (p : GHS_Player) : GHS_Player := { p with m_lstRecvTime := time }

/-- How long a time has been under way is noted. -/
def withRtt (rtt : UInt32) (p : GHS_Player) : GHS_Player := { p with m_rtt := rtt }

/-- `m_ready = true`, which nothing takes back. -/
def withReady (p : GHS_Player) : GHS_Player := { p with m_ready := true }

/-- Whether the player serves. -/
def withSer (v : Bool) (p : GHS_Player) : GHS_Player := { p with m_bSer := v }

/-- Whether the player is at the bottom. -/
def withBottom (v : Bool) (p : GHS_Player) : GHS_Player := { p with m_bottom := v }

/-- `m_game` and `m_other`, which are set together. -/
def withGame (game : GamePtr) (other : PlayerPtr) (p : GHS_Player) : GHS_Player :=
  { p with m_game := some game, m_other := some other }

/-- `GHS_Player::send`, which notes the time. -/
def send (this : PlayerPtr) (packet : CmdPacket) (env : Env) (l : GHS_Lobby) :
    Option GHS_Lobby := do
  let player ← l.players[this]?
  let l ← l.send player.m_index player.m_serial packet env
  let (now, l) := l.getTickCount env
  return l.modifyPlayer this (withSendTime now)

/-- Writes `m_packet` anew and sends it. -/
def sendOwn (this : PlayerPtr) (write : GHS_Player → CmdPacket → CmdPacket) (env : Env)
    (l : GHS_Lobby) : Option GHS_Lobby := do
  let player ← l.players[this]?
  let packet := write player player.m_packet.beginWrite
  send this packet env (l.modifyPlayer this (withPacket packet))

/-- A `bool` as a `char`. -/
def boolByte (b : Bool) : UInt8 := if b then 1 else 0

/-- `PROTO_S_GameInit`, with nothing behind the number. -/
def sendGameInit (this : PlayerPtr) : Env → GHS_Lobby → Option GHS_Lobby :=
  sendOwn this fun _ packet => (packet.writeUShort PROTO_S_GameInit).2

/-- What `sendGameStart` writes into `m_packet`: who serves and who is at the bottom. -/
def writeGameStart (player : GHS_Player) (packet : CmdPacket) : CmdPacket :=
  let packet := (packet.writeUShort PROTO_S_GameStart).2
  let packet := (packet.writeByte (boolByte player.m_bSer)).2
  (packet.writeByte (boolByte player.m_bottom)).2

/-- `PROTO_S_GameStart` -/
def sendGameStart (this : PlayerPtr) : Env → GHS_Lobby → Option GHS_Lobby :=
  sendOwn this writeGameStart

/-- The two packets with a time in them, `PROTO_Keep_Alive` and `PROTO_Keep_Alive_Ack`. -/
def sendTime (this : PlayerPtr) (cmd : Nat) (time : UInt32) : Env → GHS_Lobby → Option GHS_Lobby :=
  sendOwn this fun _ packet => ((packet.writeUShort cmd).2.writeUInt time).2

/-- `PROTO_Keep_Alive` with what the clock shows. -/
def keepAlive (this : PlayerPtr) (env : Env) (l : GHS_Lobby) : Option GHS_Lobby :=
  let (now, l) := l.getTickCount env
  sendTime this PROTO_Keep_Alive now env l

-- The test for `30*1000` without a message has an empty body.
/-- `GHS_Player::process`: a player to whom nothing was sent for ten seconds is sent a time. -/
def process (this : PlayerPtr) (env : Env) (l : GHS_Lobby) : Option GHS_Lobby := do
  let (now, l) := l.getTickCount env
  let player ← l.players[this]?
  if now - player.m_lstSendTime > 10 * 1000 then keepAlive this env l else some l

end GHS_Player

/-! ## Games -/

namespace GHS_Game

/-- `GHS_Game::init`: both players get the game and each other, the first one serves, and both are
told. -/
def init (this : GamePtr) (env : Env) (l : GHS_Lobby) : Option GHS_Lobby := do
  let game ← l.games[this]?
  let l := l.modifyPlayer game.m_player1 (GHS_Player.withGame this game.m_player2)
  let l := l.modifyPlayer game.m_player2 (GHS_Player.withGame this game.m_player1)
  let l := l.modifyPlayer game.m_player1 (GHS_Player.withSer true)
  let l := l.modifyPlayer game.m_player2 (GHS_Player.withSer false)
  let l := l.modifyPlayer game.m_player1 (GHS_Player.withBottom true)
  let l := l.modifyPlayer game.m_player2 (GHS_Player.withBottom false)
  let l ← GHS_Player.sendGameInit game.m_player1 env (l.note (.gameInit this game.m_player1))
  GHS_Player.sendGameInit game.m_player2 env (l.note (.gameInit this game.m_player2))

/-- `GHS_Game::start`: both players are told that the game starts. -/
def start (this : GamePtr) (env : Env) (l : GHS_Lobby) : Option GHS_Lobby := do
  let game ← l.games[this]?
  let l ← GHS_Player.sendGameStart game.m_player1 env (l.note (.gameStart this game.m_player1))
  GHS_Player.sendGameStart game.m_player2 env (l.note (.gameStart this game.m_player2))

end GHS_Game

/-! ## Matching -/

namespace GHS_Lobby

/-- `makeGame`: the first two players of the queue get a game. One player alone stays. -/
def makeGame (env : Env) (l : GHS_Lobby) : Option GHS_Lobby :=
  match l.m_queue with
  | player1 :: player2 :: queue => do
    let game := l.games.length
    let l := { l with m_queue := queue, games := l.games ++ [⟨player1, player2⟩] }
    let l ← GHS_Game.init game env l
    return { l with m_games := l.m_games ++ [game] }
  | _ => some l

/-- A player asks for a match. Nothing is asked of the player: one that is in the queue or in a
game is put behind the others like any other. -/
def enqueue (player : PlayerPtr) (env : Env) (l : GHS_Lobby) : Option GHS_Lobby :=
  makeGame env { l with m_queue := l.m_queue ++ [player] }

/-- A player no longer asks for one. Where the player stands more than once, one place is taken
out. -/
def unqueue (player : PlayerPtr) (l : GHS_Lobby) : GHS_Lobby :=
  { l with m_queue := l.m_queue.erase player }

end GHS_Lobby

/-! ## Messages -/

namespace GHS_Player

/-- Copies what a packet reads into a packet of its own and sends that. -/
def relay (packet : CmdPacket) (target : PlayerPtr) (env : Env) (l : GHS_Lobby) :
    Option GHS_Lobby := do
  let buf ← packet.getReadData
  let packet2 := (CmdPacket.new (env.memory 1)).beginWriteCopy buf packet.getDataSize
    (env.memory 2)
  send target packet2 env l

/-- `PROTO_C_GameReady`: the game starts if the other player is ready too. -/
def gameReady (this : PlayerPtr) (env : Env) (l : GHS_Lobby) : Option GHS_Lobby := do
  let l := (l.modifyPlayer this withReady).note (.ready this)
  let player ← l.players[this]?
  match player.m_other with
  | none => some l
  | some other =>
    let opponent ← l.players[other]?
    if opponent.m_ready then
      let game ← player.m_game
      GHS_Game.start game env l
    else some l

/-- `GHS_Player::recv`, one branch for each number. What is too short or unknown changes nothing
but the time. -/
def recv (this : PlayerPtr) (packet : CmdPacket) (env : Env) (l : GHS_Lobby) :
    Option GHS_Lobby := do
  let (now, l) := l.getTickCount env
  let l := l.modifyPlayer this (withRecvTime now)
  -- `cmd` keeps what happened to be in it if there are not two bytes
  let (ret, packet) := packet.readUShort
  let cmd := ret.getD env.cmd
  let player ← l.players[this]?
  if cmd = PROTO_Keep_Alive then
    match packet.readUInt with
    | (none, _) => some l
    | (some time, _) => sendTime this PROTO_Keep_Alive_Ack time env l
  else if cmd = PROTO_Keep_Alive_Ack then
    match packet.readUInt with
    | (none, _) => some l
    | (some time, _) =>
      let (now, l) := l.getTickCount env
      some (l.modifyPlayer this (withRtt (now - time)))
  else if cmd = PROTO_Synch_Pos then
    match player.m_other with
    | none => some l
    | some other => relay packet other env l
  else if cmd = PROTO_C_AutoMatch then l.enqueue this env
  else if cmd = PROTO_C_UAutoMatch then some (l.unqueue this)
  else if cmd = PROTO_C_GameReady then gameReady this env l
  else if cmd = PROTO_C_GameShot then
    match player.m_game with
    | none => some l
    | some _ =>
      let other ← player.m_other
      relay packet other env l
  else some l

end GHS_Player

/-! ## The calls -/

namespace GHS_Lobby

/-- `addPlayer`: an entry that is there is a failed assertion. -/
def addPlayer (index serial : Nat) (env : Env) (l : GHS_Lobby) : Option GHS_Lobby :=
  match l.m_players.find serial with
  | some _ => none
  | none =>
    let (lstRecvTime, l) := l.getTickCount env
    let (lstSendTime, l) := l.getTickCount env
    some { l with
      players := l.players ++ [GHS_Player.new index serial lstRecvTime lstSendTime env]
      m_players := l.m_players.insert serial (some l.players.length) }

/-- `removePlayer`: the entry is taken out, and what points to the player stays. -/
def removePlayer (serial : Nat) (l : GHS_Lobby) : GHS_Lobby :=
  match l.m_players.find serial with
  | none => l
  | some _ => { l with m_players := l.m_players.erase serial }

/-- `m_players[serial]`, which makes a null entry if there is none. -/
def getPlayer (serial : Nat) (l : GHS_Lobby) : Option PlayerPtr × GHS_Lobby :=
  match l.m_players.find serial with
  | some player => (player, l)
  | none => (none, { l with m_players := l.m_players.insert serial none })

/-- `GHS_Lobby::onRead` -/
def onRead (serial : Nat) (packet : CmdPacket) (env : Env) (l : GHS_Lobby) : Option GHS_Lobby :=
  match l.getPlayer serial with
  | (none, l) => some l
  | (some player, l) => GHS_Player.recv player packet env l

-- `GHS_Game::process` is empty.
/-- `GHS_Lobby::process`: every player's, in the order of the serials. -/
def process (env : Env) (l : GHS_Lobby) : Option GHS_Lobby :=
  l.m_players.entries.foldlM (fun l e => e.2.bind fun player => GHS_Player.process player env l) l

end GHS_Lobby

/-- The calls that the server makes, with what `NetEvent` passes on: a connection in a slot of the
service, the end of a connection, a message body, and a round of the main loop. -/
inductive Call
  | onCon (index serial : Nat)
  | onDisCon (serial : Nat)
  | onRead (serial : Nat) (body : Bytes)
  | process

/-- One call. `NetEvent::onRead` makes a packet of the body, whose memory is new. -/
def step (l : GHS_Lobby) : Call × Env → Option GHS_Lobby
  | (.onCon index serial, env) => l.addPlayer index serial env
  | (.onDisCon serial, _) => some (l.removePlayer serial)
  | (.onRead serial body, env) =>
    let packet := (CmdPacket.new (env.memory 0)).beginRead body body.length
    l.onRead serial packet env
  | (.process, env) => l.process env

/-- A new connection comes with a slot that the service has. -/
def Call.Slotted : Call → Prop
  | .onCon index _ => index < Iocp.MAX_PEER_NUM
  | .onDisCon _ | .onRead .. | .process => True

instance : DecidablePred Call.Slotted
  | .onCon .. => inferInstanceAs (Decidable (_ < _))
  | .onDisCon _ | .onRead .. | .process => .isTrue trivial

/-- The lobby before the first call. -/
def Initial (l : GHS_Lobby) : Prop := l = GHS_Lobby.new

/-- The lobbies that a run of the service's calls leads to. -/
abbrev Reachable : GHS_Lobby → Prop := Reach Initial step fun _ a => a.1.Slotted

/-- Where nothing is determined there are zeros. -/
def Env.zero : Env where
  ticks := fun _ => 0
  memory := fun _ _ => 0
  behind := fun _ => 0
  cmd := 0
  m_rtt := 0
  m_bottom := false

/-- The run of these calls. -/
def runCalls (calls : List Call) : Option GHS_Lobby :=
  exec step GHS_Lobby.new (calls.map fun call => (call, Env.zero))

/-- Concrete runs reach what they end in, if their steps meet the condition. -/
theorem reach_runCalls {ok : GHS_Lobby → Call × Env → Prop} {calls : List Call}
    (hok : Along step ok GHS_Lobby.new (calls.map fun call => (call, Env.zero)))
    (h : (runCalls calls).isSome = true) : Reach Initial step ok ((runCalls calls).get h) :=
  Reach.of_exec (.start rfl) hok (Option.some_get h).symm

/-- Two players ask for a match, get ready and play. -/
def playing : List Call :=
  [.onCon 0 0, .onCon 1 1, .onRead 0 [0, 1], .onRead 1 [0, 1], .onRead 0 [0, 4], .onRead 1 [0, 4]]

theorem playing_runs : (runCalls playing).isSome = true := by decide +kernel

end GhNet.Lobby
