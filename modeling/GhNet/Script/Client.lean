import GhNet.Client.CmdPacket

/-!
# `Client` and `Game`

The scripts of the client: which buttons are on the screen in which state, which packets are sent,
and what a message of the server changes. Positions and velocities are only what a packet is filled
with; what `Other` makes of those of the other player is left out.

A call returns the client and the packets that it has given to `TcpCli.Send`. `ticks` is what
`Sys_GetTime` shows, reading after reading.
-/

namespace GhNet.Script

open GhNet GhNet.Client

/-! ## Protocol numbers -/

namespace Proto

/-- A client asks for a match. -/
def C_AutoMatch : UInt16 := 0x0001

/-- A client no longer asks for one. -/
def C_UAutoMatch : UInt16 := 0x0002

/-- The server has found a match. -/
def S_GameInit : UInt16 := 0x0003

/-- A client is ready to play. -/
def C_GameReady : UInt16 := 0x0004

/-- The server starts the game; whether the player serves and whether it is at the bottom follow. -/
def S_GameStart : UInt16 := 0x0005

/-- A shot, which goes to the other player as it is. -/
def C_GameShot : UInt16 := 0x0006

/-- A time, which the other side sends back. -/
def Keep_Alive : UInt16 := 0x0008

/-- The time that came, sent back. -/
def Keep_Alive_Ack : UInt16 := 0x0009

/-- The ball as a player sees it, which goes to the other player as it is. -/
def Synch_Pos : UInt16 := 0x000a

end Proto

/-! ## The scripts -/

/-- `m_state` of the game. -/
inductive Game.State
  | ST_None
  | ST_Start
  | ST_Running
  | ST_End
  deriving DecidableEq, Repr

/-- `class Game` -/
structure Game where
  m_state : Game.State
  m_bottom : Bool
  m_bSer : Bool
  deriving DecidableEq, Repr

/-- `m_state` of the client: which buttons are on the screen depends on it. -/
inductive State
  | ST_None
  | ST_Connected
  | ST_Disconnected
  | ST_WaitingToMatch
  | ST_GameInit
  | ST_WaitingToStart
  | ST_GameRunning
  deriving DecidableEq, Repr

/-- `class Client` -/
structure Client where
  m_game : Game
  m_state : State
  m_lstSendTime : UInt32
  m_lstReadTime : UInt32
  m_rtt : UInt32
  deriving DecidableEq, Repr

/-- The four bytes of a `float` in memory. -/
abbrev FloatBytes := { b : Bytes // b.length = 4 }

/-- A game that has not been started. -/
def Game.new : Game := ⟨.ST_None, false, false⟩

/-- `GameStart`, of which only the state matters here. -/
def Game.gameStart (g : Game) : Game := { g with m_state := .ST_Start }

namespace Client

/-- The script before the first connection. -/
def new : Client := ⟨Game.new, .ST_Disconnected, 0, 0, 0⟩

/-- `send`: the packet goes to `TcpCli.Send`, and the time is noted. -/
def send (packet : WriteData) (now : UInt32) (c : Client) : Client × List WriteData :=
  ({ c with m_lstSendTime := now }, [packet])

/-- A packet that has a number only. -/
def command (cmd : UInt16) : WriteData := WriteData.writeUShort [] cmd

/-- A packet with a time in it. -/
def timePacket (cmd : UInt16) (time : UInt32) : WriteData := (command cmd).writeUInt time

/-! ## Events of the connection -/

/-- The handler of `ConnectedServer`. -/
def clientConn (ticks : Nat → UInt32) (c : Client) : Client :=
  { c with m_lstReadTime := ticks 0, m_lstSendTime := ticks 1, m_state := .ST_Connected }

/-- The handler of `DisConnectedServer`. -/
def clientClose (c : Client) : Client := { c with m_state := .ST_Disconnected }

/-- What `PROTO_S_GameStart` says of the game. A byte that is missing changes nothing. -/
def readGameStart (packet : CmdPacket) (g : Game) : Option Game := do
  let (bSer, packet) ← packet.readByte
  let g := (bSer.map fun v => { g with m_bSer := decide (v ≠ 0) }).getD g
  let (bottom, _) ← packet.readByte
  return (bottom.map fun v => { g with m_bottom := decide (v ≠ 0) }).getD g

/-- The handler of `ReceivedDatagram`. `none` is the exception of a packet that has no data. -/
def recvData (packet : CmdPacket) (ticks : Nat → UInt32) (c : Client) :
    Option (Client × List WriteData) := do
  let c := { c with m_lstReadTime := ticks 0 }
  let (ret, packet) ← packet.readUShort
  let cmd := ret.getD 0
  if cmd = Proto.Keep_Alive then
    match ← packet.readUInt with
    | (none, _) => return (c, [])
    | (some time, _) => return c.send (timePacket Proto.Keep_Alive_Ack time) (ticks 1)
  else if cmd = Proto.Keep_Alive_Ack then
    match ← packet.readUInt with
    | (none, _) => return (c, [])
    | (some time, _) => return ({ c with m_rtt := ticks 1 - time }, [])
  else if cmd = Proto.S_GameInit then return ({ c with m_state := .ST_GameInit }, [])
  else if cmd = Proto.S_GameStart then
    let game ← readGameStart packet c.m_game
    return ({ c with m_state := .ST_GameRunning, m_game := game.gameStart }, [])
  -- `Synch_Pos` and `C_GameShot` go to `Other`
  else return (c, [])

/-! ## Buttons -/

/-- The buttons of `OnGUI`. -/
inductive Button
  | connect
  | disconnect
  | automatch
  | cancelMatch
  | ready
  deriving DecidableEq, Repr

/-- The button is on the screen. -/
def Shows (c : Client) : Button → Prop
  | .connect => c.m_state = .ST_Disconnected
  | .disconnect => c.m_state ≠ .ST_Disconnected
  | .automatch => c.m_state = .ST_Connected
  | .cancelMatch => c.m_state = .ST_WaitingToMatch
  | .ready => c.m_state = .ST_GameInit

instance (c : Client) : ∀ button, Decidable (c.Shows button)
  | .connect => inferInstanceAs (Decidable (_ = _))
  | .disconnect => inferInstanceAs (Decidable (_ ≠ _))
  | .automatch => inferInstanceAs (Decidable (_ = _))
  | .cancelMatch => inferInstanceAs (Decidable (_ = _))
  | .ready => inferInstanceAs (Decidable (_ = _))

/-- The state is set behind a call that sends. -/
def withState (state : State) (r : Client × List WriteData) : Client × List WriteData :=
  ({ r.1 with m_state := state }, r.2)

/-- What `OnGUI` does when a button is pressed. `Connect` and `Close` of the `TcpCli` are not
here. -/
def onGUI (button : Button) (now : UInt32) (c : Client) : Client × List WriteData :=
  match button with
  | .connect => (c, [])
  | .disconnect => ({ c with m_state := .ST_Disconnected }, [])
  | .automatch => withState .ST_WaitingToMatch (c.send (command Proto.C_AutoMatch) now)
  | .cancelMatch => withState .ST_Connected (c.send (command Proto.C_UAutoMatch) now)
  | .ready => withState .ST_WaitingToStart (c.send (command Proto.C_GameReady) now)

/-! ## Calls of every frame -/

-- The test for `30*1000` without a message has an empty body.
/-- `FixedUpdate`: a client that has sent nothing for ten seconds sends a time. -/
def fixedUpdate (ticks : Nat → UInt32) (c : Client) : Client × List WriteData :=
  if c.m_state ≠ .ST_Disconnected ∧ ticks 0 - c.m_lstSendTime > 10 * 1000 then
    c.send (timePacket Proto.Keep_Alive (ticks 1)) (ticks 2)
  else (c, [])

/-- The packet that `sendInput` and `InputMgr.Update` send. -/
def sendInput (x y : FloatBytes) (now : UInt32) (c : Client) : Client × List WriteData :=
  c.send (((command Proto.C_GameShot).writeFloat x.val).writeFloat y.val) now

/-- The position and the velocity of the ball, with the time. -/
structure Ball where
  time : UInt64
  x : FloatBytes
  z : FloatBytes
  vx : FloatBytes
  vz : FloatBytes

/-- The packet of `Game.Update` with the ball. -/
def synchPos (ball : Ball) : WriteData :=
  let packet := (command Proto.Synch_Pos).writeUInt64 ball.time
  let packet := (packet.writeFloat ball.x.val).writeFloat ball.z.val
  (packet.writeFloat ball.vx.val).writeFloat ball.vz.val

/-- `Game.Update`; `ended` says whether `m_gameTime` is over. -/
def update (ended : Bool) (ball : Ball) (now : UInt32) (c : Client) : Client × List WriteData :=
  if c.m_game.m_state = .ST_Start ∨ c.m_game.m_state = .ST_Running then
    let c := { c with m_game := { c.m_game with m_state := if ended then .ST_End else .ST_Running } }
    if c.m_game.m_bSer then c.send (synchPos ball) now else (c, [])
  else (c, [])

end Client

end GhNet.Script
