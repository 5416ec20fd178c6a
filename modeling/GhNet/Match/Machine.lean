import Mathlib.Logic.Function.Basic
import GhNet.Lobby.Roles
import GhNet.Lobby.Serials
import GhNet.Script.Client

/-!
# The server and its clients

The lobby together with clients, each of which follows the scripts. A connection goes by the serial
that the service gives to it, and no two have the same. What is sent on a connection arrives in the
order in which it was sent; when it arrives is open, in both directions.

A step is a call of a script or a call of the lobby. It is `none` where it cannot happen: a button
is not on the screen, nothing has arrived, there is no connection to send on, or the program ends.
-/

namespace GhNet.Match

open GhNet GhNet.Lobby GhNet.Script

/-- How far a connection has come: nobody has asked for it, the client has it, the server has
accepted it, the server has reported its end. -/
inductive Stage
  | unused
  | requested
  | accepted
  | gone
  deriving DecidableEq, Repr

/-- The bodies of the messages that are on the way, `up` to the server and `down` to the client. -/
structure Connection where
  stage : Stage
  up : List Bytes
  down : List Bytes

/-- A connection that nobody has asked for. -/
def Connection.unused : Connection := ⟨.unused, [], []⟩

/-- The server, the clients, how many `BeginConnect`s of each have not come to an end, and the
connection of each client's `TcpCli`. -/
structure System where
  lobby : GHS_Lobby
  clients : Nat → Client
  connecting : Nat → Nat
  session : Nat → Option Nat
  connections : Nat → Connection

namespace System

/-- A server without clients, and clients that are not connected. -/
def new : System where
  lobby := GHS_Lobby.new
  clients := fun _ => Client.new
  connecting := fun _ => 0
  session := fun _ => none
  connections := fun _ => .unused

/-- A client has changed. -/
def setClient (x : Nat) (c : Client) (S : System) : System :=
  { S with clients := Function.update S.clients x c }

/-- A client has another connection now, or none. -/
def setSession (x : Nat) (session : Option Nat) (S : System) : System :=
  { S with session := Function.update S.session x session }

/-- A connection has changed. -/
def setConnection (n : Nat) (connection : Connection) (S : System) : System :=
  { S with connections := Function.update S.connections n connection }

/-- A client waits for so many attempts to connect. -/
def setConnecting (x k : Nat) (S : System) : System :=
  { S with connecting := Function.update S.connecting x k }

/-! ## Clients -/

/-- The client as a call has left it. What the call has sent is on the way; without a connection
`TcpCli.Send` throws. -/
def give (x : Nat) (r : Client × List Bytes) (S : System) : Option System :=
  match S.session x with
  | some n => some ((S.setClient x r.1).setConnection n
      { S.connections n with up := (S.connections n).up ++ r.2 })
  | none => if r.2 = [] then some (S.setClient x r.1) else none

/-- The connection has come about, and is the client's from now on. -/
def connected (x n : Nat) (ticks : Nat → UInt32) (S : System) : Option System :=
  if S.connecting x ≠ 0 ∧ (S.connections n).stage = .unused then
    some (((S.setConnecting x (S.connecting x - 1)).setClient x ((S.clients x).clientConn ticks)
      |>.setSession x (some n)).setConnection n { Connection.unused with stage := .requested })
  else none

/-- A button is pressed that is on the screen. -/
def press (x : Nat) (button : Client.Button) (now : UInt32) (S : System) : Option System :=
  if (S.clients x).Shows button then
    let r := (S.clients x).onGUI button now
    match button with
    | .connect => some (S.setConnecting x (S.connecting x + 1))
    | .disconnect => some ((S.setSession x none).setClient x r.1)
    | .automatch | .cancelMatch | .ready => S.give x r
  else none

/-- The next message of the client's connection. -/
def recvData (x : Nat) (ticks : Nat → UInt32) (S : System) : Option System :=
  match S.session x with
  | none => none
  | some n =>
    match (S.connections n).down with
    | [] => none
    | body :: down => do
      let r ← (S.clients x).recvData (Client.CmdPacket.holding body) ticks
      (S.setConnection n { S.connections n with down := down }).give x r

/-- The connection has come to an end. -/
def closed (x : Nat) (S : System) : Option System :=
  if S.session x = none then none
  else some ((S.setSession x none).setClient x (S.clients x).clientClose)

/-! ## The server -/

/-- What `sent` brings to the connection. Nothing comes to one that the server has not, or no
longer. -/
def Connection.deliver (n : Nat) (sent : List Sent) (connection : Connection) : Connection :=
  if connection.stage = .accepted then
    { connection with
      down := connection.down ++ (sent.filter fun m => m.serial = n).map Sent.body }
  else connection

/-- A call of the lobby, and what it sends. -/
def call (c : Call) (env : Env) (S : System) : Option System :=
  (Lobby.step S.lobby (c, env)).map fun lobby =>
    { S with
      lobby := lobby
      connections := fun n =>
        Connection.deliver n (lobby.sent.drop S.lobby.sent.length) (S.connections n) }

/-- `newPeer` has given the connection a slot of the service. -/
def accept (n index : Nat) (env : Env) (S : System) : Option System :=
  if (S.connections n).stage = .requested ∧ index < Iocp.MAX_PEER_NUM then
    (S.setConnection n { S.connections n with stage := .accepted }).call (.onCon index n) env
  else none

/-- The next message of the connection. -/
def onRead (n : Nat) (env : Env) (S : System) : Option System :=
  if (S.connections n).stage = .accepted then
    match (S.connections n).up with
    | [] => none
    | body :: up =>
      (S.setConnection n { S.connections n with up := up }).call (.onRead n body) env
  else none

/-- The server learns that a connection is gone. -/
def onDisCon (n : Nat) (env : Env) (S : System) : Option System :=
  if (S.connections n).stage = .accepted then
    (S.setConnection n { S.connections n with stage := .gone }).call (.onDisCon n) env
  else none

end System

/-! ## Steps -/

/-- What can happen next. -/
inductive Event
  | press (x : Nat) (button : Client.Button) (now : UInt32)
  /-- `ClientConn` -/
  | connected (x n : Nat) (ticks : Nat → UInt32)
  /-- `ClientClose` -/
  | closed (x : Nat)
  | recvData (x : Nat) (ticks : Nat → UInt32)
  | fixedUpdate (x : Nat) (ticks : Nat → UInt32)
  | update (x : Nat) (ended : Bool) (ball : Client.Ball) (now : UInt32)
  | sendInput (x : Nat) (vx vy : FloatBytes) (now : UInt32)
  | accept (n index : Nat) (env : Env)
  | onRead (n : Nat) (env : Env)
  | onDisCon (n : Nat) (env : Env)
  | process (env : Env)

/-- One event. -/
def step (S : System) : Event → Option System
  | .press x button now => S.press x button now
  | .connected x n ticks => S.connected x n ticks
  | .closed x => S.closed x
  | .recvData x ticks => S.recvData x ticks
  | .fixedUpdate x ticks => S.give x ((S.clients x).fixedUpdate ticks)
  | .update x ended ball now => S.give x ((S.clients x).update ended ball now)
  | .sendInput x vx vy now => S.give x ((S.clients x).sendInput vx vy now)
  | .accept n index env => S.accept n index env
  | .onRead n env => S.onRead n env
  | .onDisCon n env => S.onDisCon n env
  | .process env => S.call .process env

/-- Nothing has happened yet. -/
def Initial (S : System) : Prop := S = System.new

end GhNet.Match
