import GhNet.Client.Sending
import GhNet.Client.Session
import GhNet.Match.Machine
import GhNet.Server.Delivery

/-!
# The server and its clients, byte by byte

The program of the server with its service, and clients with their `TcpCli`s, on connections that
carry bytes. What is given to a socket arrives in order, in parts of any size and at any time; the
system may take over a part of the region of a `WSASend` before it reports the `WSASend` done.

A connection goes by the serial that the service will give to it. A step is `none` where it cannot
happen: a button is not on the screen, what a receive would bring has not been written, or a program
ends.
-/

namespace GhNet.Wire

open GhNet GhNet.Script GhNet.Server

/-- A connection outside of the server. `taken` are the bytes that the server's system has taken
over, and `fetched` those that the client has received of them. -/
structure End where
  requested : Bool
  output : Client.Output
  taken : Bytes
  fetched : Bytes
  cli : Client.TcpCli

/-- Nobody has asked for the connection. -/
def End.new : End := ⟨false, .new, [], [], .new⟩

/-- The server, the clients, how many `BeginConnect`s of each have not come to an end, and the
connection of each client's `TcpCli`. -/
structure World where
  server : Program
  clients : Nat → Script.Client
  connecting : Nat → Nat
  session : Nat → Option Nat
  ends : Nat → End

namespace World

/-- Nothing runs yet. -/
def new : World where
  server := Program.new
  clients := fun _ => Script.Client.new
  connecting := fun _ => 0
  session := fun _ => none
  ends := fun _ => .new

/-- A client has changed. -/
def setClient (x : Nat) (c : Script.Client) (W : World) : World :=
  { W with clients := Function.update W.clients x c }

/-- A client has another connection now, or none. -/
def setSession (x : Nat) (session : Option Nat) (W : World) : World :=
  { W with session := Function.update W.session x session }

/-- A client waits for so many attempts to connect. -/
def setConnecting (x k : Nat) (W : World) : World :=
  { W with connecting := Function.update W.connecting x k }

/-- What a client has of a connection has changed. -/
def setEnd (n : Nat) (e : End) (W : World) : World :=
  { W with ends := Function.update W.ends n e }

/-- The server has changed. -/
def setServer (sv : Program) (W : World) : World := { W with server := sv }

/-! ## Clients -/

/-- The client as a call has left it, with what the call has passed to `TcpCli.Send`. -/
def give (x : Nat) (r : Script.Client × List Bytes) (W : World) : Option World :=
  match W.session x with
  | some n => (r.2.foldlM (fun o d => Client.Output.send true d o) (W.ends n).output).map fun output =>
      (W.setClient x r.1).setEnd n { W.ends n with output := output }
  | none => (r.2.foldlM (fun o d => Client.Output.send false d o) Client.Output.new).map fun _ =>
      W.setClient x r.1

/-- The connection has come about, and is the client's from now on. -/
def connected (x n : Nat) (ticks : Nat → UInt32) (W : World) : Option World :=
  if W.connecting x ≠ 0 ∧ (W.ends n).requested = false then
    some (((W.setConnecting x (W.connecting x - 1)).setClient x ((W.clients x).clientConn ticks)
      |>.setSession x (some n)).setEnd n { End.new with requested := true })
  else none

/-- A button is pressed that is on the screen. -/
def press (x : Nat) (button : Client.Button) (now : UInt32) (W : World) : Option World :=
  if (W.clients x).Shows button then
    let r := (W.clients x).onGUI button now
    match button with
    | .connect => some (W.setConnecting x (W.connecting x + 1))
    | .disconnect => some ((W.setSession x none).setClient x r.1)
    | .automatch | .cancelMatch | .ready => W.give x r
  else none

/-- A receive of the client: what comes next of what the server's system has taken over. The event
is raised with the packet of the session. -/
def recvData (x : Nat) (r : Client.Receive) (ticks : Nat → UInt32) (W : World) : Option World :=
  match W.session x with
  | none => none
  | some n =>
    if (W.ends n).fetched ++ r.buff <+: (W.ends n).taken then do
      let cli ← (W.ends n).cli.recvData r
      let packet := ((W.ends n).cli.session.addBuff r.buff).RecvPacket
      let answer ← (W.clients x).recvData packet ticks
      (W.setEnd n { W.ends n with fetched := (W.ends n).fetched ++ r.buff, cli := cli }).give x
        answer
    else none

/-- The connection has come to an end. -/
def closed (x : Nat) (W : World) : Option World :=
  if W.session x = none then none
  else some ((W.setSession x none).setClient x (W.clients x).clientClose)

/-! ## The server -/

/-- The system takes over a part of the region of a `WSASend`. -/
def take (i n : Nat) (bytes : Bytes) (W : World) : Option World :=
  if ∃ r ∈ W.server.io_service.writesOf i n, ∃ w ∈ r.wsabuf, (W.ends n).taken ++ bytes <+:
      Iocp.transmittedBytes i n W.server.io_service.log ++ w.bytes then
    some (W.setEnd n { W.ends n with taken := (W.ends n).taken ++ bytes })
  else none

/-- A socket is accepted. If it becomes a connection, it is one that a client has asked for. -/
def accept (sd : Nat) (local_addr remote_addr : Iocp.Addr) (bound : Bool) (W : World) :
    Option World := do
  let server ← Server.step W.server (.accept sd local_addr remote_addr bound)
  match server.io_service.stack with
  | .onCon _ n :: _ => if (W.ends n).requested then some (W.setServer server) else none
  | _ => some (W.setServer server)

/-- What a completion says about the bytes on the connection: a `WSARecv` brings what comes next of
what the client has written, and a `WSASend` reports no less than was taken over. -/
def completed (r : Iocp.Request) (c : Iocp.Completion) (server : Program) (W : World) :
    Option World :=
  match r.io_operation, c with
  | .ClientIoRead, .success _ bytes =>
    if (piecesOf r.index r.serial W.server.received).flatten ++ bytes <+:
        (W.ends r.serial).output.written then some (W.setServer server)
    else none
  | .ClientIoWrite, .success _ _ =>
    let transmitted := Iocp.transmittedBytes r.index r.serial server.io_service.log
    if (W.ends r.serial).taken <+: transmitted then
      some ((W.setServer server).setEnd r.serial { W.ends r.serial with taken := transmitted })
    else none
  | _, _ => some (W.setServer server)

/-- A request comes back, with bytes that the connection's other end has sent. -/
def dequeue (r : Iocp.Request) (c : Iocp.Completion) (accepted : Bool) (W : World) :
    Option World := do
  let server ← Server.step W.server (.dequeue r c accepted)
  W.completed r c server

end World

/-! ## Steps -/

/-- What can happen next. -/
inductive Event
  | press (x : Nat) (button : Client.Button) (now : UInt32)
  /-- `ClientConn` -/
  | connected (x n : Nat) (ticks : Nat → UInt32)
  /-- `ClientClose` -/
  | closed (x : Nat)
  | recvData (x : Nat) (r : Client.Receive) (ticks : Nat → UInt32)
  | fixedUpdate (x : Nat) (ticks : Nat → UInt32)
  | update (x : Nat) (ended : Bool) (ball : Client.Ball) (now : UInt32)
  | sendInput (x : Nat) (vx vy : FloatBytes) (now : UInt32)
  | take (i n : Nat) (bytes : Bytes)
  /-- a step of the server -/
  | serve (a : Input)

/-- One event. -/
def step (W : World) : Event → Option World
  | .press x button now => W.press x button now
  | .connected x n ticks => W.connected x n ticks
  | .closed x => W.closed x
  | .recvData x r ticks => W.recvData x r ticks
  | .fixedUpdate x ticks => W.give x ((W.clients x).fixedUpdate ticks)
  | .update x ended ball now => W.give x ((W.clients x).update ended ball now)
  | .sendInput x vx vy now => W.give x ((W.clients x).sendInput vx vy now)
  | .take i n bytes => W.take i n bytes
  | .serve (.accept sd local_addr remote_addr bound) => W.accept sd local_addr remote_addr bound
  | .serve (.dequeue r c accepted) => W.dequeue r c accepted
  | .serve a => (Server.step W.server a).map fun server => W.setServer server

/-- Nothing has happened yet. -/
def Initial (W : World) : Prop := W = World.new

end GhNet.Wire
