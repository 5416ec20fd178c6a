import GhNet.Network.NetPacket

/-!
# `TcpSession`

The session of the Network client, and what one round of `ListenThread` does to it.

The thread reads the clock, asks whether the socket is ready, receives and sends; what these come to
during a round is its `Env`. A round is run from its beginning to its end: what the user's thread
does in between is not looked at. `sent` and `received` record the bytes that have gone over the
socket and `events` what else can be seen of the session from outside.

The loops are given as many rounds as there are bytes to read, and one more.
-/

namespace GhNet.Network

open GhNet

/-! ## What is outside -/

/-- What `Socket.Receive` comes to: bytes, as many as the array can take, of which there can be
none; a number below zero; or an exception. -/
inductive Receive
  | bytes (b : Bytes)
  | negative
  | exception
  deriving DecidableEq, Repr

/-- What `Socket.Send` comes to: how many bytes it took, at most all; a number below zero, which the
code asks for; or an exception, which is what a socket that is reset or has no room for a byte
answers. -/
inductive Send
  | count (n : Nat)
  | negative
  | exception
  deriving DecidableEq, Repr

/-- The clock and the socket during a round. The clock is read and `Send` is called more than once.
-/
structure Env where
  ticks : Nat → UInt32
  canRead : Bool
  canWrite : Bool
  hasExcept : Bool
  receive : Receive
  send : Nat → Send

/-- What can be seen of a session. -/
inductive Event
  /-- `m_state` becomes `NET_STATE_DEAD`. -/
  | dead
  /-- `m_clientSocket.Close()` -/
  | closed
  /-- A packet is taken off `m_readBuff`. -/
  | packet (p : NetPacket)
  | onConnect (ret : Bool)
  | onDisconnect
  | onReceive (packet : Bytes)
  deriving DecidableEq, Repr

/-! ## The session -/

/-- `m_state`. A session is in `NET_STATE_ZERO` until it is connected and again behind `Reset`. -/
inductive TNetState
  | NET_STATE_CONNECTING
  | NET_STATE_WAITING_SEED
  | NET_STATE_CONNECTED
  | NET_STATE_DEAD
  | NET_STATE_ZERO
  deriving DecidableEq, Repr

/-- `m_clientSocket` says whether there is a socket. -/
structure TcpSession where
  m_state : TNetState
  m_clientSocket : Bool
  m_connTime : UInt32
  m_lastSendTime : UInt32
  m_lastRecvTime : UInt32
  m_startTime : UInt32
  m_sendCmdPkt : CmdPacket
  m_recvCmdPkt : CmdPacket
  m_sendNetPkt : NetPacket
  m_recvNetPkt : NetPacket
  m_readBuff : Bytes
  m_writeBuf : Bytes
  m_rtt : UInt32
  m_seq : UInt16
  m_bEncrypt : Bool
  m_seed : Bytes
  m_seedLen : Nat
  m_bCompress : Bool
  ticksRead : Nat
  sends : Nat
  sent : Bytes
  received : Bytes
  events : List Event
  deriving DecidableEq, Repr

namespace TcpSession

open TNetState

/-- How long a session may be silent before `DefProc` sends a time. -/
def NET_KEEP_ALIVE_INTERVAL : UInt32 := 10 * 1000

/-- How long it may take to connect. -/
def NET_CONNECT_TIMEOUT : UInt32 := 30 * 1000

/-- How long the other side may be silent. -/
def NET_TIMEOUT : UInt32 := 900 * 1000

/-- A session that was never connected. -/
def new : TcpSession where
  m_state := NET_STATE_ZERO
  m_clientSocket := false
  m_connTime := 0
  m_lastSendTime := 0
  m_lastRecvTime := 0
  m_startTime := 0
  m_sendCmdPkt := .new
  m_recvCmdPkt := .new
  m_sendNetPkt := .new
  m_recvNetPkt := .new
  m_readBuff := []
  m_writeBuf := []
  m_rtt := 0
  m_seq := 0
  m_bEncrypt := false
  m_seed := List.replicate 16 0
  m_seedLen := 0
  m_bCompress := true
  ticksRead := 0
  sends := 0
  sent := []
  received := []
  events := []

/-- Something can be seen. -/
def log (s : TcpSession) (e : Event) : TcpSession := { s with events := s.events ++ [e] }

/-- `m_state = TNetState.NET_STATE_DEAD` -/
def die (s : TcpSession) : TcpSession := { s with m_state := NET_STATE_DEAD }.log .dead

/-- The clock is read, for the next time in this round. -/
def Sys_GetTime (env : Env) (s : TcpSession) : UInt32 × TcpSession :=
  (env.ticks s.ticksRead, { s with ticksRead := s.ticksRead + 1 })

/-- A `Connect` that succeeds. The records are of this connection. -/
def connect (env : Env) (s : TcpSession) : TcpSession :=
  let s := { s with m_clientSocket := true, m_state := NET_STATE_CONNECTING, ticksRead := 0,
                    sends := 0, sent := [], received := [], events := [] }
  let (now, s) := Sys_GetTime env s
  let s := { s with m_connTime := now }
  let (now, s) := Sys_GetTime env s
  let s := { s with m_lastSendTime := now }
  let (now, s) := Sys_GetTime env s
  { s with m_lastRecvTime := now }

/-- The session behind `Reset`. -/
def cleared (s : TcpSession) : TcpSession :=
  { s with m_rtt := 0, m_readBuff := [], m_writeBuf := [], m_clientSocket := false
           m_seedLen := 0, m_seq := 0, m_state := NET_STATE_ZERO }.log .closed

/-- `Close` is `Reset`, which needs a socket to close. -/
def reset (s : TcpSession) : Except Exception TcpSession :=
  if s.m_clientSocket then .ok s.cleared else .error .nullReference

/-- `Close` -/
def close (s : TcpSession) : Except Exception TcpSession := s.reset

/-! ### Callbacks -/

/-- `OnConnect`, which is only recorded. -/
def onConnect (s : TcpSession) (ret : Bool) : TcpSession := s.log (.onConnect ret)

/-- `OnDisconnect`, which is only recorded. -/
def onDisconnect (s : TcpSession) : TcpSession := s.log .onDisconnect

/-- `OnReceive` reads a command and a string, and prints the string: its bytes stand for it. -/
def onReceive (s : TcpSession) : Except Exception TcpSession := do
  let s := s.log (.onReceive (s.m_recvCmdPkt.m_ReadData.getD []))
  let (_, packet) ← s.m_recvCmdPkt.readShort
  let (_, packet) ← packet.readString id
  return { s with m_recvCmdPkt := packet }

/-! ### The socket -/

/-- `CanRead`, `CanWrite` and `HasExcept`: `Socket.Select` does not take null for a socket. -/
def select (s : TcpSession) (ready : Bool) : Except Exception Bool :=
  if s.m_clientSocket then .ok ready else .error .argument

/-- `ReadData`. An exception of `Receive` is caught, and the session is dead. -/
def readData (env : Env) (s : TcpSession) : Except Exception (Bool × TcpSession) := do
  if s.m_state = NET_STATE_DEAD then return (false, s)
  if !(← s.select env.canRead) then return (false, s)
  match env.receive with
  | .bytes b =>
    let bytes2 := b.take NetPacket.MAX_BUFFER_SIZE
    if bytes2.length > 0 then
      let s := { s with m_readBuff := s.m_readBuff ++ bytes2, received := s.received ++ bytes2 }
      let (now, s) := Sys_GetTime env s
      return (true, { s with m_lastRecvTime := now })
    else return (false, s)
  | .negative => return (false, s.die)
  | .exception => return (false, s.die)

/-- `FlushData`. What `Send` throws is caught nowhere. -/
def flushData (env : Env) (s : TcpSession) : Except Exception TcpSession :=
  if s.m_state = NET_STATE_DEAD then .ok s
  else if s.m_writeBuf.length = 0 then .ok s
  else if !s.m_clientSocket then .error .nullReference
  else
    let ret := env.send s.sends
    let s := { s with sends := s.sends + 1 }
    match ret with
    | .negative => .ok s.die
    | .exception => .error .socket
    | .count n =>
      let ret := min n s.m_writeBuf.length
      if ret = 0 then .ok s
      else
        let (now, s) := Sys_GetTime env s
        .ok { s with m_lastSendTime := now
                     sent := s.sent ++ s.m_writeBuf.take ret
                     m_writeBuf := s.m_writeBuf.drop ret }

/-! ### Sending -/

/-- What `SendPacket` puts into `m_sendNetPkt`. -/
def fill (s : TcpSession) (packet : CmdPacket) (seq : UInt16) (sys : Bool) :
    Except Exception NetPacket := do
  let pkt ← s.m_sendNetPkt.addCmdPacket packet
  let pkt := pkt.setSeq seq
  if sys then return pkt.setSysPacket
  else
    let pkt ← if s.m_bEncrypt then pkt.encrypt s.m_seed s.m_seedLen else pure pkt
    return if s.m_bCompress then pkt.compress else pkt

/-- `PushData`: the bytes wait for the next flush. -/
def pushData (s : TcpSession) (buff : Bytes) : TcpSession :=
  { s with m_writeBuf := s.m_writeBuf ++ buff }

/-- `m_seq++; if (m_seq > MAX_NET_PACKET_SEQ) m_seq = 1;` -/
def nextSeq (seq : UInt16) : UInt16 :=
  if seq + 1 > NetPacket.MAX_NET_PACKET_SEQ then 1 else seq + 1

/-- `SendPacket`: nothing is sent before the seed is set. -/
def sendPacket (env : Env) (s : TcpSession) (packet : CmdPacket) (flush sys : Bool) :
    Except Exception (Bool × TcpSession) := do
  if s.m_state ≠ NET_STATE_CONNECTED then return (false, s)
  let pkt ← s.fill packet (nextSeq s.m_seq) sys
  let s := { s with m_seq := nextSeq s.m_seq, m_sendNetPkt := pkt }
  let s := s.pushData pkt.getBuffer
  if flush then return (true, ← s.flushData env)
  return (true, s)

/-- `KeepAlive`: the time is sent at once, as a packet of the session's own. -/
def keepAlive (env : Env) (s : TcpSession) (now : UInt32) : Except Exception TcpSession := do
  let packet := (s.m_sendCmdPkt.beginWrite.writeShort NetPacket.SYS_PACKET_KEEP_ALIVE).writeUInt now
  let (_, s) ← { s with m_sendCmdPkt := packet }.sendPacket env packet true true
  return s

/-! ### Receiving -/

/-- The bytes of the key that `SetSeed` makes of a seed. -/
def seedBytes : Nat → UInt32 → Bytes
  | 0, _ => []
  | n + 1, seed => (seed % 255 + 1).toUInt8 :: seedBytes n (seed / 19)

/-- `SetSeed`. The seed 0 turns encryption off. -/
def setSeed (s : TcpSession) (seed : UInt32) : TcpSession :=
  if seed = 0 then { s with m_bEncrypt := false }
  else
    { s with m_seed := seedBytes NetPacket.MAX_NET_SEED_SIZE seed
             m_seedLen := NetPacket.MAX_NET_SEED_SIZE, m_bEncrypt := true }

/-- What `RecvPacket` does with a packet that it has taken: `Decrypt` and `Uncompress`. -/
def unpack (s : TcpSession) (packet : NetPacket) : Except Exception NetPacket := do
  let packet ← if packet.isEncrypt then packet.decrypt s.m_seed s.m_seedLen else pure packet
  return if packet.isCompress then packet.uncompress else packet

/-- `RecvPacket`: what is no packet makes the session dead. -/
def recvPacket (s : TcpSession) : Except Exception (Bool × TcpSession) := do
  let (ret, packet) := s.m_recvNetPkt.beginRead s.m_readBuff
  let s := { s with m_recvNetPkt := packet }
  if ret > 0 then
    let s := { s with m_readBuff := s.m_readBuff.drop ret.toNat }
    let unpacked ← s.unpack packet
    return (true, { s with m_recvNetPkt := unpacked }.log (.packet packet))
  else if ret = 0 then return (false, s)
  else return (false, s.die)

/-- `m_recvNetPkt.AttachCmdPacket(m_recvCmdPkt)` -/
def attach (s : TcpSession) : TcpSession :=
  { s with m_recvCmdPkt := s.m_recvNetPkt.attachCmdPacket s.m_recvCmdPkt }

/-- `packet.ReadUInt(ref param)` of `HandleSysPacket`, and what is done with the number. -/
def withParam (s : TcpSession) (type : Int16)
    (f : TcpSession → UInt32 → Except Exception TcpSession) :
    Except Exception (Int16 × TcpSession) := do
  let (param, packet) ← s.m_recvCmdPkt.readUInt
  let s := { s with m_recvCmdPkt := packet }
  match param with
  | none => return (0, s)
  | some param => return (type, ← f s param)

/-- `SYS_PACKET_KEEP_ALIVE` -/
def sendAck (env : Env) (s : TcpSession) (param : UInt32) : Except Exception TcpSession := do
  let packet := (s.m_sendCmdPkt.beginWrite.writeShort NetPacket.SYS_PACKET_ALIVE_ACK).writeInt
    param.toInt32
  let (_, s) ← { s with m_sendCmdPkt := packet }.sendPacket env packet true true
  return s

/-- `SYS_PACKET_ALIVE_ACK` -/
def takeAck (env : Env) (s : TcpSession) (param : UInt32) : TcpSession :=
  let (now, s) := Sys_GetTime env s
  { s with m_rtt := now - param }

/-- `SYS_PACKET_SET_SEED` -/
def takeSeed (s : TcpSession) (param : UInt32) : TcpSession :=
  { s.setSeed param with m_state := NET_STATE_CONNECTED }.onConnect true

/-- `HandleSysPacket`, which answers what it has found. -/
def handleSysPacket (env : Env) (s : TcpSession) : Except Exception (Int16 × TcpSession) := do
  let (type, packet) ← s.m_recvCmdPkt.readShort
  let s := { s with m_recvCmdPkt := packet }
  match type with
  | none => return (0, s)
  | some type =>
    if type = NetPacket.SYS_PACKET_KEEP_ALIVE then s.withParam type (sendAck env)
    else if type = NetPacket.SYS_PACKET_ALIVE_ACK then
      s.withParam type fun s param => .ok (s.takeAck env param)
    else if type = NetPacket.SYS_PACKET_SET_SEED then
      s.withParam type fun s param => .ok (s.takeSeed param)
    else return (0, s)

/-- The loop of `GetPacket`, with so many rounds left. -/
def getPacketLoop (env : Env) : Nat → TcpSession → Except Exception (Bool × TcpSession)
  | 0, _ => .error .endless
  | fuel + 1, s => do
    let (ret, s) ← s.recvPacket
    if ret then
      let s := s.attach
      if s.m_recvNetPkt.isSysPacket then
        let (_, s) ← s.handleSysPacket env
        getPacketLoop env fuel s
      else return (true, s)
    else return (false, s)

/-- `GetPacket`: handles the session's own packets until there is one for the user. -/
def getPacket (env : Env) (s : TcpSession) : Except Exception (Bool × TcpSession) :=
  getPacketLoop env (s.m_readBuff.length + 1) s

/-- `while (GetPacket(m_recvCmdPkt)) OnReceive(m_recvCmdPkt);` -/
def receiveLoop (env : Env) : Nat → TcpSession → Except Exception TcpSession
  | 0, _ => .error .endless
  | fuel + 1, s => do
    let (ret, s) ← s.getPacket env
    if ret then receiveLoop env fuel (← s.onReceive)
    else return s

/-! ### A round -/

/-- The two tests of `DefProc`: whether to say that the session is alive, and whether the other side
has not for too long. -/
def beat (env : Env) (s : TcpSession) (now : UInt32) : Except Exception TcpSession :=
  if now - s.m_lastSendTime > NET_KEEP_ALIVE_INTERVAL then
    (s.keepAlive env now).map fun s => { s with m_lastSendTime := now }
  else .ok s

/-- A session that has heard nothing for too long is dead. -/
def checkTimeout (s : TcpSession) (now : UInt32) : TcpSession :=
  if now - s.m_lastRecvTime > NET_TIMEOUT then s.die else s

/-- What `DefProc` does in `NET_STATE_CONNECTED` before it reads. -/
def keepUp (env : Env) (s : TcpSession) : Except Exception TcpSession :=
  if s.m_state = NET_STATE_CONNECTED then
    let (now, s) := Sys_GetTime env s
    (s.beat env now).bind fun s => (s.checkTimeout now).flushData env
  else .ok s

/-- `DefProc`: a session that waits for the seed reads, and one that is connected keeps up before.
-/
def defProc (env : Env) (s : TcpSession) : Except Exception TcpSession := do
  if s.m_state ≠ NET_STATE_CONNECTED ∧ s.m_state ≠ NET_STATE_WAITING_SEED then return s
  let s ← s.keepUp env
  let (_, s) ← s.readData env
  return s

/-- The case `NET_STATE_WAITING_SEED` of `Process`. -/
def waitSeed (env : Env) (s : TcpSession) : Except Exception TcpSession := do
  let (ret, s) ← s.recvPacket
  if ret then
    let s := s.attach
    if s.m_recvNetPkt.isSysPacket then
      let (_, s) ← s.handleSysPacket env
      return s
    else return s
  else return s

/-- `HasExcept() || Sys_GetTime() - m_connTime > NET_CONNECT_TIMEOUT`: the clock is read only if the
socket is in order. -/
def connectFailed (env : Env) (s : TcpSession) (hasExcept : Bool) : Bool × TcpSession :=
  if hasExcept then (true, s)
  else
    let (now, s) := Sys_GetTime env s
    (decide (now - s.m_connTime > NET_CONNECT_TIMEOUT), s)

/-- The case `NET_STATE_CONNECTING` of `Process`. -/
def waitConnect (env : Env) (s : TcpSession) : Except Exception TcpSession := do
  let (failed, s) := s.connectFailed env (← s.select env.hasExcept)
  if failed then
    let s ← s.close
    return (s.onConnect false).die
  if ← s.select env.canWrite then
    let (now, s) := Sys_GetTime env s
    return { s with m_state := NET_STATE_WAITING_SEED, m_startTime := now
                    m_lastSendTime := now, m_lastRecvTime := now }
  return s

/-- The `switch` of `Process`. -/
def dispatch (env : Env) (s : TcpSession) : Except Exception TcpSession :=
  match s.m_state with
  | .NET_STATE_CONNECTED => receiveLoop env (s.m_readBuff.length + 1) s
  | .NET_STATE_DEAD => s.onDisconnect.close
  | .NET_STATE_WAITING_SEED => s.waitSeed env
  | .NET_STATE_CONNECTING => s.waitConnect env
  | .NET_STATE_ZERO => .ok s

/-- `Process`, a round of the thread: `DefProc`, and then what the state asks for. -/
def process (env : Env) (s : TcpSession) : Except Exception TcpSession := do
  let s ← s.defProc env
  s.dispatch env

end TcpSession

end GhNet.Network
