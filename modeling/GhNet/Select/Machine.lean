import GhNet.Infra.Run
import GhNet.Iocp.Machine

/-!
# `SelectIOService` as a state machine

The service is single-threaded like its IOCP sibling, with the same `PeerManager`, and its
callbacks may call back into it. A step runs the code up to the next call of a callback or the
next answer of the system that the code waits for, and the place where it waits is a frame on
`stack`.

The sets of `select` hold the handles of sockets. `opened` are the handles the system has given
out and not got back: a new handle is any other number, so a closed one can come again.

`reg` numbers the connections of the run and `count` is the next number; the serials of the code
are these numbers modulo `2^64`. `known`, `inRead` and `inWrite` are the connections that the
current tick's `initSets` saw and put into the sets, `acts` is what the loop of the tick has done
to connections. The code reads none of these.
-/

namespace GhNet.Select

open GhNet
open GhNet.Iocp (Addr Peer MAX_PEER_NUM)

/-! ## The sets -/

/-- As `winsock2.h` has it: the code does not define it. -/
def FD_SETSIZE : Nat := 64

/-- `fd_set`. `none` is `INVALID_SOCKET`. -/
abbrev FdSet := List (Option Nat)

/-- `FD_SET(fd, set)`: a full set stays as it is. -/
def FD_SET (fd : Option Nat) (set : FdSet) : FdSet :=
  if fd ∈ set then set
  else if set.length < FD_SETSIZE then set ++ [fd] else set

/-- `FD_ISSET(fd, set)` -/
def FD_ISSET (fd : Option Nat) (set : FdSet) : Bool := decide (fd ∈ set)

/-! ## The state -/

/-- One of the two sets. -/
inductive Which
  | read
  | write
  deriving DecidableEq, Repr

/-- What the service throws. `peer` are the exceptions of the buffers, of `PeerManager` and of the
callbacks themselves. -/
inductive Error
  | peer (e : Exception)
  /-- `select erro.errno:%d` -/
  | select
  /-- `create socket error.errno:%d` -/
  | createSocket
  /-- `set no block mode erro. errno:%d` -/
  | nonBlocking
  /-- `accept socket erro. errno:%d` -/
  | accept
  /-- `ip is null.` -/
  | ipNull
  /-- `bind socket error.errno:%d` -/
  | bind
  /-- `listen socket erro.errno:%` -/
  | listen
  deriving DecidableEq

/-- A place in the service that waits: for a callback (the first three), or for the system. -/
inductive Frame
  | onCon (index serial : Nat)
  /-- `closed_by` tells in which half of the loop `closePeer` was called, if it was the loop -/
  | onDisCon (index serial : Nat) (closed_by : Option Which)
  /-- the loop has received for the peer at position `i` -/
  | onRead (i index : Nat)
  /-- `onEventTick` in front of `AcceptSocket` -/
  | accepting
  /-- the loop in front of position `i` -/
  | loop (i : Nat)
  /-- the loop at position `i`, in front of the write event -/
  | write (i index : Nat)
  deriving DecidableEq

/-- The program's code runs on top of this frame. -/
def Frame.isCallback : Frame → Bool
  | .onCon .. | .onDisCon .. | .onRead .. => true
  | .accepting | .loop _ | .write .. => false

/-- What the loop does to a connection, given by its number. -/
inductive Act
  | recv (r : Nat)
  | send (r : Nat)
  | close (w : Which) (r : Nat)
  deriving DecidableEq

/-- `SelectIOService` with its `PeerManager`. `thrown` is an exception in flight. -/
structure Service where
  m_listen_sd : Option Nat
  m_read_set : FdSet
  m_write_set : FdSet
  m_online_peers : List Nat
  m_peer_array : Nat → Peer
  m_serial : Nat
  opened : List Nat
  stack : List Frame
  thrown : Option Error
  reg : Nat → Nat
  count : Nat
  known : List Nat
  inRead : List Nat
  inWrite : List Nat
  acts : List Act

/-- The constructed service. -/
def Service.new : Service where
  m_listen_sd := none
  m_read_set := []
  m_write_set := []
  m_online_peers := []
  m_peer_array := fun _ => Peer.new
  m_serial := 0
  opened := []
  stack := []
  thrown := none
  reg := fun _ => 0
  count := 0
  known := []
  inRead := []
  inWrite := []
  acts := []

namespace Service

/-- A slot has changed. -/
def setPeer (s : Service) (index : Nat) (p : Peer) : Service :=
  { s with m_peer_array := fun j => if j = index then p else s.m_peer_array j }

/-- An exception is thrown, and flies until it is caught. -/
def throw (s : Service) (e : Error) : Service := { s with thrown := some e }

/-- The service waits for a callback or for the system. -/
def push (s : Service) (f : Frame) : Service := { s with stack := f :: s.stack }

/-- The innermost frame is gone. -/
def popped (s : Service) (rest : List Frame) : Service := { s with stack := rest }

/-- The loop has done something to a connection. -/
def record (s : Service) (a : Act) : Service := { s with acts := a :: s.acts }

/-- The system hands out a handle. -/
def opening (s : Service) (sd : Nat) : Service := { s with opened := sd :: s.opened }

/-- Runs code on the peer of a slot; an exception leaves what the code had changed. -/
def onPeer {α : Type} (s : Service) (index : Nat) (m : Iocp.PeerM α)
    (k : α → Service → Service) : Service :=
  match m (s.m_peer_array index) with
  | .ok a p => k a (s.setPeer index p)
  | .error e p => (s.setPeer index p).throw (.peer e)

/-! ## `PeerManager` -/

-- `-1` as `UI32`: no slot is free
/-- The first free slot with the next serial. -/
def newPeer (s : Service) : Nat × Service :=
  match Iocp.Service.findFree s.m_peer_array MAX_PEER_NUM 0 with
  | none => (2 ^ 32 - 1, s)
  | some i =>
    (i, { s with
      m_serial := (s.m_serial + 1) % 2 ^ 64,
      reg := fun j => if j = i then s.count else s.reg j,
      count := s.count + 1 }.setPeer i
        (Iocp.Service.resetPeer (s.m_peer_array i) s.m_serial))

/-- The slot is free. -/
def deletePeer (s : Service) (index : Nat) : Service :=
  s.setPeer index ((s.m_peer_array index).withSocket none)

/-- `getPeer(index)`, and the code that goes on with the peer. -/
def getPeer (s : Service) (index : Nat) (k : Peer → Service) : Service :=
  if index ≥ MAX_PEER_NUM then s.throw (.peer (.indexOutOfRange index MAX_PEER_NUM))
  else k (s.m_peer_array index)

/-! ## The service -/

/-- `registerSocket` up to its callback. -/
def registerSocket (s : Service) (sd : Nat) (local_addr remote_addr : Addr) : Service :=
  let index := s.newPeer.1
  s.newPeer.2.getPeer index fun p =>
    let s := s.newPeer.2.setPeer index
      { p with socket := some sd, local_addr := local_addr, remote_addr := remote_addr }
    { s with m_online_peers := s.m_online_peers ++ [index] }.push (.onCon index p.serial)

-- A `SOCKET` is unsigned: `p->socket<=0` holds of the handle 0 only, not of `INVALID_SOCKET`.
/-- `send`: the bytes are put into `write_buf` and wait for a tick. -/
def send (s : Service) (index serial : Nat) (buf : Bytes) : Service :=
  s.getPeer index fun p =>
    if p.serial ≠ serial ∨ p.socket = some 0 then s
    else s.onPeer index (Peer.onWriteBuf (SockBuf.apendBuf buf)) fun _ s => s

/-- `closePeer` up to its callback. -/
def closePeer (s : Service) (index serial : Nat) (closed_by : Option Which) : Service :=
  s.getPeer index fun p =>
    if p.serial ≠ serial ∨ p.socket = none then s
    else s.push (.onDisCon index serial closed_by)

/-- `CloseSocket(sd)` -/
def closeSocket (s : Service) : Option Nat → Service
  | none => s
  | some sd => { s with opened := s.opened.erase sd }

/-- `closePeer` behind its callback. The slot is taken as it is now. -/
def closePeerEnd (s : Service) (index : Nat) (closed_by : Option Which) : Service :=
  let s := { s with m_online_peers := s.m_online_peers.erase index }
  let s := s.closeSocket (s.m_peer_array index).socket
  match closed_by with
  | none => s.deletePeer index
  | some w => (s.record (.close w (s.reg index))).deletePeer index

/-- What `ConnectSocket` comes to: `CreateSocket` fails, `connect` fails, the socket cannot be
made non-blocking and stays open, or it is there. -/
inductive Connected
  | createError
  | refused
  | nonBlockingError (sd : Nat)
  | socket (sd : Nat) (local_addr remote_addr : Addr)
  deriving DecidableEq

/-- `connectPeer` up to the callback of `registerSocket`. -/
def connectPeer (s : Service) : Connected → Service
  | .createError => s.throw .createSocket
  | .refused => s
  | .nonBlockingError sd => (s.opening sd).throw .nonBlocking
  | .socket sd local_addr remote_addr =>
    (s.opening sd).registerSocket sd local_addr remote_addr

/-- What `ListenSocket` comes to. -/
inductive Listened
  | ipNull
  | createError
  | bindError (sd : Nat)
  | listenError (sd : Nat)
  | socket (sd : Nat)
  deriving DecidableEq

/-- The socket is `m_listen_sd` before it is bound. -/
def setListen (s : Service) (sd : Nat) : Service :=
  { s.opening sd with m_listen_sd := some sd }

/-- `listen` -/
def listen (s : Service) : Listened → Service
  | .ipNull => s.throw .ipNull
  | .createError => s.throw .createSocket
  | .bindError sd => (s.setListen sd).throw .bind
  | .listenError sd => (s.setListen sd).throw .listen
  | .socket sd => s.setListen sd

/-! ## The tick -/

/-- `FD_SET(p->socket, &m_write_set)` -/
def putWrite (s : Service) (index : Nat) : Service :=
  let set := FD_SET (s.m_peer_array index).socket s.m_write_set
  { s with
    m_write_set := set,
    inWrite := if (s.m_peer_array index).socket ∈ set then s.reg index :: s.inWrite
      else s.inWrite }

/-- `FD_SET(p->socket, &m_read_set)` -/
def putRead (s : Service) (index : Nat) : Service :=
  let set := FD_SET (s.m_peer_array index).socket s.m_read_set
  { s with
    m_read_set := set,
    inRead := if (s.m_peer_array index).socket ∈ set then s.reg index :: s.inRead
      else s.inRead }

/-- `initSets` has come to the connection of the slot. -/
def see (s : Service) (index : Nat) : Service := { s with known := s.reg index :: s.known }

/-- The loop of `initSets`. -/
def putPeers : List Nat → Service → Service
  | [], s => s
  | index :: rest, s =>
    s.getPeer index fun _ =>
      (s.see index).onPeer index (Peer.onWriteBuf SockBuf.readableBytes) fun readable s =>
        putPeers rest ((if readable > 0 then s.putWrite index else s).putRead index)

/-- `FD_ZERO` for both sets; a tick begins. -/
def zeroSets (s : Service) : Service :=
  { s with
    m_read_set := [], m_write_set := [], known := [], inRead := [], inWrite := [], acts := [] }

/-- `FD_SET(m_listen_sd, &m_read_set)` -/
def putListen (s : Service) : Service :=
  match s.m_listen_sd with
  | none => s
  | some sd => { s with m_read_set := FD_SET (some sd) s.m_read_set }

/-- `initSets`: the listener, and the peers in the order of `m_online_peers`. -/
def initSets (s : Service) : Service := putPeers s.m_online_peers s.zeroSets.putListen

/-- What `select` comes to: an error, or the handles it leaves in the two sets. -/
inductive Selected
  | error
  | ready (readable writable : FdSet)
  deriving DecidableEq

/-- `onEventTick` behind `select`, up to its loop. -/
def selected (s : Service) : Selected → Service
  | .error => s.throw .select
  | .ready readable writable =>
    let s := { s with m_read_set := readable, m_write_set := writable }
    -- `select` returns the number of handles in the sets: with none it is a timeout
    if readable.length + writable.length = 0 then s
    else if s.m_listen_sd ≠ none ∧ FD_ISSET s.m_listen_sd s.m_read_set then s.push .accepting
    else s.push (.loop 0)

/-- `onEventTick` up to its loop. -/
def onEventTick (s : Service) (a : Selected) : Service :=
  if s.m_online_peers = [] ∧ s.m_listen_sd = none then s
  else if s.initSets.thrown.isSome then s.initSets
  else s.initSets.selected a

/-- `select` only takes handles out of the sets. -/
def selects (s : Service) : Selected → Bool
  | .error => true
  | .ready readable writable =>
    readable.all (FD_ISSET · s.m_read_set) && writable.all (FD_ISSET · s.m_write_set)

/-- What `AcceptSocket` comes to: `WSAEWOULDBLOCK`, another error, a socket that cannot be made
non-blocking and stays open, or a socket. -/
inductive Accepted
  | wouldBlock
  | error
  | nonBlockingError (sd : Nat)
  | socket (sd : Nat) (local_addr remote_addr : Addr)
  deriving DecidableEq

/-- The accepting part of `onEventTick`, up to the callback of `registerSocket`. -/
def accept (s : Service) : Accepted → Service
  | .wouldBlock => s.push (.loop 0)
  | .error => s.throw .accept
  | .nonBlockingError sd => (s.opening sd).throw .nonBlocking
  | .socket sd local_addr remote_addr =>
    ((s.opening sd).push (.loop 0)).registerSocket sd local_addr remote_addr

/-- `recv` with room for `len` bytes: `pending` is what the system has received, `none` an error. -/
def recv (pending : Option Bytes) (len : Nat) : Int × Bytes :=
  match pending with
  | none => (-1, [])
  | some bytes => ((bytes.take len).length, bytes.take len)

/-- The bytes that `recv` has put behind `writeStart()`, and `writeMove(ret)`. -/
def received (bytes : Bytes) : SockBufM Unit := do
  let b ← get
  set (b.setBlock (b.m_buf.write b.m_write_index bytes))
  SockBuf.writeMove bytes.length

/-- `ensureWritableBytes(512)` and the `writableBytes()` of the call of `recv`. -/
def offerRead : SockBufM Nat := do
  SockBuf.ensureWritableBytes 512
  SockBuf.writableBytes

/-- The read event of a round behind `recv`, up to the callback. Behind `closePeer` nothing is left
to do: the loop ends. -/
def readEvent (s : Service) (i index : Nat) (ret : Int) (bytes : Bytes) : Service :=
  if ret = 0 then s.closePeer index (s.m_peer_array index).serial (some .read)
  else if ret < 0 then s.closePeer index (s.m_peer_array index).serial (some .read)
  else
    s.onPeer index (Peer.onReadBuf (received bytes)) fun _ s => s.push (.onRead i index)

/-- The loop at position `i`, up to the callback or to the write event. -/
def look (s : Service) (i : Nat) (pending : Option Bytes) : Service :=
  match s.m_online_peers[i]? with
  | none => s
  | some index =>
    s.getPeer index fun p =>
      if FD_ISSET p.socket s.m_read_set then
        s.onPeer index (Peer.onReadBuf offerRead) fun len s =>
          (s.record (.recv (s.reg index))).readEvent i index (recv pending len).1
            (recv pending len).2
      else s.push (.write i index)

/-- The loop behind the callback. The serial is read again from the slot. -/
def lookEnd (s : Service) (i index : Nat) (ret : Int) : Service :=
  if ret < 0 then s.closePeer index (s.m_peer_array index).serial (some .read)
  else s.push (.write i index)

/-- The write event of a round behind `::send`. `taken` is how much the system would take, `none`
an error. -/
def writeEvent (s : Service) (i index readable_byets : Nat) (taken : Option Nat) : Service :=
  match taken with
  | none => s.closePeer index (s.m_peer_array index).serial (some .write)
  | some n =>
    s.onPeer index (Peer.onWriteBuf (SockBuf.readMove (min n readable_byets))) fun _ s =>
      s.push (.loop (i + 1))

/-- The loop at position `i` from the write event on. -/
def write (s : Service) (i index : Nat) (taken : Option Nat) : Service :=
  if FD_ISSET (s.m_peer_array index).socket s.m_write_set then
    s.onPeer index (Peer.onWriteBuf SockBuf.readableBytes) fun readable_byets s =>
      if readable_byets > 0 then
        (s.record (.send (s.reg index))).writeEvent i index readable_byets taken
      else s.push (.loop (i + 1))
  else s.push (.loop (i + 1))

/-! ## Steps -/

/-- Code outside the service is running: a callback, or the program's own loop. -/
def userRuns (s : Service) : Bool :=
  match s.thrown, s.stack with
  | some _, _ => false
  | none, [] => true
  | none, f :: _ => f.isCallback

end Service

open Service

/-- What can happen next, with the answers of the system. -/
inductive Action
  /-- calls of the program, from its loop or from inside a callback -/
  | send (index serial : Nat) (buf : Bytes)
  | closePeer (index serial : Nat)
  | connectPeer (c : Connected)
  | listen (l : Listened)
  /-- `eventLoop` calls `onEventTick` -/
  | tick (a : Selected)
  /-- the tick goes on at the frame where it waits -/
  | accept (a : Accepted)
  | look (pending : Option Bytes)
  | write (taken : Option Nat)
  /-- the `onRead` callback consumes from the buffer it was given -/
  | readMove (len : Nat)
  /-- the running callback returns (`ret` is the result of `onRead`) or throws -/
  | return_ (ret : Int)
  | raise
  /-- an exception leaves the innermost frame, or is caught by the code that runs there -/
  | unwind
  | catch_

/-- The handle that the system gives out with its answer. -/
def Action.handle : Action → Option Nat
  | .connectPeer (.nonBlockingError sd) | .connectPeer (.socket sd _ _) => some sd
  | .listen (.bindError sd) | .listen (.listenError sd) | .listen (.socket sd) => some sd
  | .accept (.nonBlockingError sd) | .accept (.socket sd _ _) => some sd
  | _ => none

/-- What the action comes to where it can happen. -/
def act (s : Service) : Action → Option Service
  | .send index serial buf =>
    -- `len` is a `UI32`
    if s.userRuns ∧ buf.length < 2 ^ 32 then some (s.send index serial buf) else none
  | .closePeer index serial =>
    if s.userRuns then some (s.closePeer index serial none) else none
  | .connectPeer c => if s.userRuns then some (s.connectPeer c) else none
  | .listen l => if s.userRuns then some (s.listen l) else none
  | .tick a =>
    if s.userRuns ∧ s.stack = [] ∧ s.initSets.selects a then some (s.onEventTick a) else none
  | .accept a =>
    match s.thrown, s.stack with
    | none, .accepting :: rest => some ((s.popped rest).accept a)
    | _, _ => none
  | .look pending =>
    match s.thrown, s.stack with
    | none, .loop i :: rest => some ((s.popped rest).look i pending)
    | _, _ => none
  | .write taken =>
    match s.thrown, s.stack with
    | none, .write i index :: rest => some ((s.popped rest).write i index taken)
    | _, _ => none
  | .readMove len =>
    match s.thrown, s.stack with
    | none, .onRead _ index :: _ =>
      some (s.onPeer index (Peer.onReadBuf (SockBuf.readMove len)) fun _ s => s)
    | _, _ => none
  | .return_ ret =>
    match s.thrown, s.stack with
    | none, .onCon _ _ :: rest => some (s.popped rest)
    | none, .onRead i index :: rest => some ((s.popped rest).lookEnd i index ret)
    | none, .onDisCon index _ closed_by :: rest =>
      some ((s.popped rest).closePeerEnd index closed_by)
    | _, _ => none
  | .raise => if s.userRuns ∧ s.stack ≠ [] then some (s.throw (.peer .user)) else none
  | .unwind =>
    match s.thrown, s.stack with
    | some _, _ :: rest => some (s.popped rest)
    | _, _ => none
  | .catch_ =>
    match s.thrown, s.stack with
    | some _, [] => some { s with thrown := none }
    | some _, f :: _ => if f.isCallback then some { s with thrown := none } else none
    | none, _ => none

/-- A handle that is given out is not open. -/
def step (s : Service) (a : Action) : Option Service :=
  if a.handle.all (· ∉ s.opened) then act s a else none

/-- The service has just been constructed. -/
def Init (s : Service) : Prop := s = Service.new

end GhNet.Select
