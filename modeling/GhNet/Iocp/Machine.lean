import GhNet.Infra.Run
import GhNet.Net.SockBuf

/-!
# `Win_IOCP_IOService` as a state machine

The service is single-threaded, but its callbacks may call back into it. The state therefore has
an explicit call stack: a step runs the code of the service up to the next call of a callback, and
the frame that waits for the callback's return is on `stack`. What the program does while a
callback (or, with an empty stack, the program's own loop) is running is a step of its own, and so
is the return of the callback. A callback that was not set is one that returns at once, `onRead`
with 0.

The operating system keeps the requests that were posted (`posted`) and completes them in any
order. A completion carries the slot index and the IO context only. The field `serial` of
`Request` remembers which connection a request was posted for; the code never reads it.

`log` is the history of the run. The code does not read it either.
-/

namespace GhNet.Iocp

open GhNet

/-! ## Peers -/

/-- `#define MAX_PEER_NUM 1024*5` -/
def MAX_PEER_NUM : Nat := 1024 * 5

/-- An address as `getpeername` and `getsockname` report it. -/
structure Addr where
  ip : String
  port : Nat
  deriving DecidableEq, Repr

/-- `struct peer`. `none` is `INVALID_SOCKET`. -/
structure Peer where
  socket : Option Nat
  local_addr : Addr
  remote_addr : Addr
  serial : Nat
  wsa_send : Bool
  read_buf : SockBuf
  write_buf : SockBuf
  write_buf_backup_ : SockBuf
  deriving DecidableEq

/-- `peer()` -/
def Peer.new : Peer where
  socket := none
  local_addr := ⟨"", 0⟩
  remote_addr := ⟨"", 0⟩
  serial := 0
  wsa_send := false
  read_buf := SockBuf.new
  write_buf := SockBuf.new
  write_buf_backup_ := SockBuf.new

namespace Peer

/-- Whether a `WSASend` or its signal is under way. -/
def withWsaSend (p : Peer) (v : Bool) : Peer := { p with wsa_send := v }

/-- The peer has read or received. -/
def withReadBuf (p : Peer) (b : SockBuf) : Peer := { p with read_buf := b }

/-- The slot gets or loses its socket. -/
def withSocket (p : Peer) (socket : Option Nat) : Peer := { p with socket := socket }

end Peer

/-- Code that works on one peer and may throw. -/
abbrev PeerM := EStateM Exception Peer

namespace Peer

/-- Runs code on `read_buf`. -/
def onReadBuf {α : Type} (m : SockBufM α) : PeerM α := fun p =>
  match m p.read_buf with
  | .ok a b => .ok a (p.withReadBuf b)
  | .error e b => .error e (p.withReadBuf b)

/-- Runs code on `write_buf`. -/
def onWriteBuf {α : Type} (m : SockBufM α) : PeerM α := fun p =>
  match m p.write_buf with
  | .ok a b => .ok a { p with write_buf := b }
  | .error e b => .error e { p with write_buf := b }

/-- Runs code on `write_buf_backup_`. -/
def onBackup {α : Type} (m : SockBufM α) : PeerM α := fun p =>
  match m p.write_buf_backup_ with
  | .ok a b => .ok a { p with write_buf_backup_ := b }
  | .error e b => .error e { p with write_buf_backup_ := b }

/-- `p->wsa_send = v` -/
def setWsaSend (v : Bool) : PeerM Unit := fun p => .ok () (p.withWsaSend v)

end Peer

/-! ## Requests and completions -/

/-- What a request is for. -/
inductive IO_OPERATION
  | ClientIoUnknown
  | ClientIoRead
  | ClientIoWrite
  deriving DecidableEq, Repr

/-- The region a request was given: `len` bytes from `start` on, in the block `mem` as it was when
the request was posted. -/
structure WSABUF where
  mem : Block
  start : Nat
  len : Nat
  deriving DecidableEq

/-- The bytes of the region when the request was posted. -/
def WSABUF.bytes (w : WSABUF) : Bytes := slice w.mem.val w.start w.len

/-- A request the system has and has not handed back. A signal posted by
`PostQueuedCompletionStatus` has no region. -/
structure Request where
  io_context : Nat
  io_operation : IO_OPERATION
  /-- the completion key -/
  index : Nat
  /-- the connection it was posted for -/
  serial : Nat
  wsabuf : Option WSABUF
  deriving DecidableEq

/-- What `GetQueuedCompletionStatus` reports about a request: success with the number of bytes
(and, for a read, the bytes the system put into the region), `ERROR_NETNAME_DELETED`, or another
error. -/
inductive Completion
  | success (dwIoSize : Nat) (received : Bytes)
  | netnameDeleted
  | otherError
  deriving DecidableEq

/-- The completions the system can give a request: never more bytes than were offered, and a
posted signal always comes back with size 0. -/
def Completion.Fits (r : Request) : Completion → Prop
  | .success dwIoSize received =>
    match r.wsabuf with
    | none => dwIoSize = 0 ∧ received = []
    | some w => dwIoSize ≤ w.len ∧
        (if r.io_operation = .ClientIoRead then received.length = dwIoSize else received = [])
  | .netnameDeleted => r.wsabuf ≠ none
  | .otherError => r.wsabuf ≠ none

instance (r : Request) : ∀ c : Completion, Decidable (c.Fits r)
  | .success dwIoSize received => by
    unfold Completion.Fits
    cases r.wsabuf with
    | none => exact inferInstance
    | some w => exact inferInstance
  | .netnameDeleted => inferInstanceAs (Decidable (_ ≠ _))
  | .otherError => inferInstanceAs (Decidable (_ ≠ _))

/-! ## The state -/

/-- A place in the service that waits for what it called: a callback, or (`tick`) the handler of
the completion of a request. -/
inductive Frame
  | onCon (index serial : Nat)
  | onRead (index serial : Nat)
  | onDisCon (index serial : Nat)
  | tick (r : Request)
  deriving DecidableEq

/-- The history: the callbacks that were called, the bytes that passed the guard of `send`, the
bytes that completed `WSASend`s have transmitted, and the sockets that were closed. -/
inductive Event
  | onCon (index serial : Nat) (remote : Addr)
  | onRead (index serial : Nat)
  | onDisCon (index serial : Nat) (remote : Addr)
  | sent (index serial : Nat) (buf : Bytes)
  | transmitted (index serial : Nat) (bytes : Bytes)
  | closesocket (index serial : Nat)
  deriving DecidableEq

/-- `FreeList<IOContext>`: the addresses on the free list, and the next address `new` returns. -/
structure FreeList where
  free_list_ : List Nat
  fresh : Nat

namespace FreeList

/-- The element that was freed last, or a new one. -/
def allocElem (l : FreeList) : Nat × FreeList :=
  match l.free_list_ with
  | p :: rest => (p, { l with free_list_ := rest })
  | [] => (l.fresh, { l with fresh := l.fresh + 1 })

/-- The element goes to the front of the list. Whether it is there already is not asked. -/
def freeElem (l : FreeList) (p : Nat) : FreeList := { l with free_list_ := p :: l.free_list_ }

end FreeList

/-- `Win_IOCP_IOService` with its `PeerManager`, the requests in the hands of the system and the
call stack. `thrown` is an exception in flight. -/
structure Service where
  m_peer_array : Nat → Peer
  m_serial : Nat
  m_iocxt_pool : FreeList
  posted : List Request
  stack : List Frame
  thrown : Option Exception
  log : List Event

/-- The constructed service. -/
def Service.new : Service where
  m_peer_array := fun _ => Peer.new
  m_serial := 0
  m_iocxt_pool := ⟨[], 0⟩
  posted := []
  stack := []
  thrown := none
  log := []

namespace Service

/-- A slot has changed. -/
def setPeer (s : Service) (index : Nat) (p : Peer) : Service :=
  { s with m_peer_array := fun j => if j = index then p else s.m_peer_array j }

/-- An exception is thrown, and flies until it is caught. -/
def throw (s : Service) (e : Exception) : Service := { s with thrown := some e }

/-- Something is put down in the history. -/
def record (s : Service) (e : Event) : Service := { s with log := s.log ++ [e] }

/-- A callback is called, or the handler of a completion waits behind one. -/
def push (s : Service) (f : Frame) : Service := { s with stack := f :: s.stack }

/-- The system has the request now. -/
def post (s : Service) (r : Request) : Service := { s with posted := s.posted ++ [r] }

/-- Runs code on the peer of a slot; an exception leaves what the code had changed. -/
def onPeer {α : Type} (s : Service) (index : Nat) (m : PeerM α) (k : α → Service → Service) :
    Service :=
  match m (s.m_peer_array index) with
  | .ok a p => k a (s.setPeer index p)
  | .error e p => (s.setPeer index p).throw e

/-! ## `PeerManager` -/

/-- The first slot from `i` on without a socket, among `n` slots. -/
def findFree (peers : Nat → Peer) : (n i : Nat) → Option Nat
  | 0, _ => none
  | n + 1, i => if (peers i).socket ≠ none then findFree peers n (i + 1) else some i

/-- The slot as `newPeer` hands it out. -/
def resetPeer (p : Peer) (serial : Nat) : Peer where
  socket := none
  local_addr := ⟨"", 0⟩
  remote_addr := ⟨"", 0⟩
  serial := serial
  wsa_send := false
  read_buf := p.read_buf.reset
  write_buf := p.write_buf.reset
  write_buf_backup_ := p.write_buf_backup_.reset

-- `-1` as `UI32`: no slot is free
/-- The first free slot with the next serial. -/
def newPeer (s : Service) : Nat × Service :=
  match findFree s.m_peer_array MAX_PEER_NUM 0 with
  | none => (2 ^ 32 - 1, s)
  | some i =>
    (i, { s with m_serial := (s.m_serial + 1) % 2 ^ 64 }.setPeer i
      (resetPeer (s.m_peer_array i) s.m_serial))

/-- The slot is free. The buffers and the serial stay until it is given out again. -/
def deletePeer (s : Service) (index : Nat) : Service :=
  s.setPeer index ((s.m_peer_array index).withSocket none)

/-- `getPeer(index)`, and the code that goes on with the peer. -/
def getPeer (s : Service) (index : Nat) (k : Peer → Service) : Service :=
  if index ≥ MAX_PEER_NUM then s.throw (.indexOutOfRange index MAX_PEER_NUM)
  else k (s.m_peer_array index)

/-! ## The service -/

/-- A context for a request. -/
def newIOCxt (s : Service) : Nat × Service :=
  (s.m_iocxt_pool.allocElem.1, { s with m_iocxt_pool := s.m_iocxt_pool.allocElem.2 })

/-- The context of a request goes back to the pool. -/
def deleteIOCxt (s : Service) (io_cxt : Nat) : Service :=
  { s with m_iocxt_pool := s.m_iocxt_pool.freeElem io_cxt }

/-- `closePeer` up to its callback. -/
def closePeer (s : Service) (index serial : Nat) : Service :=
  s.getPeer index fun p =>
    if p.serial ≠ serial ∨ p.socket = none then s
    else (s.record (.onDisCon index serial p.remote_addr)).push (.onDisCon index serial)

/-- `closePeer` behind its callback: `CloseSocket(p->socket)` and `deletePeer`. The slot is taken
as it is now. -/
def closePeerEnd (s : Service) (index : Nat) : Service :=
  let p := s.m_peer_array index
  if p.socket = none then s.deletePeer index
  else (s.record (.closesocket index p.serial)).deletePeer index

/-- Makes room in `read_buf` and fills in the `WSABUF` of a `WSARecv`. -/
def offerRead : PeerM WSABUF := do
  Peer.onReadBuf (SockBuf.ensureWritableBytes 512)
  let len ← Peer.onReadBuf SockBuf.writableBytes
  let p ← get
  return ⟨p.read_buf.m_buf, p.read_buf.m_write_index, len⟩

/-- `accepted` tells whether `WSARecv` took the request (at once or pending) or failed. -/
def postRecvRequest (s : Service) (index serial : Nat) (accepted : Bool) : Service :=
  s.getPeer index fun p =>
    if p.serial ≠ serial ∨ p.socket = none then s
    else
      let io_cxt := s.newIOCxt.1
      s.newIOCxt.2.onPeer index offerRead fun wsabuf s =>
        if accepted then s.post ⟨io_cxt, .ClientIoRead, index, serial, some wsabuf⟩
        else s.closePeer index serial

/-- Fills in the `WSABUF` of a `WSASend`. -/
def offerWrite : PeerM WSABUF := do
  let len ← Peer.onWriteBuf SockBuf.readableBytes
  let p ← get
  return ⟨p.write_buf.m_buf, p.write_buf.m_read_index, len⟩

/-- `postSendRequest`; `accepted` tells whether `WSASend` took the request. -/
def postSendRequest (s : Service) (index serial : Nat) (accepted : Bool) : Service :=
  s.getPeer index fun p =>
    if p.serial ≠ serial ∨ p.socket = none then s
    else
      s.onPeer index (Peer.setWsaSend true) fun _ s =>
        let io_p := s.newIOCxt.1
        s.newIOCxt.2.onPeer index offerWrite fun wsabuf s =>
          if accepted then s.post ⟨io_p, .ClientIoWrite, index, serial, some wsabuf⟩
          else s.closePeer index serial

/-- `send`: the bytes wait in `write_buf_backup_`, and a signal is posted unless one is under way.
-/
def send (s : Service) (index serial : Nat) (buf : Bytes) (accepted : Bool) : Service :=
  s.getPeer index fun p =>
    if p.serial ≠ serial ∨ p.socket = none then s
    else
      (s.record (.sent index serial buf)).onPeer index (Peer.onBackup (SockBuf.apendBuf buf))
        fun _ s =>
          if (s.m_peer_array index).wsa_send then s
          else
            s.onPeer index (Peer.setWsaSend true) fun _ s =>
              let io_p := s.newIOCxt.1
              if accepted then s.newIOCxt.2.post ⟨io_p, .ClientIoWrite, index, serial, none⟩
              else s.newIOCxt.2.throw .postError

/-- `registerSocket` up to its callback. `bound` tells whether `CreateIoCompletionPort` bound the
socket to the port. -/
def registerSocket (s : Service) (sd : Nat) (local_addr remote_addr : Addr) (bound : Bool) :
    Service :=
  let index := s.newPeer.1
  s.newPeer.2.getPeer index fun p =>
    if bound then
      let s := s.newPeer.2.setPeer index
        { p with socket := some sd, local_addr := local_addr, remote_addr := remote_addr }
      (s.record (.onCon index p.serial remote_addr)).push (.onCon index p.serial)
    else s.newPeer.2.throw .createIoCompletionPort

/-- What `processWrite` does to the buffers; returns the bytes that are left to send. -/
def drainWrite (size : Nat) : PeerM Nat := do
  Peer.setWsaSend false
  Peer.onWriteBuf (SockBuf.readMove size)
  let send_bytes ← Peer.onBackup SockBuf.readableBytes
  if send_bytes > 0 then
    let p ← get
    let b := p.write_buf_backup_
    Peer.onWriteBuf (SockBuf.apendBuf (slice b.m_buf.val b.m_read_index send_bytes))
    Peer.onBackup (SockBuf.readMove send_bytes)
  Peer.onWriteBuf SockBuf.readableBytes

/-- `processWrite`: what was sent is taken off, and what has come in the meantime is sent next. -/
def processWrite (s : Service) (index size : Nat) (accepted : Bool) : Service :=
  s.getPeer index fun p =>
    if p.socket = none then s
    else
      s.onPeer index (drainWrite size) fun readable s =>
        if readable > 0 then s.postSendRequest index (s.m_peer_array index).serial accepted
        else s

/-- `processRead` up to its callback. -/
def processRead (s : Service) (index size : Nat) : Service :=
  s.getPeer index fun p =>
    if p.socket = none then s
    else
      s.onPeer index (Peer.onReadBuf (SockBuf.writeMove size)) fun _ s =>
        (s.record (.onRead index (s.m_peer_array index).serial)).push
          (.onRead index (s.m_peer_array index).serial)

/-- `processRead` behind its callback. The serial is read again from the slot. -/
def processReadEnd (s : Service) (index : Nat) (ret : Int) (accepted : Bool) : Service :=
  if ret < 0 then s.closePeer index (s.m_peer_array index).serial
  else s.postRecvRequest index (s.m_peer_array index).serial accepted

/-- `registerSocket` behind its callback. The serial is read again from the slot. -/
def registerSocketEnd (s : Service) (index : Nat) (accepted : Bool) : Service :=
  s.postRecvRequest index (s.m_peer_array index).serial accepted

/-- The system has put the received bytes into the region of a `WSARecv`. The slot still has the
block of the region if the sizes agree: a block is replaced by a larger one only, and a slot keeps
its block when it is given to the next connection. -/
def deliver (s : Service) (r : Request) (received : Bytes) : Service :=
  let p := s.m_peer_array r.index
  match r.wsabuf with
  | some w =>
    if p.read_buf.m_size = w.mem.size ∧ received ≠ [] then
      s.setPeer r.index
        (p.withReadBuf (p.read_buf.setBlock (p.read_buf.m_buf.write w.start received)))
    else s
  | none => s

/-- The bytes of a completed `WSASend` are on their way. -/
def transmit (s : Service) (r : Request) (dwIoSize : Nat) : Service :=
  match r.io_operation, r.wsabuf with
  | .ClientIoWrite, some w => s.record (.transmitted r.index r.serial (w.bytes.take dwIoSize))
  | _, _ => s

/-- `onEventTick` for a dequeued completion, up to the end of its handler. -/
def onEventTick (s : Service) (r : Request) (c : Completion) (accepted : Bool) : Service :=
  match c with
  | .netnameDeleted =>
    let s := s.push (.tick r)
    s.getPeer r.index fun p => s.closePeer r.index p.serial
  | .otherError => s.throw .shouldNotBeHere
  | .success dwIoSize received =>
    let s := (s.deliver r received).transmit r dwIoSize
    s.getPeer r.index fun p =>
      -- the IO context is not given back here
      if p.socket = none then s
      else
        match r.io_operation with
        | .ClientIoRead =>
          if dwIoSize = 0 then (s.push (.tick r)).closePeer r.index p.serial
          else (s.push (.tick r)).processRead r.index dwIoSize
        | .ClientIoWrite => (s.push (.tick r)).processWrite r.index dwIoSize accepted
        | .ClientIoUnknown => (s.push (.tick r)).throw .shouldNotBeHere

/-! ## Steps -/

/-- Code outside the service is running: a callback, or the program's own loop. -/
def userRuns (s : Service) : Bool :=
  match s.thrown, s.stack with
  | some _, _ => false
  | none, .tick _ :: _ => false
  | none, _ => true

end Service

/-- What can happen next. The Boolean arguments are what the system answers to the requests the
step posts. -/
inductive Action
  /-- calls of the program, from its loop or from inside a callback -/
  | send (index serial : Nat) (buf : Bytes) (accepted : Bool)
  | closePeer (index serial : Nat)
  | connectPeer (sd : Nat) (local_addr remote_addr : Addr) (bound : Bool)
  /-- `onAcceptTick` got a new socket -/
  | accept (sd : Nat) (local_addr remote_addr : Addr) (bound : Bool)
  /-- the `onRead` callback consumes from the buffer it was given -/
  | readMove (len : Nat)
  /-- the running callback returns (`ret` is the result of `onRead`) or throws -/
  | return_ (ret : Int) (accepted : Bool)
  | raise
  /-- `GetQueuedCompletionStatus` hands back a request -/
  | dequeue (r : Request) (c : Completion) (accepted : Bool)
  /-- the handler of a completion is done: `deleteIOCxt` -/
  | finish
  /-- an exception leaves the innermost frame, or is caught by the code that runs there -/
  | unwind
  | catch_

open Service in

/-- One step. A call of the program needs that its code is running. -/
def step (s : Service) : Action → Option Service
  | .send index serial buf accepted =>
    -- `len` is a `UI32`
    if s.userRuns ∧ buf.length < 2 ^ 32 then some (s.send index serial buf accepted) else none
  | .closePeer index serial => if s.userRuns then some (s.closePeer index serial) else none
  | .connectPeer sd local_addr remote_addr bound =>
    if s.userRuns then some (s.registerSocket sd local_addr remote_addr bound) else none
  | .accept sd local_addr remote_addr bound =>
    if s.userRuns ∧ s.stack = [] then some (s.registerSocket sd local_addr remote_addr bound)
    else none
  | .readMove len =>
    match s.thrown, s.stack with
    | none, .onRead index _ :: _ =>
      some (s.onPeer index (Peer.onReadBuf (SockBuf.readMove len)) fun _ s => s)
    | _, _ => none
  | .return_ ret accepted =>
    match s.thrown, s.stack with
    | none, .onCon index _ :: rest =>
      some (registerSocketEnd { s with stack := rest } index accepted)
    | none, .onRead index _ :: rest =>
      some (processReadEnd { s with stack := rest } index ret accepted)
    | none, .onDisCon index _ :: rest => some (closePeerEnd { s with stack := rest } index)
    | _, _ => none
  | .raise => if s.userRuns ∧ s.stack ≠ [] then some (s.throw .user) else none
  | .dequeue r c accepted =>
    if s.userRuns ∧ s.stack = [] ∧ r ∈ s.posted ∧ c.Fits r then
      some (onEventTick { s with posted := s.posted.erase r } r c accepted)
    else none
  | .finish =>
    match s.thrown, s.stack with
    | none, .tick r :: rest => some (deleteIOCxt { s with stack := rest } r.io_context)
    | _, _ => none
  | .unwind =>
    match s.thrown, s.stack with
    | some _, _ :: rest => some { s with stack := rest }
    | _, _ => none
  | .catch_ =>
    match s.thrown, s.stack with
    | some _, .tick _ :: _ => none
    | some _, _ => some { s with thrown := none }
    | none, _ => none

/-- The service has just been constructed. -/
def Init (s : Service) : Prop := s = Service.new

end GhNet.Iocp
