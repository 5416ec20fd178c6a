import Mathlib.Data.List.AList
import GhNet.Client.DatagramResolver
import GhNet.Infra.Run

/-!
# `TcpSvr`

The server class of the client's framework. `_sessionTable` has the sessions of the connections,
under the handles of their sockets, and `_clientCount` counts them.

Each operation keeps the two in step except one: `CloseSession` removes the session's entry if
there is one, and takes one from `_clientCount` in any case.
-/

namespace GhNet.Client.TcpSvr

open GhNet

/-! ## Sockets and sessions -/

/-- The handle of a socket as `(int)Handle`. Two are equal when their values are. -/
structure SessionId where
  _id : Int32
  deriving DecidableEq

/-- `System.Net.Sockets.Socket`. A socket that has been closed still tells its handle. -/
structure Socket where
  Handle : Int32
  disposed : Bool

/-- `Session.ExitType` -/
inductive ExitType
  | NormalExit
  | ExceptionExit
  deriving DecidableEq

/-- A session of the server. `_cliSock` is the place of the socket object. -/
structure Session where
  _id : SessionId
  _cliSock : Nat
  _datagram : Option Text
  _exitType : ExitType

/-- What the methods throw. -/
inductive Exn
  | SocketException (ErrorCode : Int)
  | ObjectDisposedException
  | NullReferenceException
  | ArgumentException
  deriving DecidableEq

/-- The events, each with the session it shows to the application. -/
inductive NetEvent
  | ClientConn (client : Nat)
  | ClientClose (client : Nat)
  | ServerFull (client : Nat)
  | RecvData (client : Nat)
  deriving DecidableEq

/-- Whether an event has a handler. -/
structure Handlers where
  ClientConn : Bool
  ClientClose : Bool
  ServerFull : Bool
  RecvData : Bool

/-- The server between `Start` and `Stop`, with the objects that it and the application refer to:
those below `socketCount` and `sessionCount` have been made. `raised` records the events. -/
structure State where
  _maxClient : UInt16
  _clientCount : UInt16
  _isRun : Bool
  _resolver : Option DatagramResolver
  _sessionTable : AList fun _ : SessionId => Nat
  sockets : Nat → Socket
  socketCount : Nat
  sessions : Nat → Session
  sessionCount : Nat
  handlers : Handlers
  raised : List NetEvent

/-- The longest message. -/
def MaxDatagramSize : Nat := 640 * 1024

namespace State

/-- Raises an event that has a handler. -/
def raise (s : State) (handled : Bool) (e : NetEvent) : State :=
  if handled then { s with raised := s.raised ++ [e] } else s

/-- A session has changed. -/
def setSession (s : State) (client : Nat) (c : Session) : State :=
  { s with sessions := Function.update s.sessions client c }

/-- A new session object. -/
def allocate (s : State) (c : Session) : State :=
  { s with sessions := Function.update s.sessions s.sessionCount c
           sessionCount := s.sessionCount + 1 }

/-- `new Session(cliSock)` -/
def newSession (s : State) (cliSock : Nat) : Session :=
  ⟨⟨(s.sockets cliSock).Handle⟩, cliSock, none, .NormalExit⟩

/-- `Session.Close`. `shutdown` has the error codes of the sockets whose `Shutdown` fails. -/
def close (s : State) (client : Nat) (shutdown : Nat → Option Int) : State × Option Exn :=
  let cliSock := (s.sessions client)._cliSock
  if (s.sockets cliSock).disposed then (s, some .ObjectDisposedException)
  else
    match shutdown cliSock with
    | some code => (s, some (.SocketException code))
    | none =>
      ({ s with sockets := Function.update s.sockets cliSock
                  { s.sockets cliSock with disposed := true } }, none)

/-! ## The operations of the server -/

/-- The loop of `CloseAllClient` -/
def closeEach (shutdown : Nat → Option Int) : State → List Nat → State × Option Exn
  | s, [] => (s, none)
  | s, client :: rest =>
    match s.close client shutdown with
    | (s, some e) => (s, some e)
    | (s, none) => closeEach shutdown s rest

/-- `values` are the sessions of the table in the order in which it lists them. -/
def closeAllClient (s : State) (values : List Nat) (shutdown : Nat → Option Int) :
    State × Option Exn :=
  match closeEach shutdown s values with
  | (s, some e) => (s, some e)
  | (s, none) => ({ s with _clientCount := 0, _sessionTable := ∅ }, none)

/-- `CloseSession`: the session goes from the table, and the count goes down whether it was there
or not. -/
def closeSession (s : State) (closeClient : Option Nat) (shutdown : Nat → Option Int) :
    State × Option Exn :=
  match closeClient with
  | none => (s, none)
  | some client =>
    let s := s.setSession client { s.sessions client with _datagram := none }
    let s := { s with _sessionTable := s._sessionTable.erase (s.sessions client)._id
                      _clientCount := s._clientCount - 1 }
    let s := s.raise s.handlers.ClientClose (.ClientClose client)
    s.close client shutdown

/-- `FindSession`: the table is looked up by the handle. -/
def findSession (s : State) (client : Nat) : Option Nat :=
  s._sessionTable.lookup ⟨(s.sockets client).Handle⟩

/-- Setting `TypeOfExit` of no session throws, ahead of the test for null. -/
def closeClient (s : State) (client : Nat) (exitType : ExitType) (shutdown : Nat → Option Int) :
    State × Option Exn :=
  match s.findSession client with
  | none => (s, some .NullReferenceException)
  | some c =>
    (s.setSession c { s.sessions c with _exitType := exitType }).closeSession (some c) shutdown

/-- The socket of a new connection. -/
def openSocket (s : State) (handle : Int32) : State :=
  { s with sockets := Function.update s.sockets s.socketCount ⟨handle, false⟩
           socketCount := s.socketCount + 1 }

/-- `AcceptConn` when there is room: the new session goes into the table and the first receive is
posted. `beginReceive` is the error code when that fails. -/
def addClient (s : State) (client : Nat) (beginReceive : Option Int) : State × Option Exn :=
  let id := (s.newSession client)._id
  let newSession := s.sessionCount
  let s := s.allocate (s.newSession client)
  if id ∈ s._sessionTable then (s, some .ArgumentException)
  else
    let s := { s with _sessionTable := s._sessionTable.insert id newSession
                      _clientCount := s._clientCount + 1 }
    match beginReceive with
    | some code => (s, some (.SocketException code))
    | none => (s.raise s.handlers.ClientConn (.ClientConn newSession), none)

/-- The completion of an accept. `endAccept` gives the handle of the new socket or fails. -/
def acceptConn (s : State) (endAccept : Except Int Int32) (beginReceive : Option Int) :
    State × Option Exn :=
  if !s._isRun then (s, none)
  else
    match endAccept with
    | .error code => (s, some (.SocketException code))
    | .ok handle =>
      let client := s.socketCount
      let s := s.openSocket handle
      if s._clientCount = s._maxClient then
        if s.handlers.ServerFull then
          ((s.allocate (s.newSession client)).raise true (.ServerFull s.sessionCount), none)
        else (s, none)
      else s.addClient client beginReceive

/-- Shows the application a copy of a session, with a datagram of its own. -/
def showCopy (client : Nat) (s : State) (datagram : Option Text) : State :=
  let copy := { s.newSession (s.sessions client)._cliSock with
                _datagram := datagram, _exitType := (s.sessions client)._exitType }
  (s.allocate copy).raise true (.RecvData s.sessionCount)

/-- What `ReceiveData` does with the text that has been received. -/
def received (s : State) (client : Nat) (receivedData : Text) : State :=
  if !s.handlers.RecvData then s
  else
    match s._resolver with
    | none => s.showCopy client (s.sessions client)._datagram
    | some resolver =>
      match resolver.resolve (((s.sessions client)._datagram.getD []) ++ receivedData) with
      | none => s
      | some (recvDatagrams, rest) =>
        let s := recvDatagrams.foldl (fun s d => s.showCopy client (some d)) s
        s.setSession client
          { s.sessions client with
            _datagram := if MaxDatagramSize < rest.length then none else some rest }

/-- How `EndReceive` ends: with `recv` bytes, that stand for a text and after which the next
receive is posted or fails, or with an error code. -/
inductive EndReceive
  | received (recv : Nat) (text : Text) (beginReceive : Option Int)
  | failed (ErrorCode : Int)

/-- The `try` block of `ReceiveData` -/
def receiveBlock (s : State) (client : Nat) (endReceive : EndReceive)
    (shutdown : Nat → Option Int) : State × Option Exn :=
  let cliSock := (s.sessions client)._cliSock
  if (s.sockets cliSock).disposed then (s, some .ObjectDisposedException)
  else
    match endReceive with
    | .failed code => (s, some (.SocketException code))
    | .received recv text beginReceive =>
      if recv = 0 then s.closeClient cliSock .NormalExit shutdown
      else (s.received client text, beginReceive.map .SocketException)

/-- The completion of a receive of a session. -/
def receiveData (s : State) (client : Nat) (endReceive : EndReceive)
    (shutdown : Nat → Option Int) : State × Option Exn :=
  match s.receiveBlock client endReceive shutdown with
  | (s', some (.SocketException code)) =>
    if code = 10054 then s'.closeClient (s.sessions client)._cliSock .ExceptionExit shutdown
    else (s', none)
  | (s', some .ObjectDisposedException) => (s', none)
  | r => r

/-! ## Runs -/

/-- What happens to the server. A new socket has a handle that no open socket has. The application
closes a session that it has been shown, as often as it likes. -/
inductive Action
  | acceptConn (endAccept : Except Int Int32) (beginReceive : Option Int)
  | receiveData (client : Nat) (endReceive : EndReceive) (shutdown : Nat → Option Int)
  | closeSession (closeClient : Option Nat) (shutdown : Nat → Option Int)
  | closeAllClient (values : List Nat) (shutdown : Nat → Option Int)

/-- The handle does not belong to an open socket. -/
def Unused (s : State) (handle : Int32) : Prop :=
  ∀ i < s.socketCount, (s.sockets i).disposed = false → (s.sockets i).Handle ≠ handle

instance (s : State) (handle : Int32) : Decidable (s.Unused handle) :=
  inferInstanceAs (Decidable (∀ i < s.socketCount, _))

/-- The sessions of the table, in the order of its entries. -/
def values (s : State) : List Nat := s._sessionTable.entries.map Sigma.snd

/-- One step of the server. -/
def step (s : State) : Action → Option State
  | .acceptConn (.error code) beginReceive => some (s.acceptConn (.error code) beginReceive).1
  | .acceptConn (.ok handle) beginReceive =>
    if s.Unused handle then some (s.acceptConn (.ok handle) beginReceive).1 else none
  | .receiveData client endReceive shutdown =>
    if client < s.sessionCount then some (s.receiveData client endReceive shutdown).1 else none
  | .closeSession none shutdown => some (s.closeSession none shutdown).1
  | .closeSession (some client) shutdown =>
    if client < s.sessionCount then some (s.closeSession (some client) shutdown).1 else none
  | .closeAllClient order shutdown =>
    if order.Perm s.values then some (s.closeAllClient order shutdown).1 else none

/-- A server that has just been started. -/
structure Started (s : State) : Prop where
  run : s._isRun = true
  count : s._clientCount = 0
  table : s._sessionTable = ∅
  sockets : s.socketCount = 0
  sessions : s.sessionCount = 0

/-- **The accounts**: `_clientCount` is the number of sessions in the table, and that is no larger
than `_maxClient`. -/
structure Counted (s : State) : Prop where
  count : s._clientCount.toNat = s._sessionTable.entries.length
  limit : s._sessionTable.entries.length ≤ s._maxClient.toNat

/-- The session that the application closes is in the table. -/
def ClosesListed (s : State) : Action → Prop
  | .closeSession (some client) _ => (s.sessions client)._id ∈ s._sessionTable
  | _ => True

instance (s : State) (a : Action) : Decidable (s.ClosesListed a) :=
  match a with
  | .closeSession (some client) _ =>
    inferInstanceAs (Decidable ((s.sessions client)._id ∈ s._sessionTable))
  | .closeSession none _ | .acceptConn .. | .receiveData .. | .closeAllClient .. => .isTrue trivial

/-! ## What the parts leave alone -/

/-- The table and the count are unchanged, and the sessions keep their identifiers. -/
structure Frame (s t : State) : Prop where
  table : t._sessionTable = s._sessionTable
  count : t._clientCount = s._clientCount
  max : t._maxClient = s._maxClient
  more : s.sessionCount ≤ t.sessionCount
  ids : ∀ c < s.sessionCount, (t.sessions c)._id = (s.sessions c)._id

/-- The sessions in the table are under their own identifiers. -/
def Keyed (s : State) : Prop :=
  ∀ id c, s._sessionTable.lookup id = some c → c < s.sessionCount ∧ (s.sessions c)._id = id

theorem Frame.refl (s : State) : Frame s s := ⟨rfl, rfl, rfl, Nat.le_refl _, fun _ _ => rfl⟩

theorem Frame.trans {s t u : State} (h : Frame s t) (h' : Frame t u) : Frame s u :=
  ⟨h'.table.trans h.table, h'.count.trans h.count, h'.max.trans h.max,
    Nat.le_trans h.more h'.more,
    fun c hc => (h'.ids c (Nat.lt_of_lt_of_le hc h.more)).trans (h.ids c hc)⟩

theorem Frame.counted {s t : State} (h : Frame s t) : t.Counted ↔ s.Counted := by
  constructor
  · intro ht
    exact ⟨h.count ▸ h.table ▸ ht.count, h.max ▸ h.table ▸ ht.limit⟩
  · intro hs
    exact ⟨by rw [h.count, h.table]; exact hs.count, by rw [h.max, h.table]; exact hs.limit⟩

theorem Frame.keyed {s t : State} (h : Frame s t) (hs : s.Keyed) : t.Keyed := by
  intro id c hc
  rw [h.table] at hc
  obtain ⟨hlt, hid⟩ := hs id c hc
  exact ⟨Nat.lt_of_lt_of_le hlt h.more, (h.ids c hlt).trans hid⟩

theorem frame_raise (s : State) (handled : Bool) (e : NetEvent) : Frame s (s.raise handled e) := by
  rw [raise]
  split
  · exact ⟨rfl, rfl, rfl, Nat.le_refl _, fun _ _ => rfl⟩
  · exact .refl s

theorem frame_setSession (s : State) {client : Nat} {c : Session}
    (hid : c._id = (s.sessions client)._id) : Frame s (s.setSession client c) := by
  refine ⟨rfl, rfl, rfl, Nat.le_refl _, fun d _ => ?_⟩
  rw [setSession]
  by_cases hd : d = client
  · subst hd
    simp [hid]
  · simp [hd]

theorem frame_allocate (s : State) (c : Session) : Frame s (s.allocate c) := by
  refine ⟨rfl, rfl, rfl, Nat.le_succ _, fun d hd => ?_⟩
  rw [allocate]
  simp [Nat.ne_of_lt hd]

theorem frame_close (s : State) (client : Nat) (shutdown : Nat → Option Int) :
    Frame s (s.close client shutdown).1 := by
  rw [close]
  split
  · exact .refl s
  · cases shutdown (s.sessions client)._cliSock with
    | some code => exact .refl s
    | none => exact ⟨rfl, rfl, rfl, Nat.le_refl _, fun _ _ => rfl⟩

theorem frame_closeEach (shutdown : Nat → Option Int) (clients : List Nat) (s : State) :
    Frame s (closeEach shutdown s clients).1 := by
  induction clients generalizing s with
  | nil => exact .refl s
  | cons client rest ih =>
    have hclose := s.frame_close client shutdown
    rw [closeEach]
    cases hc : s.close client shutdown with
    | mk s' e =>
      rw [hc] at hclose
      cases e with
      | some e => exact hclose
      | none => exact hclose.trans (ih s')

theorem frame_showCopy (client : Nat) (s : State) (datagram : Option Text) :
    Frame s (s.showCopy client datagram) :=
  (s.frame_allocate _).trans (frame_raise _ _ _)

theorem frame_showCopies (client : Nat) (datagrams : List Text) (s : State) :
    Frame s (datagrams.foldl (fun s d => s.showCopy client (some d)) s) := by
  induction datagrams generalizing s with
  | nil => exact .refl s
  | cons d ds ih => exact (s.frame_showCopy client (some d)).trans (ih _)

theorem frame_received (s : State) (client : Nat) (receivedData : Text) :
    Frame s (s.received client receivedData) := by
  rw [received]
  split
  · exact .refl s
  · cases s._resolver with
    | none => exact s.frame_showCopy client _
    | some resolver =>
      dsimp only
      cases resolver.resolve _ with
      | none => exact .refl s
      | some out =>
        obtain ⟨recvDatagrams, rest⟩ := out
        exact (s.frame_showCopies client recvDatagrams).trans (frame_setSession _ rfl)

/-! ## Closing a session -/

/-- What `CloseSession` leaves of the table and the count. -/
structure Uncounted (s : State) (id : SessionId) (t : State) : Prop where
  table : t._sessionTable = s._sessionTable.erase id
  count : t._clientCount = s._clientCount - 1
  max : t._maxClient = s._maxClient
  more : s.sessionCount ≤ t.sessionCount
  ids : ∀ c < s.sessionCount, (t.sessions c)._id = (s.sessions c)._id

theorem Uncounted.frame {s t u : State} {id : SessionId} (h : Uncounted s id t) (hf : Frame t u) :
    Uncounted s id u :=
  ⟨hf.table.trans h.table, hf.count.trans h.count, hf.max.trans h.max,
    Nat.le_trans h.more hf.more,
    fun c hc => (hf.ids c (Nat.lt_of_lt_of_le hc h.more)).trans (h.ids c hc)⟩

theorem Frame.uncounted {s t u : State} {id : SessionId} (hf : Frame s t)
    (h : Uncounted t id u) : Uncounted s id u :=
  ⟨by rw [h.table, hf.table], by rw [h.count, hf.count], h.max.trans hf.max,
    Nat.le_trans hf.more h.more,
    fun c hc => (h.ids c (Nat.lt_of_lt_of_le hc hf.more)).trans (hf.ids c hc)⟩

theorem closeSession_uncounted (s : State) (client : Nat) (shutdown : Nat → Option Int) :
    Uncounted s (s.sessions client)._id (s.closeSession (some client) shutdown).1 := by
  have hset : Frame s (s.setSession client { s.sessions client with _datagram := none }) :=
    s.frame_setSession rfl
  have hid : ((s.setSession client { s.sessions client with _datagram := none }).sessions
      client)._id = (s.sessions client)._id := by
    simp [setSession]
  rw [closeSession]
  refine Uncounted.frame (hset.uncounted ?_) ((frame_raise _ _ _).trans (frame_close _ _ _))
  exact ⟨by rw [hid], rfl, rfl, Nat.le_refl _, fun _ _ => rfl⟩

theorem Uncounted.keyed {s t : State} {id : SessionId} (h : Uncounted s id t) (hs : s.Keyed) :
    t.Keyed := by
  intro id' c hc
  rw [h.table] at hc
  have hne : id' ≠ id := by
    rintro rfl
    rw [AList.lookup_erase] at hc
    cases hc
  rw [AList.lookup_erase_ne hne] at hc
  obtain ⟨hlt, hid⟩ := hs id' c hc
  exact ⟨Nat.lt_of_lt_of_le hlt h.more, (h.ids c hlt).trans hid⟩

theorem length_erase (m : AList fun _ : SessionId => Nat) (id : SessionId) :
    (m.erase id).entries.length = if id ∈ m then m.entries.length - 1 else m.entries.length := by
  have hkeys : ∀ m : AList fun _ : SessionId => Nat, m.entries.length = m.keys.length :=
    fun m => (List.length_map ..).symm
  rw [hkeys, hkeys, AList.keys_erase]
  split
  · next h => exact List.length_erase_of_mem h
  · next h => rw [List.erase_of_not_mem h]

/-- **The accounts are in step after a session is closed exactly when it was in the table.** -/
theorem Uncounted.counted {s t : State} {id : SessionId} (h : Uncounted s id t)
    (hs : s.Counted) : t.Counted ↔ id ∈ s._sessionTable := by
  obtain ⟨hcount, hlimit⟩ := hs
  have hlen := length_erase s._sessionTable id
  rw [← h.table] at hlen
  have hsub : (s._clientCount - 1).toNat = (2 ^ 16 - 1 + s._clientCount.toNat) % 2 ^ 16 := by
    rw [UInt16.toNat_sub]
    rfl
  have hlt : s._clientCount.toNat < 2 ^ 16 := s._clientCount.toNat_lt
  constructor
  · intro ht
    by_contra hnot
    have hc := ht.count
    rw [h.count, hlen, if_neg hnot, hsub, ← hcount] at hc
    omega
  · intro hmem
    have hpos : 0 < s._sessionTable.entries.length := by
      have : s._sessionTable.keys ≠ [] := List.ne_nil_of_mem hmem
      exact List.length_pos_iff.mpr fun he => this (by rw [AList.keys, he]; rfl)
    rw [if_pos hmem] at hlen
    refine ⟨?_, ?_⟩
    · rw [h.count, hlen, hsub, ← hcount]
      omega
    · rw [h.max, hlen]
      omega

/-! ## The other operations -/

/-- The accounts stay in step. -/
structure Kept (s t : State) : Prop where
  keyed : s.Keyed → t.Keyed
  counted : s.Keyed → s.Counted → t.Counted

theorem Kept.trans {s t u : State} (h : Kept s t) (h' : Kept t u) : Kept s u :=
  ⟨fun hk => h'.keyed (h.keyed hk), fun hk hc => h'.counted (h.keyed hk) (h.counted hk hc)⟩

theorem Frame.kept {s t : State} (h : Frame s t) : Kept s t :=
  ⟨h.keyed, fun _ hc => h.counted.mpr hc⟩

/-- `CloseClient` closes a session that it has found in the table. -/
theorem kept_closeClient (s : State) (client : Nat) (exitType : ExitType)
    (shutdown : Nat → Option Int) : Kept s (s.closeClient client exitType shutdown).1 := by
  rw [closeClient]
  cases hfind : s.findSession client with
  | none => exact (Frame.refl s).kept
  | some c =>
    dsimp only
    have hset : Frame s (s.setSession c { s.sessions c with _exitType := exitType }) :=
      s.frame_setSession rfl
    have hclose := hset.uncounted (closeSession_uncounted _ c shutdown)
    have hid : ((s.setSession c { s.sessions c with _exitType := exitType }).sessions c)._id =
        (s.sessions c)._id := by
      simp [setSession]
    rw [hid] at hclose
    refine ⟨hclose.keyed, fun hk hc => (hclose.counted hc).mpr ?_⟩
    obtain ⟨-, hkey⟩ := hk _ _ hfind
    rw [hkey, ← AList.lookup_isSome]
    exact Option.isSome_of_eq_some hfind

theorem kept_receiveBlock (s : State) (client : Nat) (endReceive : EndReceive)
    (shutdown : Nat → Option Int) : Kept s (s.receiveBlock client endReceive shutdown).1 := by
  unfold receiveBlock
  dsimp only
  split
  · exact (Frame.refl s).kept
  · cases endReceive with
    | failed code => exact (Frame.refl s).kept
    | received recv text beginReceive =>
      dsimp only
      split
      · exact s.kept_closeClient _ _ _
      · exact (s.frame_received client text).kept

theorem kept_receiveData (s : State) (client : Nat) (endReceive : EndReceive)
    (shutdown : Nat → Option Int) : Kept s (s.receiveData client endReceive shutdown).1 := by
  have hblock := s.kept_receiveBlock client endReceive shutdown
  rw [receiveData]
  split
  · next heq =>
    rw [heq] at hblock
    split
    · exact hblock.trans (kept_closeClient _ _ _ _)
    · exact hblock
  · next heq =>
    rw [heq] at hblock
    exact hblock
  · exact hblock

/-- The session of a new connection goes into the table and is counted. -/
theorem kept_addClient {s : State} (hroom : s._clientCount ≠ s._maxClient) (client : Nat)
    (beginReceive : Option Int) : Kept s (s.addClient client beginReceive).1 := by
  have hne : s._clientCount.toNat ≠ s._maxClient.toNat := fun h => hroom (UInt16.toNat_inj.mp h)
  have hmax : s._maxClient.toNat < 2 ^ 16 := s._maxClient.toNat_lt
  unfold addClient
  dsimp only
  split
  · exact (s.frame_allocate _).kept
  · next hnew =>
    have hcounted : Kept s { s.allocate (s.newSession client) with
        _sessionTable := s._sessionTable.insert (s.newSession client)._id s.sessionCount
        _clientCount := s._clientCount + 1 } := by
      constructor
      · intro hk id d hd
        by_cases hid : id = (s.newSession client)._id
        · subst hid
          rw [AList.lookup_insert] at hd
          obtain rfl := Option.some.inj hd
          exact ⟨Nat.lt_succ_self _, by simp [allocate]⟩
        · rw [AList.lookup_insert_ne hid] at hd
          obtain ⟨hlt, hkey⟩ := hk id d hd
          exact ⟨Nat.lt_succ_of_lt hlt, by simp [allocate, Nat.ne_of_lt hlt, hkey]⟩
      · intro _ hc
        obtain ⟨hlen, hlimit⟩ := hc
        have hlen' :
            (s._sessionTable.insert (s.newSession client)._id s.sessionCount).entries.length =
              s._sessionTable.entries.length + 1 :=
          congrArg List.length (AList.entries_insert_of_notMem hnew)
        refine ⟨?_, ?_⟩
        · rw [hlen', UInt16.toNat_add, ← hlen]
          exact Nat.mod_eq_of_lt (by rw [UInt16.toNat_one]; omega)
        · rw [hlen']
          show _ ≤ s._maxClient.toNat
          omega
    cases beginReceive with
    | some code => exact hcounted
    | none => exact hcounted.trans (frame_raise _ _ _).kept

theorem frame_openSocket (s : State) (handle : Int32) : Frame s (s.openSocket handle) :=
  ⟨rfl, rfl, rfl, Nat.le_refl _, fun _ _ => rfl⟩

theorem kept_acceptConn (s : State) (endAccept : Except Int Int32) (beginReceive : Option Int) :
    Kept s (s.acceptConn endAccept beginReceive).1 := by
  unfold acceptConn
  split
  · exact (Frame.refl s).kept
  · cases endAccept with
    | error code => exact (Frame.refl s).kept
    | ok handle =>
      refine (s.frame_openSocket handle).kept.trans ?_
      dsimp only
      generalize s.openSocket handle = t
      split
      · split
        · exact ((t.frame_allocate (t.newSession s.socketCount)).trans
            (frame_raise _ true (.ServerFull t.sessionCount))).kept
        · exact (Frame.refl t).kept
      · next hroom => exact kept_addClient hroom _ _

theorem kept_closeAllClient (s : State) (order : List Nat) (shutdown : Nat → Option Int) :
    Kept s (s.closeAllClient order shutdown).1 := by
  have heach := frame_closeEach shutdown order s
  rw [closeAllClient]
  cases hc : closeEach shutdown s order with
  | mk s' e =>
    rw [hc] at heach
    cases e with
    | some e => exact heach.kept
    | none =>
      constructor
      · intro _ id c h
        cases h
      · intro _ _
        exact ⟨rfl, Nat.zero_le _⟩

/-! ## Every run -/

/-- **One step keeps the accounts in step exactly when the session that the application closes, if
it closes one, is in the table.** -/
theorem kept_step {s s' : State} {a : Action} (h : s.step a = some s') :
    (s.Keyed → s'.Keyed) ∧ (s.Keyed → s.Counted → (s'.Counted ↔ s.ClosesListed a)) := by
  have hkept : ∀ {t}, Kept s t →
      (s.Keyed → t.Keyed) ∧ (s.Keyed → s.Counted → (t.Counted ↔ True)) := fun hk =>
    ⟨hk.keyed, fun h h' => iff_of_true (hk.counted h h') trivial⟩
  cases a with
  | acceptConn endAccept beginReceive =>
    cases endAccept with
    | error code =>
      obtain rfl := Option.some.inj h
      exact hkept (s.kept_acceptConn _ _)
    | ok handle =>
      rw [step] at h
      split at h
      · obtain rfl := Option.some.inj h
        exact hkept (s.kept_acceptConn _ _)
      · cases h
  | receiveData client endReceive shutdown =>
    rw [step] at h
    split at h
    · obtain rfl := Option.some.inj h
      exact hkept (s.kept_receiveData _ _ _)
    · cases h
  | closeSession closeClient shutdown =>
    cases closeClient with
    | none =>
      obtain rfl := Option.some.inj h
      exact hkept (Frame.refl s).kept
    | some client =>
      rw [step] at h
      split at h
      · obtain rfl := Option.some.inj h
        have hclosed := s.closeSession_uncounted client shutdown
        exact ⟨hclosed.keyed, fun _ hc => hclosed.counted hc⟩
      · cases h
  | closeAllClient order shutdown =>
    rw [step] at h
    split at h
    · obtain rfl := Option.some.inj h
      exact hkept (s.kept_closeAllClient _ _)
    · cases h

theorem Started.keyed {s : State} (h : s.Started) : s.Keyed := by
  intro id c hc
  rw [h.table] at hc
  cases hc

theorem Started.counted {s : State} (h : s.Started) : s.Counted :=
  ⟨by rw [h.count, h.table]; rfl, by rw [h.table]; exact Nat.zero_le _⟩

theorem keyed_of_reach {s : State} {ok : State → Action → Prop} (hr : Reach Started step ok s) :
    s.Keyed :=
  hr.invariant Keyed (fun _ h => h.keyed) fun _ _ _ hk _ h => (kept_step h).1 hk

theorem counted_of_reach {s : State} (hr : Reach Started step ClosesListed s) : s.Counted := by
  refine (hr.invariant (fun s => s.Keyed ∧ s.Counted) (fun _ h => ⟨h.keyed, h.counted⟩) ?_).2
  rintro s a s' ⟨hk, hc⟩ hok h
  obtain ⟨hkeyed, hcounted⟩ := kept_step h
  exact ⟨hkeyed hk, (hcounted hk hc).mpr hok⟩

/-- **The accounts are in step in every run in which the application closes only sessions that are
in the table, and the first step that closes another one puts them out of step.** -/
theorem counted_while_closes_listed {s : State} (hr : Reach Started step ClosesListed s) :
    s.Counted ∧ ∀ a s', s.step a = some s' → (s'.Counted ↔ s.ClosesListed a) := by
  have hc := counted_of_reach hr
  exact ⟨hc, fun a s' h => (kept_step h).2 (keyed_of_reach hr) hc⟩

/-! ### A session that is closed twice -/

/-- A server with room for one client. -/
def smallServer : State :=
  { _maxClient := 1, _clientCount := 0, _isRun := true, _resolver := none, _sessionTable := ∅
    sockets := fun _ => ⟨0, true⟩, socketCount := 0
    sessions := fun _ => ⟨⟨0⟩, 0, none, .NormalExit⟩, sessionCount := 0
    handlers := ⟨true, true, true, true⟩, raised := [] }

theorem smallServer_started : smallServer.Started := ⟨rfl, rfl, rfl, rfl, rfl⟩

/-- One client comes and is closed by the application. -/
def closedOnce : List Action :=
  [.acceptConn (.ok 4) none, .closeSession (some 0) fun _ => none]

/-- The application closes the session a second time, and then two clients come. -/
def closedTwice : List Action :=
  closedOnce ++ [.closeSession (some 0) fun _ => none, .acceptConn (.ok 5) none,
    .acceptConn (.ok 6) none]

theorem closedOnce_runs : (exec step smallServer closedOnce).isSome = true := by decide +kernel

theorem closedTwice_runs : (exec step smallServer closedTwice).isSome = true := by decide +kernel

/-- The state after `closedOnce`. -/
def closedOnceState : State := (exec step smallServer closedOnce).get closedOnce_runs

theorem counted_closedOnce :
    closedOnceState.Counted ∧ ∀ a s', closedOnceState.step a = some s' →
      (s'.Counted ↔ closedOnceState.ClosesListed a) :=
  counted_while_closes_listed (.of_exec (.start smallServer_started) (by decide +kernel)
    (Option.some_get closedOnce_runs).symm)

/-- **With a limit of one client there are two in the table, and the count is one.** -/
theorem not_counted_closedTwice :
    ¬∀ s, Reach Started step anyStep s → s.Counted := by
  intro h
  have hc := h _ (.of_exec (.start smallServer_started) (by decide +kernel)
    (Option.some_get closedTwice_runs).symm)
  exact absurd hc.limit (by decide +kernel)

end State

end GhNet.Client.TcpSvr
