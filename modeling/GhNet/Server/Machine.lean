import GhNet.Lobby.Machine
import GhNet.Net.NetEvent

/-!
# The server

`main` gives the service a `NetEvent` to call, and the lobby the service's `send`. Whatever the
service reports goes to the lobby, and whatever the lobby sends goes to the service, inside the
callback that it was sent in.

The callbacks of `NetEvent` call nothing that calls back, so a callback is one step: from where the
service calls it to where the service goes on behind it. `main` catches nothing: a step is `none`
where the program ends inside of it, and there is no step behind an exception of the service.

`received` and `handed` are the history of the run: what completed `WSARecv`s have brought, with the
slot and the serial they were posted for, and what was handed to `GHS_Lobby::onRead`.
-/

namespace GhNet.Server

open GhNet GhNet.Net

/-- Bytes of a connection. -/
structure Piece where
  index : Nat
  serial : Nat
  bytes : Bytes
  deriving DecidableEq, Repr

/-- The objects of the program. -/
structure Program where
  io_service : Iocp.Service
  lobby : Lobby.GHS_Lobby
  received : List Piece
  handed : List Piece

namespace Program

/-- The program before it listens. -/
def new : Program := ⟨Iocp.Service.new, Lobby.GHS_Lobby.new, [], []⟩

/-- One step of the service. -/
def io (a : Iocp.Action) (sv : Program) : Option Program :=
  (Iocp.step sv.io_service a).map fun s => { sv with io_service := s }

/-- What the lobby hands to `IOService::send`, one call after the other. `posts` are the answers of
the system to the signals that are posted. -/
def sends (posts : Nat → Bool) (sent : List Lobby.Sent) : List Iocp.Action :=
  sent.mapIdx fun k m => .send m.index m.serial m.bytes (posts k)

/-- **The induction rule of `sends`.** -/
theorem sends_induction {R : Iocp.Service → Iocp.Service → Prop} (hrefl : ∀ s, R s s)
    (htrans : ∀ s t u, R s t → R t u → R s u)
    (hsend : ∀ s t i n buf accepted, Iocp.step s (.send i n buf accepted) = some t → R s t)
    {posts : Nat → Bool} {sent : List Lobby.Sent} {s s' : Iocp.Service}
    (h : exec Iocp.step s (sends posts sent) = some s') : R s s' := by
  induction sent generalizing posts s with
  | nil =>
    obtain rfl := Option.some.inj h
    exact hrefl s
  | cons m sent ih =>
    rw [sends, List.mapIdx_cons] at h
    cases hs : Iocp.step s (.send m.index m.serial m.bytes (posts 0)) with
    | none => rw [exec, hs] at h; cases h
    | some t =>
      rw [exec_cons hs] at h
      have hrest : R t s' := @ih (fun k => posts (k + 1)) t h
      exact htrans s t s' (hsend _ _ _ _ _ _ hs) hrest

/-- A call of the lobby. What the lobby sends does not come back to it, so the sends may stand
behind it. -/
def call (c : Lobby.Call) (env : Lobby.Env) (posts : Nat → Bool) (sv : Program) :
    Option Program := do
  let lobby ← Lobby.step sv.lobby (c, env)
  let io_service ← exec Iocp.step sv.io_service
    (sends posts (lobby.sent.drop sv.lobby.sent.length))
  return { sv with io_service := io_service, lobby := lobby }

/-- A piece of the stream is handed to the lobby. -/
def hand (p : Piece) (sv : Program) : Program := { sv with handed := sv.handed ++ [p] }

/-- The bytes of a completion, if it is one of a `WSARecv`. -/
def receive (r : Iocp.Request) (c : Iocp.Completion) (sv : Program) : Program :=
  match r.io_operation, c with
  | .ClientIoRead, .success _ bytes =>
    { sv with received := sv.received ++ [⟨r.index, r.serial, bytes⟩] }
  | _, _ => sv

end Program

/-! ## `NetEvent` -/

namespace NetEvent

open Program

/-- `NetEvent::onCon` -/
def onCon (index serial : Nat) (env : Lobby.Env) (posts : Nat → Bool) : Program → Option Program :=
  call (.onCon index serial) env posts

/-- `NetEvent::onDisCon` -/
def onDisCon (serial : Nat) (env : Lobby.Env) (posts : Nat → Bool) : Program → Option Program :=
  call (.onDisCon serial) env posts

/-- A message of the buffer is handed to the lobby, and taken off the buffer. -/
def message (index serial : Nat) (env : Lobby.Env) (posts : Nat → Bool) (sv : Program)
    (body : Bytes) : Option Program := do
  let sv ← call (.onRead serial body) env posts (sv.hand ⟨index, serial, body⟩)
  sv.io (.readMove (MSGHEADERLEN + body.length))

/-- `Net.onRead` finds the message, if there is one. -/
def onRead (index serial : Nat) (env : Lobby.Env) (posts : Nat → Bool) (sv : Program) :
    Option (Int × Program) :=
  match Net.onRead ⟨(sv.io_service.m_peer_array index).read_buf, []⟩ with
  | .error _ _ => none
  | .ok ret c => (c.handed.foldlM (message index serial env posts) sv).map fun sv => (ret, sv)

end NetEvent

/-! ## Steps -/

/-- What can happen next. `env` is what the lobby finds, `posts` and `accepted` are what the system
answers to the requests that the step posts. -/
inductive Input
  | accept (sd : Nat) (local_addr remote_addr : Iocp.Addr) (bound : Bool)
  | dequeue (r : Iocp.Request) (c : Iocp.Completion) (accepted : Bool)
  /-- the handler of a completion is done -/
  | finish
  /-- the callback that the service has called runs and returns -/
  | callback (env : Lobby.Env) (posts : Nat → Bool) (accepted : Bool)
  /-- `SGHS_Game::shared()->process()` in the loop of `main` -/
  | process (env : Lobby.Env) (posts : Nat → Bool)

open Program

/-- The callback that waits is run, and returns. -/
def callback (env : Lobby.Env) (posts : Nat → Bool) (accepted : Bool) (sv : Program) :
    Option Program :=
  match sv.io_service.stack with
  | .onCon index serial :: _ => do
    let sv ← NetEvent.onCon index serial env posts sv
    sv.io (.return_ 0 accepted)
  | .onDisCon _ serial :: _ => do
    let sv ← NetEvent.onDisCon serial env posts sv
    sv.io (.return_ 0 accepted)
  | .onRead index serial :: _ => do
    let (ret, sv) ← NetEvent.onRead index serial env posts sv
    sv.io (.return_ ret accepted)
  | _ => none

/-- One input. -/
def step (sv : Program) : Input → Option Program
  | .accept sd local_addr remote_addr bound => sv.io (.accept sd local_addr remote_addr bound)
  | .dequeue r c accepted => (sv.io (.dequeue r c accepted)).map (receive r c)
  | .finish => sv.io .finish
  | .callback env posts accepted => callback env posts accepted sv
  | .process env posts =>
    if sv.io_service.userRuns ∧ sv.io_service.stack = [] then sv.call .process env posts else none

end GhNet.Server
