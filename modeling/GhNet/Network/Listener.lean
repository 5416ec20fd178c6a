import GhNet.Infra.Run
import GhNet.Network.Rounds

/-!
# `ListenThread`

The thread that a successful `Connect` starts goes from round to round until it finds the session
dead. Between two rounds the user may send packets. An exception leaves the thread, and nothing is
said about what comes after.
-/

namespace GhNet.Network

open GhNet TNetState

/-- `previous` is the session as it was a round before. -/
structure Listener where
  session : TcpSession
  previous : TcpSession
  running : Bool

namespace Listener

/-- A round of the thread, or a packet of the user between two. -/
inductive Action
  | process (env : Env)
  | sendPacket (env : Env) (packet : CmdPacket)

/-- One action. A thread that has found its session dead makes no more rounds. -/
def step (l : Listener) : Action → Option Listener
  | .process env =>
    if l.running then
      match l.session.process env with
      | .error _ => none
      | .ok s => some ⟨s, l.session, decide (s.m_state ≠ NET_STATE_DEAD)⟩
    else none
  | .sendPacket env packet =>
    match l.session.sendPacket env packet false false with
    | .error _ => none
    | .ok (_, s) => some { l with session := s }

/-- A session of any past that has just been connected. -/
def Init (l : Listener) : Prop :=
  ∃ env s, s.key.Valid ∧ l = ⟨TcpSession.connect env s, TcpSession.connect env s, true⟩

/-! ### A thread that waits for the seed -/

/-- A round in which the socket can be written, and gives these bytes. -/
def round (b : Bytes) : Env := ⟨fun _ => 0, true, true, false, .bytes b, fun _ => .count 100⟩

/-- A new session that has just been connected. -/
def connecting : Listener :=
  ⟨TcpSession.connect (round []) .new, TcpSession.connect (round []) .new, true⟩

theorem connecting_steps : (step connecting (.process (round []))).isSome = true := by
  decide +kernel

/-- A round later. -/
def waiting : Listener := (step connecting (.process (round []))).get connecting_steps

theorem reach_waiting : Reach Init step anyStep waiting :=
  .next (.start ⟨round [], .new, ⟨rfl, .inl rfl⟩, rfl⟩) trivial (Option.some_get _).symm

end Listener

end GhNet.Network
